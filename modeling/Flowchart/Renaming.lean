import Flowchart.Diagram.Basic
import Flowchart.Graph.Search

/-!
# Renaming ids to plain words

Mermaid and PlantUML can only name a node by a plain word. A renaming gives every id of a diagram,
edge ends that are no node included, an output id: plain words keep their spelling, and any other id
has its other characters replaced by underscores and gets a numeric suffix where the result is
reserved or taken. **No two ids get the same output id.**
-/

namespace Flowchart

open Text (isWordChar sameLetters)

/-- The words that a notation does not read as node ids. -/
structure ReservedWords where
  words : List String
  /-- The words are reserved in any ASCII case. -/
  caseless : Bool := false

namespace ReservedWords

/-- The word is reserved. -/
def contains (r : ReservedWords) (word : String) : Bool :=
  r.words.any fun w => if r.caseless then sameLetters w.toList word.toList else w == word

/-- The id can be written as it is. -/
def allows (r : ReservedWords) (id : String) : Bool :=
  id ≠ "" && id.toList.all isWordChar && !r.contains id

end ReservedWords

/-- The output id of each id, in the order in which the ids occur. -/
structure Renaming where
  pairs : List (String × String)
  deriving DecidableEq, Repr

namespace Renaming

/-- Every id of a diagram once: those of the nodes, then the ends of the edges. -/
def idsOf (d : Diagram) : List String :=
  Search.fresh [] (d.ids ++ d.edges.flatMap fun e => [e.source, e.target])

/-- The id with underscores for everything that is no part of a word; never empty. -/
def wordFor (id : String) : String :=
  if id = "" then "node"
  else String.ofList (id.toList.map fun c => if isWordChar c then c else '_')

/-- The candidates for an id: the word itself, then with the suffixes 1, 2 and so on. The first
`2 ^ 31 - 1` of them are those of a counter of 32 bits (`Renaming.tries_iff`). -/
def candidate (word : String) : Nat → String
  | 0 => word
  | n + 1 => s!"{word}_{n + 1}"

/-- The first candidate from `n` on that is neither taken nor reserved. -/
def firstFree (reserved : ReservedWords) (taken : List String) (word : String) :
    (fuel n : Nat) → String
  | 0, n => candidate word n
  | fuel + 1, n =>
    let c := candidate word n
    if taken.contains c || reserved.contains c then firstFree reserved taken word fuel (n + 1) else c

/-- Gives the ids their output ids one after the other. -/
def assign (reserved : ReservedWords) : (taken : List String) → List String → List (String × String)
  | _, [] => []
  | taken, id :: rest =>
    if reserved.allows id then (id, id) :: assign reserved taken rest
    else
      let name :=
        firstFree reserved taken (wordFor id) (taken.length + reserved.words.length) 0
      (id, name) :: assign reserved (name :: taken) rest

/-- The renaming of a diagram. Plain ids are taken from the start, wherever they occur. -/
def ofDiagram (reserved : ReservedWords) (d : Diagram) : Renaming :=
  let ids := idsOf d
  ⟨assign reserved (ids.filter reserved.allows) ids⟩

/-- The output id of an id; an id that the diagram does not have stays. -/
def apply (r : Renaming) (id : String) : String :=
  match r.pairs.find? fun p => p.1 = id with
  | some p => p.2
  | none => id

end Renaming

end Flowchart
