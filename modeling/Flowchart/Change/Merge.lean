import Flowchart.Diagram.Basic
import Flowchart.Graph.Search

/-!
# Merging two descendants of a diagram

Of a base and two descendants, `union` keeps everything once and `intersection` only what both
descendants have; the other two strategies pick a descendant.
-/

namespace Flowchart

/-- How two descendants are merged. -/
inductive MergeStrategy where
  | union
  | intersection
  | ours
  | theirs
  deriving DecidableEq, Repr

namespace MergeStrategy

/-- Everything is kept unless a strategy says otherwise. -/
instance : Inhabited MergeStrategy := ⟨union⟩

/-- Every strategy. -/
def all : List MergeStrategy := [union, intersection, ours, theirs]

/-- The name of a strategy. -/
def name : MergeStrategy → String
  | union => "union"
  | intersection => "intersection"
  | ours => "ours"
  | theirs => "theirs"

/-- The strategy of this exact name. -/
def ofName? (s : String) : Option MergeStrategy := all.find? fun t => t.name == s

/-- Reads a name up to ASCII case. -/
def read (s : String) : Except Unsupported MergeStrategy :=
  match ofName? s.toLower with
  | some strategy => .ok strategy
  | none => .error ⟨.mergeStrategy, s⟩

end MergeStrategy

/-- The first edge for each pair of ends. -/
def firstOfPairs (seen : List (String × String)) : List Edge → List Edge
  | [] => []
  | e :: rest =>
    if (e.source, e.target) ∈ seen then firstOfPairs seen rest
    else e :: firstOfPairs ((e.source, e.target) :: seen) rest

namespace Sheet

/-- All nodes of the three diagrams, a later one replacing an earlier one of the same id in its
place; all edges in order, those equal to an earlier one dropped; the metadata of `ours`. -/
def mergeUnion (base ours theirs : Sheet) : Sheet :=
  (ofNodes (base.nodes ++ ours.nodes ++ theirs.nodes) ours.metadata).addEdges
    (Search.fresh [] (base.edges ++ ours.edges ++ theirs.edges))

/-- The nodes of `ours` whose id `theirs` has too; of the edges of `ours` between them the first for
each pair of ends that `theirs` joins too; the metadata of the base. -/
def mergeIntersection (base ours theirs : Sheet) : Sheet :=
  let nodes := ofNodes (ours.nodes.filter fun n => theirs.contains n.id) base.metadata
  let shared := ours.edges.filter fun e =>
    nodes.connects e && theirs.edges.any fun f => f.source == e.source && f.target == e.target
  nodes.addEdges (firstOfPairs [] shared)

/-- Merges two descendants of `base`. -/
def merge (base ours theirs : Sheet) : MergeStrategy → Sheet
  | .union => mergeUnion base ours theirs
  | .intersection => mergeIntersection base ours theirs
  | .ours => ours
  | .theirs => theirs

/-- The nodes of a union, and of an intersection, are put under their ids one after the other. -/
theorem isKeyed_merge (base : Sheet) {ours theirs : Sheet} (hours : IsKeyed ours.slots)
    (htheirs : IsKeyed theirs.slots) (strategy : MergeStrategy) :
    IsKeyed (base.merge ours theirs strategy).slots := by
  cases strategy with
  | union | intersection => exact IsKeyed.nil.putAll _
  | ours => exact hours
  | theirs => exact htheirs

end Sheet

/-- Merges two descendants of `base`. -/
def Diagram.merge (base ours theirs : Diagram) (strategy : MergeStrategy) : Diagram :=
  ⟨base.toSheet.merge ours.toSheet theirs.toSheet strategy,
    Sheet.isKeyed_merge base.toSheet ours.keyed theirs.keyed strategy⟩

end Flowchart
