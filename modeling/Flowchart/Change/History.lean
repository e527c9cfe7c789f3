import Flowchart.Change.Compare

/-!
# Histories

A history is a list of named snapshots of a diagram. Names need not differ; looking one up finds
the first. The changelog sums up the changes from each snapshot to the next.
-/

namespace Flowchart

/-- Named snapshots, the oldest first. -/
structure History where
  versions : List (String × Diagram)

namespace History

/-- The history without snapshots. -/
def empty : History := ⟨[]⟩

/-- Appends a snapshot. -/
def add (h : History) (name : String) (d : Diagram) : History := ⟨h.versions ++ [(name, d)]⟩

/-- The first snapshot of this name. -/
def version? (h : History) (name : String) : Option Diagram :=
  (h.versions.find? fun v => v.1 = name).map Prod.snd

/-- The names of the snapshots. -/
def names (h : History) : List String := h.versions.map Prod.fst

/-- The changes between two named snapshots, if both exist. -/
def changes? (h : History) (old new : String) : Option Changes :=
  match h.version? old, h.version? new with
  | some a, some b => some (Changes.between a b)
  | _, _ => none

/-- The lines about one step of the history, or nothing if nothing changed. -/
def stepLines (old new : String × Diagram) : List String :=
  let c := Changes.between old.2 new.2
  if c.any then
    ["", s!"{old.1} -> {new.1}:", s!"  Changes: {c.total}",
      s!"    Nodes: +{c.addedNodes.length} -{c.removedNodes.length} ~{c.modifiedNodes.length}",
      s!"    Edges: +{c.addedEdges.length} -{c.removedEdges.length}"]
  else []

/-- Sums up the changes from each snapshot to the next. -/
def changelog (h : History) : String :=
  match h.versions with
  | [] | [_] => "No version history to compare."
  | versions =>
    let steps := (versions.zip versions.tail).flatMap fun p => stepLines p.1 p.2
    "\n".intercalate (s!"Changelog ({versions.length} versions):" :: steps)

end History

end Flowchart
