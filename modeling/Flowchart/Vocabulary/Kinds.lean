import Flowchart.Text.Basic
import Flowchart.Vocabulary.Basic

/-!
# Node types and edge types

The two closed classifications of a flowchart. The type of a node chooses its shape in every
notation, the type of an edge its arrow.
-/

namespace Flowchart

open Text (sameLetters)

/-! ## Nodes -/

/-- What a step of a flowchart stands for. -/
inductive NodeType where
  | start
  | finish
  | process
  | decision
  | data
  | subprocess
  | unspecified
  deriving DecidableEq, Repr

namespace NodeType

instance : Inhabited NodeType := ⟨unspecified⟩

/-- Every node type, in the order in which counts are listed. -/
def all : List NodeType := [start, finish, process, decision, data, subprocess, unspecified]

theorem mem_all (t : NodeType) : t ∈ all := by cases t <;> decide

/-- The name of a node type; `finish` is called `end`. -/
def name : NodeType → String
  | start => "start"
  | finish => "end"
  | process => "process"
  | decision => "decision"
  | data => "data"
  | subprocess => "subprocess"
  | unspecified => "unspecified"

/-- The node type of this exact name. -/
def ofName? (s : String) : Option NodeType := all.find? fun t => t.name == s

/-- Reads a name up to the case of its ASCII letters. -/
def read (s : String) : Except Unsupported NodeType :=
  match all.find? fun t => sameLetters t.name.toList s.toList with
  | some t => .ok t
  | none => .error ⟨.nodeType, s⟩

end NodeType

/-! ## Edges -/

/-- How two steps are connected: in sequence, under a condition, or back into a loop. -/
inductive EdgeType where
  | plain
  | conditional
  | loopBack
  deriving DecidableEq, Repr

namespace EdgeType

instance : Inhabited EdgeType := ⟨plain⟩

/-- Every edge type, in the order in which counts are listed. -/
def all : List EdgeType := [plain, conditional, loopBack]

theorem mem_all (t : EdgeType) : t ∈ all := by cases t <;> decide

/-- The name of an edge type. -/
def name : EdgeType → String
  | plain => "plain"
  | conditional => "conditional"
  | loopBack => "loop_back"

/-- The edge type of this exact name. -/
def ofName? (s : String) : Option EdgeType := all.find? fun t => t.name == s

/-- Reads a name up to the case of its ASCII letters. -/
def read (s : String) : Except Unsupported EdgeType :=
  match all.find? fun t => sameLetters t.name.toList s.toList with
  | some t => .ok t
  | none => .error ⟨.edgeType, s⟩

end EdgeType

end Flowchart
