import Flowchart.Text.Basic

/-!
# Places in a source

Places are counted in UTF-8 bytes from the start of the source. A span is a half-open range of
them; **its end never lies before its start**.
-/

namespace Flowchart

/-- A half-open range of byte offsets. -/
structure Span where
  start : Nat
  stop : Nat
  start_le_stop : start ≤ stop := by omega
  deriving DecidableEq, Repr

namespace Span

/-- The span of a range; an end below the start is raised to the start. -/
def ofRange (start stop : Nat) : Span := ⟨start, max stop start, Nat.le_max_right _ _⟩

/-- The empty span at an offset. -/
def point (offset : Nat) : Span := ⟨offset, offset, Nat.le_refl _⟩

/-- The number of bytes of a span. -/
def size (s : Span) : Nat := s.stop - s.start

/-- No bytes. -/
def isEmpty (s : Span) : Bool := s.start == s.stop

/-- The smallest span around two spans. -/
def union (a b : Span) : Span := ofRange (min a.start b.start) (max a.stop b.stop)

/-- The span moved towards the end. -/
def shift (s : Span) (offset : Nat) : Span where
  start := s.start + offset
  stop := s.stop + offset
  start_le_stop := Nat.add_le_add_right s.start_le_stop offset

/-- A span written as its two offsets. -/
def text (s : Span) : String := s!"{s.start}..{s.stop}"

end Span

/-- A value together with the place where it was read. -/
structure Spanned (α : Type) where
  value : α
  span : Span
  deriving DecidableEq, Repr

/-- The number of line feeds that start before an offset. -/
def lineFeedsBefore : (offset : Nat) → List Char → Nat
  | _, [] => 0
  | 0, _ :: _ => 0
  | offset@(_ + 1), c :: cs =>
    (if c = '\n' then 1 else 0) + lineFeedsBefore (offset - c.utf8Size) cs

/-- The line of an offset, counted from one. -/
def lineNumber (source : List Char) (offset : Nat) : Nat := lineFeedsBefore offset source + 1

end Flowchart
