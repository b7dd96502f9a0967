/-!
# Spans

A span is the stretch of program text that a node was read from, as a pair of
byte positions counted from one. Nodes that were built by hand have the empty
span at zero. Nothing here asks for `lo ≤ hi`: trees may come from elsewhere.
-/
namespace DeadBranch

/-- A half-open stretch of text, from the byte `lo` up to the byte `hi`. -/
structure Span where
  lo : Nat
  hi : Nat
deriving Repr, DecidableEq, Inhabited

namespace Span

/-- The form in which log entries show a span. -/
def text (s : Span) : String := toString s.lo ++ ".." ++ toString s.hi

/-- From the start of one span to the end of another. -/
def upTo (s t : Span) : Span := ⟨s.lo, t.hi⟩

end Span
end DeadBranch
