import DeadBranch.Span

/-!
# Events

What the rules, the dead code pass and the pipeline put on record while they
run. An event is kept as what happened; `level`, `message` and `fields` give the
form in which a log shows it. `Stats` counts the rewrites of one pass and is
what the pass reports when it ends.
-/
namespace DeadBranch

/-- How many rewrites each rule made in one pass. -/
structure Stats where
  flipped : Nat := 0
  removed : Nat := 0
  inlined : Nat := 0
deriving Repr, DecidableEq, Inhabited

/-- No rule rewrote anything. -/
def Stats.isEmpty (s : Stats) : Bool := s = {}

inductive Level where
  | trace
  | debug
deriving Repr, DecidableEq

def Level.name : Level → String
  | .trace => "TRACE"
  | .debug => "DEBUG"

inductive Event where
  /-- A false conditional was left alone, because its else-if chain goes on. -/
  | chainContinues (span : Span)
  | flipped (span : Span)
  | removed (span : Span)
  /-- A true conditional gave way to its body of `length` statements. -/
  | inlined (span : Span) (length : Nat)
  | passFinished (stats : Stats)
  | running (transformer : String)
  /-- The round with this number, counted from zero, changed nothing. -/
  | stable (round : Nat)
deriving Repr, DecidableEq

namespace Event

/-- A value in a log entry. -/
inductive Field where
  | text (s : String)
  | count (n : Nat)
deriving Repr, DecidableEq

def level : Event → Level
  | .chainContinues _ => .trace
  | _ => .debug

def message : Event → String
  | .chainContinues _ => "else-if chain is not a terminal `else if (true)`"
  | .flipped _ => "flipped `if (false)`"
  | .removed _ => "removed dead alternate"
  | .inlined _ _ => "inlined `if (true)` body"
  | .passFinished _ => "dead code pass finished"
  | .running _ => "running transformer"
  | .stable _ => "pipeline reached a fixpoint"

def fields : Event → List (String × Field)
  | .chainContinues span | .flipped span | .removed span => [("span", .text span.text)]
  | .inlined span length => [("span", .text span.text), ("len", .count length)]
  | .passFinished stats =>
      [("flipped", .count stats.flipped), ("removed", .count stats.removed),
        ("inlined", .count stats.inlined)]
  | .running transformer => [("transformer", .text transformer)]
  | .stable round => [("round", .count round)]

end Event
end DeadBranch
