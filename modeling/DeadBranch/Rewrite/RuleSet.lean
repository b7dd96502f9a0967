/-!
# Rule sets

Which rules a pass applies, as the bits of a byte. Bits without a rule are kept
when a set is made and combined, and are cut off only by `complement`; they
have no name and enable nothing.
-/
namespace DeadBranch

inductive Rule where
  | flip
  | prune
  | inline
deriving Repr, DecidableEq

namespace Rule

/-- The rules in the order of their bits, which is also the order in which a pass runs. -/
def all : List Rule := [.flip, .prune, .inline]

def bit : Rule → UInt8
  | .flip => 1
  | .prune => 2
  | .inline => 4

def name : Rule → String
  | .flip => "FLIP_IF_STATEMENTS"
  | .prune => "REMOVE_DEAD_ALTERNATES"
  | .inline => "INLINE_IF_STATEMENTS"

end Rule

structure RuleSet where
  bits : UInt8
deriving Repr, DecidableEq

namespace RuleSet

def empty : RuleSet := ⟨0⟩

/-- All rules, and no other bit. -/
def all : RuleSet := ⟨Rule.all.foldl (fun bits r => bits ||| r.bit) 0⟩

instance : Inhabited RuleSet := ⟨all⟩

def single (r : Rule) : RuleSet := ⟨r.bit⟩

def insert (s t : RuleSet) : RuleSet := ⟨s.bits ||| t.bits⟩
def remove (s t : RuleSet) : RuleSet := ⟨s.bits &&& ~~~ t.bits⟩
def toggle (s t : RuleSet) : RuleSet := ⟨s.bits ^^^ t.bits⟩
def intersect (s t : RuleSet) : RuleSet := ⟨s.bits &&& t.bits⟩
def complement (s : RuleSet) : RuleSet := ⟨~~~ s.bits &&& all.bits⟩

/-- All bits of `t` are set in `s`. -/
def contains (s t : RuleSet) : Bool := s.bits &&& t.bits = t.bits

/-- Some bit is set in both. -/
def intersects (s t : RuleSet) : Bool := s.bits &&& t.bits ≠ 0

def isEmpty (s : RuleSet) : Bool := s.bits = 0

/-- Every rule is enabled, whatever the other bits. -/
def isAll (s : RuleSet) : Bool := s.contains all

def enables (s : RuleSet) (r : Rule) : Bool := s.contains (single r)

/-- The enabled rules' names, in bit order. -/
def names (s : RuleSet) : List String := (Rule.all.filter s.enables).map Rule.name

end RuleSet
end DeadBranch
