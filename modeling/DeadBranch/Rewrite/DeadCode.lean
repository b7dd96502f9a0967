import DeadBranch.Rewrite.Flip
import DeadBranch.Rewrite.Inline
import DeadBranch.Rewrite.Prune
import DeadBranch.Rewrite.RuleSet

/-!
# The dead code pass

One run applies the enabled rules as separate traversals: flip, prune, inline.
Nothing is repeated, so a place that a later rule opens for an earlier one waits
for the next run.
-/
namespace DeadBranch

/-- The step that a rule takes at each node. -/
def Rule.step : Rule → Node → Traced Node
  | .flip => Node.flipStep
  | .prune => Node.pruneStep
  | .inline => Node.inlineStep

/-- Apply one rule throughout a tree. -/
def Rule.rewrite (r : Rule) (n : Node) : Traced Node := n.bottomUp r.step

/-- Apply one rule to each tree of a list; the list itself keeps its entries. -/
def Rule.rewriteAll (r : Rule) (ns : List Node) : Traced (List Node) :=
  Node.bottomUpAll r.step ns

/-- Apply a rule if the set enables it. -/
def RuleSet.rewrite (rules : RuleSet) (r : Rule) (n : Node) : Traced Node :=
  if rules.enables r then r.rewrite n else pure n

/-- The pass with the rules it applies and the counts of its most recent run. -/
structure DeadCode where
  rules : RuleSet := .all
  stats : Stats := {}
deriving Repr, DecidableEq, Inhabited

namespace DeadCode

/-- What one run gives. -/
structure Outcome where
  program : Node
  stats : Stats
  log : List Event

def run (rules : RuleSet) (program : Node) : Outcome :=
  let flipped := rules.rewrite .flip program
  let pruned := rules.rewrite .prune flipped.value
  let inlined := rules.rewrite .inline pruned.value
  { program := inlined.value
    stats := ⟨flipped.count, pruned.count, inlined.count⟩
    log := flipped.log ++ pruned.log ++ inlined.log }

end DeadCode
end DeadBranch
