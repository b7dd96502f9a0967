import DeadBranch.Rewrite.BottomUp
import DeadBranch.Tree.LiteralBoolean

/-!
# Removing dead alternates

The plain `else` of an `if (true)` never runs and is dropped. A link of an
else-if chain is kept, whatever it tests.
-/
namespace DeadBranch.Node

def pruneStep : Node → Traced Node
  | .ifElse span test consequent alternate =>
      if test.literalBoolean = some true ∧ ¬ alternate.isIf then
        .rewrite (.removed span) (.ifThen span test consequent)
      else pure (.ifElse span test consequent alternate)
  | n => pure n

/-- Remove dead alternates throughout a tree. -/
def prune (n : Node) : Traced Node := n.bottomUp pruneStep

end DeadBranch.Node
