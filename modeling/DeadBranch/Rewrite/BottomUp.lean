import DeadBranch.Rewrite.Traced
import DeadBranch.Tree.Node

/-!
# Bottom-up rewriting

One traversal for every rule: the children of a node are rewritten in visiting
order, then the node that holds the rewritten children is handed to the rule's
step. A step therefore sees each place of the tree once, after everything below
it, and what it puts in place is not visited again.
-/
namespace DeadBranch.Node

mutual

/-- Rewrite below, then here. -/
def bottomUp (step : Node → Traced Node) : Node → Traced Node
  | .ifThen s t c => do
      let t ← bottomUp step t
      let c ← bottomUp step c
      step (.ifThen s t c)
  | .ifElse s t c a => do
      let t ← bottomUp step t
      let c ← bottomUp step c
      let a ← bottomUp step a
      step (.ifElse s t c a)
  | .block s k stmts => do
      let stmts ← bottomUpAll step stmts
      step (.block s k stmts)
  | .staticBlock s b k stmts => do
      let stmts ← bottomUpAll step stmts
      step (.staticBlock s b k stmts)
  | .paren s e => do
      let e ← bottomUp step e
      step (.paren s e)
  | .bool s v => step (.bool s v)
  | .other l children => do
      let children ← bottomUpAll step children
      step (.other l children)

/-- Rewrite the trees of a list one after the other. -/
def bottomUpAll (step : Node → Traced Node) : List Node → Traced (List Node)
  | [] => pure []
  | n :: ns => do
      let n ← bottomUp step n
      let ns ← bottomUpAll step ns
      pure (n :: ns)

end

end DeadBranch.Node
