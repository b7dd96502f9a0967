import DeadBranch.Rewrite.BottomUp
import DeadBranch.Tree.LiteralBoolean

/-!
# Inlining true branches

An entry of a block that is `if (true) { … }` without alternate gives way to the
statements between its braces. Entries are taken by position, each on its own.
Only blocks are spliced into: the body of a program, a switch case or a static
block keeps its entries, and so does every statement that stands alone.
-/
namespace DeadBranch.Node

/-- The span and the body of a true conditional over a block. -/
def inlinable? : Node → Option (Span × List Node)
  | .ifThen span test (.block _ _ stmts) =>
      if test.literalBoolean = some true then some (span, stmts) else none
  | _ => none

/-- What stands in a block for one of its entries. -/
def inlineEntry (n : Node) : Traced (List Node) :=
  match n.inlinable? with
  | some (span, stmts) => .rewrite (.inlined span stmts.length) stmts
  | none => pure [n]

def inlineEntries : List Node → Traced (List Node)
  | [] => pure []
  | n :: ns => do
      let here ← inlineEntry n
      let rest ← inlineEntries ns
      pure (here ++ rest)

def inlineStep : Node → Traced Node
  | .block span scope stmts => do
      let stmts ← inlineEntries stmts
      pure (.block span scope stmts)
  | n => pure n

/-- Inline true branches throughout a tree. -/
def inline (n : Node) : Traced Node := n.bottomUp inlineStep

end DeadBranch.Node
