import DeadBranch.Rewrite.BottomUp
import DeadBranch.Tree.LiteralBoolean

/-!
# Turning false conditionals round

`if (false) A else B` and `if (false) A else if (true) B` both become
`if (true) B else A`: the branch that runs comes first, and what never runs is
left as an alternate for removal. An else-if that tests anything but a literal
`true`, or that has an alternate of its own, leaves the conditional as it is;
that is logged, because a later pass may find the chain shortened.
-/
namespace DeadBranch.Node

/-- What runs when a conditional with this alternate is false for certain; `none` if
that still hangs on a test. -/
def fallThrough? : Node → Option Node
  | .ifThen _ test consequent =>
      if test.literalBoolean = some true then some consequent else none
  | .ifElse .. => none
  | body => some body

/-- Spans and parentheses stay: only the literal's value changes. -/
def flipStep : Node → Traced Node
  | .ifElse span test consequent alternate =>
      if test.literalBoolean = some false then
        match alternate.fallThrough? with
        | some body =>
            .rewrite (.flipped span) (.ifElse span (test.withLiteral true) body consequent)
        | none => .note (.chainContinues span) (.ifElse span test consequent alternate)
      else pure (.ifElse span test consequent alternate)
  | n => pure n

/-- Turn false conditionals round throughout a tree. -/
def flip (n : Node) : Traced Node := n.bottomUp flipStep

end DeadBranch.Node
