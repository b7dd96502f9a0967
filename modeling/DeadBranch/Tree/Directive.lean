import DeadBranch.Tree.Node

/-!
# Directives

A statement that is nothing but a string literal is a directive if it stands at
the head of a function's body. Parentheses make it an ordinary expression.
-/
namespace DeadBranch.Node

/-- The literal of a statement that is nothing but a string literal. -/
def directive? : Node → Option Node
  | .other label [.other literal children] =>
      if label.kind = .expressionStatement ∧ literal.kind = .stringLiteral then
        some (.other literal children)
      else none
  | _ => none

/-- The directives at the head of a list of statements. -/
def prologue (stmts : List Node) : List Node :=
  (stmts.takeWhile (·.directive?.isSome)).filterMap directive?

/-- The value of a string literal. -/
def stringValue? : Node → Option String
  | .other label _ =>
      match label.kind, label.slots with
      | .stringLiteral, [_, .datum (.text value), _] => some value
      | _, _ => none
  | _ => none

end DeadBranch.Node
