import DeadBranch.Tree.LiteralBoolean

/-!
# The top level of a program

A program is a module or a script over a list of items. The functions here work
on that list and on the program's span; a tree that is no program is left alone.
-/
namespace DeadBranch.Node

def isEmptyStatement : Node → Bool
  | .other label _ => label.kind = .emptyStatement
  | _ => false

def emptyStatement (span : Span) : Node := ofParts .emptyStatement [.span span]

/-- Whether a node is a program: its fields are a span, the items and an interpreter line. -/
def isProgram : Node → Bool
  | .other label _ => label.kind = .moduleProgram || label.kind = .scriptProgram
  | _ => false

/-- Replace the items of a program. -/
def mapItems (f : List Node → List Node) : Node → Node
  | .other label items =>
      match isProgram (.other label items), label.slots with
      | true, [span, .many _, interpreter] =>
          let items := f items
          .other { label with slots := [span, .many (items.map fun _ => true), interpreter] } items
      | _, _ => .other label items
  | n => n

/-- Change the span of a program. -/
def mapProgramSpan (f : Span → Span) : Node → Node
  | .other label items =>
      match isProgram (.other label items), label.slots with
      | true, .datum (.span s) :: slots =>
          .other { label with slots := .datum (.span (f s)) :: slots } items
      | _, _ => .other label items
  | n => n

/-- A conditional on a literal boolean has that literal negated. -/
def negateTest : Node → Node
  | .ifThen s test c =>
      match test.literalBoolean with
      | some v => .ifThen s (test.withLiteral !v) c
      | none => .ifThen s test c
  | .ifElse s test c a =>
      match test.literalBoolean with
      | some v => .ifElse s (test.withLiteral !v) c a
      | none => .ifElse s test c a
  | n => n

end DeadBranch.Node
