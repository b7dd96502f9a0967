import DeadBranch.Source.Tree
import DeadBranch.Source.Reader
import DeadBranch.Tree.Directive

/-!
# Functions

Parameter lists, function bodies and what they allow. A body may be returned
from and hides the loops and labels around it; parameters stand outside of it.
Members of `super` may be mentioned in methods and no plain function; arrows
see what their surroundings see, and a body without braces hides only labels.
-/
namespace DeadBranch.Source

open Reader

/-- Braces around a list of items. -/
def block (g : Grammar) : Reader Node := do
  let start ← here
  sign "\x7b"
  let stmts ← enclosed (manyUntil "\x7d" g.item)
  return .block (← spanFrom start) 0 stmts

def parameterPattern (g : Grammar) : Reader Node := do
  let (span, name) ← boundName
  let target := bindingIdentifier span name
  if ← acceptSign "=" then
    let value ← enclosed g.assignment
    return node .assignmentPattern (across target value) [.one target, .one value]
  else return target

/-- A parameter that takes all remaining arguments; nothing may follow it. The span
of an arrow's leaves out the dots. -/
def restPattern (inArrow : Bool) : Reader Node := do
  let start ← here
  sign "..."
  let dots ← spanFrom start
  let (span, name) ← boundName
  unless ← nextSign ")" do unexpected
  return node .restElement (if inArrow then span else dots.upTo span)
    [.span dots, .one (bindingIdentifier span name), .absent]

def parameterList (g : Grammar) (inArrow : Bool) : Reader (List Node) := do
  sign "("
  commaUntil ")" do
    if ← nextSign "..." then restPattern inArrow else parameterPattern g

def Scope.insideBody (s : Scope) : Scope :=
  { s with inFunction := true, mayBreak := false, mayContinue := false, labels := [] }

/-- The body of an arrow that is an expression. -/
def Scope.insideArrow (s : Scope) : Scope := { s with labels := [] }

/-- A function with its parameters that is no method: `super` has no members there. -/
def Scope.insideFunction (s : Scope) : Scope :=
  { s with inFunction := false, superMember := false, inInitializer := false }

def Scope.insideMethod (s : Scope) : Scope :=
  { s with inFunction := false, superMember := true, inInitializer := false }

def isPlainName : Node → Bool
  | .other label _ => label.kind = .bindingIdentifier
  | _ => false

/-- A body may ask for strict mode only if its parameters are plain names. -/
def checkDirectives (params : List Node) (body : Node) : Reader Unit := do
  match body with
  | .block span _ stmts =>
      if !params.all isPlainName &&
          (Node.prologue stmts).any (·.stringValue? = some "use strict") then
        fail .lateStrictMode span.lo
  | _ => return ()

def signature (g : Grammar) : Reader (List Node × Node) := do
  let params ← parameterList g false
  let body ← withReader Scope.insideBody (block g)
  checkDirectives params body
  return (params, body)

/-- The shared fields of a function that began at `start`. -/
def callable (g : Grammar) (start : Nat) (scope : Scope → Scope) : Reader (List (Part Node)) := do
  let (params, body) ← withReader scope (signature g)
  return callableParts (← spanFrom start) (params.map parameter) body

def functionDeclaration (g : Grammar) : Reader Node := do
  let start ← here
  word "function"
  let (span, name) ← boundName
  let parts ← callable g start Scope.insideFunction
  return .ofParts .functionDeclaration (.one (identifier span name) :: .flag false :: parts)

/-- A function as an expression; the name may be left out. -/
def functionExpression (g : Grammar) : Reader Node := do
  let start ← here
  word "function"
  let name ← if ← nextSign "(" then pure none else some <$> boundName
  let parts ← callable g start Scope.insideFunction
  let name := name.map fun (span, name) => identifier span name
  return .ofParts .functionExpression (.optional name :: parts)

/-- Skip to behind the bracket that closes the one the tokens begin with. -/
def behindBracket : Nat → List Token → List Token
  | _, [] => []
  | depth, t :: ts =>
      if [.sign "(", .sign "[", .sign "\x7b"].contains t.lexeme then behindBracket (depth + 1) ts
      else if [.sign ")", .sign "]", .sign "\x7d"].contains t.lexeme then
        if depth ≤ 1 then ts else behindBracket (depth - 1) ts
      else behindBracket depth ts

/-- The next token is an arrow on the same line. -/
def startsWithArrow : List Token → Bool
  | t :: _ => t.lexeme = .sign "=>" && !t.newlineBefore
  | [] => false

/-- The tokens ahead are the parameters of an arrow. -/
def atArrow : Reader Bool := do
  match (← get).ahead with
  | { lexeme := .word _, .. } :: ts => return startsWithArrow ts
  | t :: ts => return t.lexeme = .sign "(" && startsWithArrow (behindBracket 0 (t :: ts))
  | [] => return false

/-- An arrow and its body, which is a block or a single expression. -/
def arrowFunction (g : Grammar) : Reader Node := do
  let start ← here
  let params ←
    if ← nextSign "(" then parameterList g true
    else do
      let (span, name) ← boundName
      pure [bindingIdentifier span name]
  sign "=>"
  let body ←
    if ← nextSign "\x7b" then withReader Scope.insideBody (block g)
    else withReader Scope.insideArrow g.assignment
  checkDirectives params body
  return arrow (← spanFrom start) params body

end DeadBranch.Source
