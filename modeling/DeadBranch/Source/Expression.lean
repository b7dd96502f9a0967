import DeadBranch.Source.Class

/-!
# Expressions

From names and literals up to comma sequences. Operands of binary operators are
read as one flat chain and put together by precedence afterwards. No operand of
a coalescing operator is a bare logical expression. Parentheses are nodes of
their own, so nothing is lost about how a text was grouped.
-/
namespace DeadBranch.Source

open Reader

/-- The dots before what is spread, if there are any. -/
def dots? : Reader (Option Span) := do
  let start ← here
  if ← acceptSign "..." then return some (← spanFrom start) else return none

def element (g : Grammar) : Reader Node := do
  match ← dots? with
  | some dots => return spreadArgument dots (← g.assignment)
  | none => return argument (← g.assignment)

def arguments (g : Grammar) : Reader (List Node) := do
  sign "("
  enclosed (commaUntil ")" (element g))

/-- The elements of an array, up to its bracket. A comma without an element before it
leaves a hole; one after the last element adds nothing. -/
def elements (g : Grammar) : Reader (List (Option Node)) :=
  manyUntil "]" do
    if ← acceptSign "," then return none
    else
      let e ← element g
      unless ← nextSign "]" do sign ","
      return some e

/-- The rest of an accessor of an object, from its key on. -/
def accessorProperty (g : Grammar) (start : Nat) (accessor : Accessor) : Reader Node := do
  let key ← propertyKey g
  let (params, body) ← accessorSignature g start accessor
  let span ← spanFrom start
  match params with
  | [param] => return node .setterProperty span [.one key, .absent, .one param, .one body]
  | _ => return node .getterProperty span [.one key, .absent, .one body]

def property (g : Grammar) : Reader Node := do
  let start ← here
  if let some dots ← dots? then
    return .ofParts .spreadElement [.span dots, .one (← g.assignment)]
  let first ← peek?
  let key ← propertyKey g
  if ← nextSign "(" then
    let parts ← callable g start Scope.insideMethod
    return .ofParts .methodProperty (.one key :: parts)
  else if ← acceptSign ":" then
    let value ← g.assignment
    return .ofParts .keyValueProperty [.one key, .one value]
  else
    match ← accessor? key ["=", ",", "\x7d"] with
    | some accessor => accessorProperty g start accessor
    | none =>
        match first with
        | some { lexeme := .word name, span, .. } =>
            if isKeyword name then fail .reservedName span.lo else return identifier span name
        | _ => unexpected

/-- Names, literals and everything between brackets. -/
def primary (g : Grammar) : Reader Node := do
  let start ← here
  match ← peek? with
  | some { lexeme := .word "function", .. } => functionExpression g
  | some { lexeme := .word "class", .. } => classExpression g
  | some { lexeme := .word w, span, .. } =>
      match w with
      | "true" | "false" =>
          let _ ← advance
          return .bool span (w = "true")
      | "null" =>
          let _ ← advance
          return node .nullLiteral span []
      | "this" =>
          let _ ← advance
          return node .thisExpression span []
      | _ =>
          let (span, name) ← name
          return identifier span name
  | some { lexeme := .number raw value, span, .. } =>
      let _ ← advance
      return numericLiteral span raw value
  | some { lexeme := .string raw value, span, .. } =>
      let _ ← advance
      return stringLiteral span raw value
  | some { lexeme := .sign "(", .. } =>
      sign "("
      let e ← enclosed g.expression
      sign ")"
      return .paren (← spanFrom start) e
  | some { lexeme := .sign "[", .. } =>
      sign "["
      let entries ← enclosed (elements g)
      return node .arrayExpression (← spanFrom start) [.many entries]
  | some { lexeme := .sign "\x7b", .. } =>
      sign "\x7b"
      let properties ← enclosed (commaUntil "\x7d" (property g))
      return node .objectExpression (← spanFrom start) [.list properties]
  | _ => unexpected

/-- What follows a dot or stands in brackets. -/
def memberKey? (g : Grammar) : Reader (Option Node) := do
  if ← acceptSign "." then
    match ← advance with
    | { lexeme := .word name, span, .. } => return some (propertyName span name)
    | t => fail .unexpectedToken t.span.lo
  else if ← nextSign "[" then return some (← computedName g.expression)
  else return none

/-- One more member access or call of what began at `start`. -/
def suffix? (g : Grammar) (start : Nat) (calls : Bool) (e : Node) : Reader (Option Node) := do
  match ← memberKey? g with
  | some key => return some (node .memberExpression (← spanFrom start) [.one e, .one key])
  | none =>
      if calls && (← nextSign "(") then
        let args ← arguments g
        return some (call (← spanFrom start) e args)
      else return none

/-- A member of `super`, or a call of it; calls are not tied to a place. -/
def superReference (g : Grammar) (calls : Bool) : Reader Node := do
  let start ← here
  word "super"
  let base := node .superReference (← spanFrom start) []
  match ← memberKey? g with
  | some key =>
      unless (← read).superMember do fail .illegalSuper start
      return node .superPropExpression (← spanFrom start) [.one base, .one key]
  | none =>
      unless calls && (← nextSign "(") do fail .illegalSuper start
      let args ← arguments g
      return call (← spanFrom start) base args

/-- The innermost part of a chain of accesses and calls. -/
def chainHead (g : Grammar) (calls : Bool) : Reader Node := do
  if ← nextWord "new" then g.construction
  else if ← nextWord "super" then superReference g calls
  else primary g

/-- A construction: the callee has accesses but no calls of its own. -/
def construction (g : Grammar) : Reader Node := do
  let start ← here
  word "new"
  let calleeStart ← here
  let callee ← extend (suffix? g calleeStart false) (← chainHead g false)
  let args ← if ← nextSign "(" then some <$> arguments g else pure none
  return construct (← spanFrom start) callee args

def leftHandSide (g : Grammar) : Reader Node := do
  let start ← here
  let head ← if ← nextWord "new" then construction g else chainHead g true
  extend (suffix? g start true) head

/-- Whether a value can be stored in an expression: a name or a member, in any parentheses. -/
def isAssignable : Node → Bool
  | .paren _ e => isAssignable e
  | .other label _ =>
      match label.kind, label.slots with
      | .identifier, [_, _, .datum (.text name), _] => !readOnlyNames.contains name
      | .memberExpression, _ | .superPropExpression, _ => true
      | _, _ => false
  | _ => false

def checkAssignable (e : Node) : Reader Unit := do
  unless isAssignable e do fail .notAssignable (spanOf e).lo

/-- An expression in the place of a target: a bare name counts as bound there. -/
def target (e : Node) : Reader Node := do
  checkAssignable e
  match e with
  | .other label children =>
      match label.kind, label.slots with
      | .identifier, [_, _, .datum (.text name), _] => return bindingIdentifier (spanOf e) name
      | _, _ => return .other label children
  | e => return e

def nextUpdate? : Reader (Option String) := do
  match ← peek? with
  | some { lexeme := .sign "++", .. } => return some "++"
  | some { lexeme := .sign "--", .. } => return some "--"
  | _ => return none

def update (span : Span) (operator : String) (before : Bool) (e : Node) : Node :=
  node .updateExpression span [.text operator, .flag before, .one e]

/-- An increment or decrement after its operand stands on the same line. -/
def updated (g : Grammar) : Reader Node := do
  let start ← here
  let e ← leftHandSide g
  match ← nextUpdate? with
  | some operator =>
      if ← atLineStart then return e
      checkAssignable e
      let _ ← advance
      return update (← spanFrom start) operator false e
  | none => return e

def unaryOperators : List Lexeme :=
  [.sign "!", .sign "-", .sign "+", .word "typeof", .word "void"]

def lexemeText : Lexeme → String
  | .word name => name
  | .number raw _ => raw
  | .string raw _ => raw
  | .sign text => text

def unary (g : Grammar) : Reader Node := do
  let start ← here
  match ← peek? with
  | some t =>
      if unaryOperators.contains t.lexeme then
        let _ ← advance
        let e ← g.unary
        return node .unaryExpression (← spanFrom start) [.text (lexemeText t.lexeme), .one e]
      else
        match ← nextUpdate? with
        | some operator =>
            let _ ← advance
            let e ← g.unary
            checkAssignable e
            return update (← spanFrom start) operator true e
        | none => updated g
  | none => unexpected

def precedence? : Lexeme → Option Nat
  | .sign text =>
      match text with
      | "??" | "||" => some 1
      | "&&" => some 2
      | "==" | "!=" | "===" | "!==" => some 3
      | "<" | ">" | "<=" | ">=" => some 4
      | "+" | "-" => some 5
      | "*" | "/" | "%" => some 6
      | _ => none
  | .word "in" | .word "instanceof" => some 4
  | _ => none

/-- A binary operator and what stands to its left. -/
structure Pending where
  left : Node
  operator : String
  level : Nat

/-- A logical expression that is not in parentheses. -/
def isLogical : Node → Bool
  | .other label _ =>
      match label.kind, label.slots with
      | .binaryExpression, [_, .datum (.text operator), _, _] =>
          operator = "||" || operator = "&&"
      | _, _ => false
  | _ => false

def join (p : Pending) (right : Node) : Except SyntaxError Node :=
  if p.operator = "??" && (isLogical p.left || isLogical right) then
    .error ⟨.mixedCoalescing, (spanOf right).lo⟩
  else .ok (binary p.operator p.left right)

/-- Join what binds at least as tightly as an operator of this level. -/
def reduce (level : Nat) : List Pending → Node → Except SyntaxError (List Pending × Node)
  | p :: stack, right =>
      if level ≤ p.level then do reduce level stack (← join p right) else .ok (p :: stack, right)
  | [], right => .ok ([], right)

/-- Put a chain of operands together; operators of one level associate to the left. -/
def associate :
    List Pending → Node → List (String × Nat × Node) → Except SyntaxError Node
  | stack, last, [] => do return (← reduce 0 stack last).2
  | stack, last, (operator, level, next) :: rest => do
      let (stack, left) ← reduce level stack last
      associate (⟨left, operator, level⟩ :: stack) next rest

def operation? (g : Grammar) : Reader (Option (String × Nat × Node)) := do
  match ← peek? with
  | some { lexeme, .. } =>
      if lexeme = .word "in" && (← read).inHead then return none
      match precedence? lexeme with
      | some level =>
          let _ ← advance
          return some (lexemeText lexeme, level, ← unary g)
      | none => return none
  | none => return none

def binaryExpression (g : Grammar) : Reader Node := do
  let first ← unary g
  let rest ← many (operation? g)
  associate [] first rest

def conditional (g : Grammar) : Reader Node := do
  let test ← binaryExpression g
  if ← acceptSign "?" then
    let consequent ← enclosed g.assignment
    sign ":"
    let alternate ← g.assignment
    return node .conditionalExpression (across test alternate)
      [.one test, .one consequent, .one alternate]
  else return test

def assignmentOperators : List String := ["=", "+=", "-="]

def assignment (g : Grammar) : Reader Node := do
  if ← atArrow then arrowFunction g
  else
    let left ← conditional g
    match ← peek? with
    | some { lexeme := .sign operator, .. } =>
        if assignmentOperators.contains operator then
          let left ← target left
          let _ ← advance
          let right ← g.assignment
          return node .assignmentExpression (across left right)
            [.text operator, .one left, .one right]
        else return left
    | _ => return left

def expression (g : Grammar) : Reader Node := do
  let first ← assignment g
  let rest ← many do
    if ← acceptSign "," then return some (← assignment g) else return none
  match rest.getLast? with
  | none => return first
  | some last => return node .sequenceExpression (across first last) [.list (first :: rest)]

end DeadBranch.Source
