import DeadBranch.Source.Function

/-!
# Classes

Class bodies, property keys and accessors. A member named `static`, `get`, `set`
or `constructor` is special only where its neighbours make it so. Members of
`super` may be mentioned anywhere in a class body.
-/
namespace DeadBranch.Source

open Reader

/-- A bracketed expression, commas allowed as `inner` has it. -/
def computedName (inner : Reader Node) : Reader Node := do
  let start ← here
  sign "["
  let e ← enclosed inner
  sign "]"
  return node .computedName (← spanFrom start) [.one e]

def propertyKey (g : Grammar) : Reader Node := do
  match ← peek? with
  | some { lexeme := .word name, span, .. } => do
      let _ ← advance
      return propertyName span name
  | some { lexeme := .string raw value, span, .. } => do
      let _ ← advance
      return stringLiteral span raw value
  | some { lexeme := .number raw value, span, .. } => do
      let _ ← advance
      return numericLiteral span raw value
  | some { lexeme := .sign "[", .. } => computedName g.assignment
  | _ => unexpected

/-- The word that a key is, if it is one. -/
def plainKey? : Node → Option String
  | .other label _ =>
      match label.kind, label.slots with
      | .propertyName, [_, .datum (.text name)] => some name
      | _, _ => none
  | _ => none

/-- Whether a key names the constructor, as a word or as a string. -/
def namesConstructor (key : Node) : Bool :=
  plainKey? key = some "constructor" || key.stringValue? = some "constructor"

inductive Accessor where
  | getter
  | setter
deriving Repr, DecidableEq

def Accessor.ofWord? : String → Option Accessor
  | "get" => some .getter
  | "set" => some .setter
  | _ => none

def Accessor.name : Accessor → String
  | .getter => "getter"
  | .setter => "setter"

/-- The accessor that a key introduces, unless an exempt sign follows it. -/
def accessor? (key : Node) (exempt : List String) : Reader (Option Accessor) := do
  let following ← peek?
  if exempt.any fun text => following.any (·.lexeme = .sign text) then return none
  else return (plainKey? key).bind Accessor.ofWord?

def isRest : Node → Bool
  | .other label _ => label.kind = .restElement
  | _ => false

/-- A getter takes no parameter, a setter one that is no rest. -/
def Accessor.accepts : Accessor → List Node → Bool
  | .getter, params => params.isEmpty
  | .setter, [param] => !isRest param
  | .setter, _ => false

def accessorSignature (g : Grammar) (start : Nat) (accessor : Accessor) :
    Reader (List Node × Node) := do
  let (params, body) ← withReader Scope.insideMethod (signature g)
  unless accessor.accepts params do fail .illegalParameters start
  return (params, body)

/-- `static` is a modifier unless the member ends or is called there. -/
def atStaticModifier : Reader Bool := do
  if ← nextWord "static" then
    return !(← second?).any fun t =>
      [.sign "(", .sign "=", .sign ";", .sign "\x7d"].contains t.lexeme
  else return false

def Scope.insideClass (s : Scope) : Scope := { s with superMember := true }

def Scope.insideInitializer (s : Scope) : Scope := { s with inInitializer := true }

/-- A block of a class sees the function, the loops and the labels around the class. -/
def staticBlock (g : Grammar) (start : Nat) : Reader Node := do
  let bodyStart ← here
  sign "\x7b"
  let stmts ← withReader Scope.insideInitializer (enclosed (manyUntil "\x7d" g.item))
  return .staticBlock (← spanFrom start) (← spanFrom bodyStart) 0 stmts

/-- The rest of a member that is called, from its parameters on. -/
def calledMember (g : Grammar) (start : Nat) (isStatic : Bool) (key : Node) : Reader Node := do
  if namesConstructor key then
    let (params, body) ← signature g
    if isStatic then fail .illegalMember start
    return constructorMethod (← spanFrom start) key (params.map parameter) body
  else
    let parts ← callable g start Scope.insideMethod
    return classMethod (← spanFrom start) key (.ofParts .function parts) "method" isStatic

/-- The rest of an accessor, from its key on. -/
def accessorMember (g : Grammar) (start : Nat) (isStatic : Bool) (accessor : Accessor) :
    Reader Node := do
  let key ← propertyKey g
  if namesConstructor key then fail .illegalMember start
  let (params, body) ← accessorSignature g start accessor
  let span ← spanFrom start
  let parts := callableParts span (params.map parameter) body
  return classMethod span key (.ofParts .function parts) accessor.name isStatic

def field (g : Grammar) (start : Nat) (isStatic : Bool) (key : Node) : Reader Node := do
  if namesConstructor key then fail .illegalMember start
  let value ←
    if ← acceptSign "=" then
      some <$> withReader Scope.insideInitializer (enclosed g.assignment)
    else pure none
  semicolon
  return classProperty (← spanFrom start) key value isStatic

def keyedMember (g : Grammar) (start : Nat) (isStatic : Bool) : Reader Node := do
  let key ← propertyKey g
  if ← nextSign "(" then calledMember g start isStatic key
  else
    match ← accessor? key ["=", ";", "\x7d"] with
    | some accessor => accessorMember g start isStatic accessor
    | none => field g start isStatic key

/-- One member; a lone semicolon is one too. -/
def classMember (g : Grammar) : Reader Node := do
  let start ← here
  if ← acceptSign ";" then return node .emptyStatement (← spanFrom start) []
  if ← atStaticModifier then
    word "static"
    if ← nextSign "\x7b" then staticBlock g start else keyedMember g start true
  else keyedMember g start false

def isConstructor : Node → Bool
  | .other label _ => label.kind = .constructorMethod
  | _ => false

/-- The shared fields of a class that began at `start`, from its heritage on. -/
def classFrom (g : Grammar) (start : Nat) : Reader (List (Part Node)) := do
  let superClass ← if ← acceptWord "extends" then some <$> g.leftHandSide else pure none
  sign "\x7b"
  let members ← withReader Scope.insideClass (manyUntil "\x7d" (classMember g))
  if (members.filter isConstructor).length > 1 then fail .duplicateConstructor start
  return classParts (← spanFrom start) members superClass

def classDeclaration (g : Grammar) : Reader Node := do
  let start ← here
  word "class"
  let (span, name) ← boundName
  let parts ← classFrom g start
  return .ofParts .classDeclaration (.one (identifier span name) :: .flag false :: parts)

/-- A class as an expression; the name may be left out. -/
def classExpression (g : Grammar) : Reader Node := do
  let start ← here
  word "class"
  let anonymous := (← nextWord "extends") || (← nextSign "\x7b")
  let name ← if anonymous then pure none else some <$> boundName
  let parts ← classFrom g start
  let name := name.map fun (span, name) => identifier span name
  return .ofParts .classExpression (.optional name :: parts)

end DeadBranch.Source
