import DeadBranch.Source.Expression

/-!
# Statements

Statements and declarations. A declaration other than `var` stands in a list of
items only: it is no branch, loop body or labelled statement. A label may be
broken out of by `break` with or without its name; it may be continued, like any
label around, wherever a loop is around. In a `for` head the word `in` belongs to
the loop, except in the values that `let` and `const` give.
-/
namespace DeadBranch.Source

open Reader

def guarded (g : Grammar) : Reader Node := do
  sign "("
  let e ← expression g
  sign ")"
  return e

/-- Words that open a `for` head's second form. -/
def atEnumeration : Reader Bool := do
  if ← nextWord "in" then return true
  nextWord "of"

/-- One declared name. A constant has a value unless it stands in a loop's head. -/
def declaration (g : Grammar) (keyword : String) (inHead : Bool) : Reader Node := do
  let start ← here
  let (span, name) ← boundName
  let pattern := bindingIdentifier span name
  if ← acceptSign "=" then
    let value ← assignment g
    return declarator (← spanFrom start) pattern (some value)
  else
    if keyword = "const" && !inHead then fail .missingInitializer span.lo
    return declarator span pattern none

def declarations (g : Grammar) (keyword : String) (inHead : Bool) : Reader (List Node) := do
  let first ← declaration g keyword inHead
  let rest ← many do
    if ← acceptSign "," then return some (← declaration g keyword inHead) else return none
  return first :: rest

def variableStatement (g : Grammar) (keyword : String) : Reader Node := do
  let start ← here
  word keyword
  let names ← declarations g keyword false
  semicolon
  return declared (← spanFrom start) keyword names

def expressionStatement (g : Grammar) : Reader Node := do
  let start ← here
  let e ← expression g
  semicolon
  return node .expressionStatement (← spanFrom start) [.one e]

def ifStatement (g : Grammar) : Reader Node := do
  let start ← here
  word "if"
  let test ← guarded g
  let consequent ← g.statement
  if ← acceptWord "else" then
    let alternate ← g.statement
    return .ifElse (← spanFrom start) test consequent alternate
  else return .ifThen (← spanFrom start) test consequent

def Scope.insideLoop (s : Scope) : Scope := { s with mayBreak := true, mayContinue := true }

def loopBody (g : Grammar) : Reader Node := withReader Scope.insideLoop g.statement

def whileStatement (g : Grammar) : Reader Node := do
  let start ← here
  word "while"
  let test ← guarded g
  let body ← loopBody g
  return node .whileStatement (← spanFrom start) [.one test, .one body]

/-- A semicolon after the test is optional, and nothing else is needed there. -/
def doStatement (g : Grammar) : Reader Node := do
  let start ← here
  word "do"
  let body ← loopBody g
  word "while"
  let test ← guarded g
  let _ ← acceptSign ";"
  return node .doWhileStatement (← spanFrom start) [.one test, .one body]

/-- The rest of a counting loop, behind the first semicolon. -/
def countingLoop (g : Grammar) (start : Nat) (initial : Option Node) : Reader Node := do
  let test ← if ← nextSign ";" then pure none else some <$> expression g
  sign ";"
  let step ← if ← nextSign ")" then pure none else some <$> expression g
  sign ")"
  let body ← loopBody g
  return node .forStatement (← spanFrom start)
    [.optional initial, .optional test, .optional step, .one body]

/-- The rest of a loop over keys or values, from its keyword on. -/
def enumeratingLoop (g : Grammar) (start : Nat) (left : Node) : Reader Node := do
  if ← acceptWord "in" then
    let right ← expression g
    sign ")"
    let body ← loopBody g
    return node .forInStatement (← spanFrom start) [.one left, .one right, .one body]
  else
    word "of"
    let right ← assignment g
    sign ")"
    let body ← loopBody g
    return node .forOfStatement (← spanFrom start)
      [.flag false, .one left, .one right, .one body]

/-- A single name without a value, as a loop over keys or values declares it. -/
def isBareDeclaration : List Node → Bool
  | [.other _ [_]] => true
  | _ => false

def Scope.insideHead (s : Scope) : Scope := { s with inHead := true }

def declaringLoop (g : Grammar) (start : Nat) (keyword : String) : Reader Node := do
  let headStart ← here
  word keyword
  let names ←
    if keyword = "var" then withReader Scope.insideHead (declarations g keyword true)
    else declarations g keyword true
  let head := declared (← spanFrom headStart) keyword names
  if ← atEnumeration then
    unless isBareDeclaration names do fail .misplacedInitializer headStart
    enumeratingLoop g start head
  else
    sign ";"
    countingLoop g start (some head)

/-- `async` before a name on its line would begin a function. -/
def atAsync : Reader Bool := do
  match (← get).ahead with
  | t :: u :: _ =>
      return t.lexeme = .word "async" && u.lexeme = .word "of" && !u.newlineBefore
  | _ => return false

def forStatement (g : Grammar) : Reader Node := do
  let start ← here
  word "for"
  sign "("
  if ← acceptSign ";" then countingLoop g start none
  else
    match ← peek? with
    | some { lexeme := .word "var", .. } => declaringLoop g start "var"
    | some { lexeme := .word "let", .. } => declaringLoop g start "let"
    | some { lexeme := .word "const", .. } => declaringLoop g start "const"
    | _ =>
        if ← atAsync then unexpected
        let e ← withReader Scope.insideHead (expression g)
        if ← atEnumeration then enumeratingLoop g start (← target e)
        else
          sign ";"
          countingLoop g start (some e)

def atCaseEnd : Reader Bool := do
  if ← nextWord "case" then return true
  if ← nextWord "default" then return true
  nextSign "\x7d"

def switchCase (g : Grammar) : Reader Node := do
  let start ← here
  let test ←
    if ← acceptWord "case" then some <$> expression g
    else do
      word "default"
      pure none
  sign ":"
  let stmts ← many do
    if ← atCaseEnd then return none else return some (← g.item)
  return node .switchCase (← spanFrom start) [.optional test, .list stmts]

def isDefaultCase : Node → Bool
  | .other label _ => label.slots[1]? = some (.datum .absent)
  | _ => false

def switchStatement (g : Grammar) : Reader Node := do
  let start ← here
  word "switch"
  let discriminant ← guarded g
  sign "\x7b"
  let cases ← withReader (fun s => { s with mayBreak := true })
    (manyUntil "\x7d" (switchCase g))
  if (cases.filter isDefaultCase).length > 1 then fail .duplicateDefault start
  return node .switchStatement (← spanFrom start) [.one discriminant, .list cases]

def catchClause (g : Grammar) : Reader Node := do
  let start ← here
  word "catch"
  let pattern ←
    if ← acceptSign "(" then
      let (span, name) ← boundName
      sign ")"
      pure (some (bindingIdentifier span name))
    else pure none
  let body ← block g
  return node .catchClause (← spanFrom start) [.optional pattern, .one body]

def tryStatement (g : Grammar) : Reader Node := do
  let start ← here
  word "try"
  let body ← block g
  let handler ← if ← nextWord "catch" then some <$> catchClause g else pure none
  let finalizer ← if ← acceptWord "finally" then some <$> block g else pure none
  if handler.isNone && finalizer.isNone then unexpected
  return node .tryStatement (← spanFrom start)
    [.one body, .optional handler, .optional finalizer]

/-- The operand stands on the same line. -/
def throwStatement (g : Grammar) : Reader Node := do
  let start ← here
  word "throw"
  if ← atLineStart then unexpected
  let e ← expression g
  semicolon
  return node .throwStatement (← spanFrom start) [.one e]

/-- Neither a semicolon nor the end of the statement is next. -/
def hasOperand : Reader Bool := do
  if ← nextSign ";" then return false
  return !(← atStatementEnd)

def returnStatement (g : Grammar) : Reader Node := do
  let start ← here
  word "return"
  unless (← read).inFunction do fail .illegalReturn start
  let value ← if ← hasOperand then some <$> expression g else pure none
  semicolon
  return node .returnStatement (← spanFrom start) [.optional value]

/-- The label of a jump, on the same line, must be around. -/
def jumpLabel : Reader (Option Node) := do
  if ← hasOperand then
    let (span, name) ← name
    unless (← read).labels.contains name do fail .unknownLabel span.lo
    return some (identifier span name)
  else return none

def breakStatement : Reader Node := do
  let start ← here
  word "break"
  unless (← read).mayBreak do fail .illegalBreak start
  let label ← jumpLabel
  semicolon
  return node .breakStatement (← spanFrom start) [.optional label]

def continueStatement : Reader Node := do
  let start ← here
  word "continue"
  unless (← read).mayContinue do fail .illegalContinue start
  let label ← jumpLabel
  semicolon
  return node .continueStatement (← spanFrom start) [.optional label]

def debuggerStatement : Reader Node := do
  let start ← here
  word "debugger"
  semicolon
  return node .debuggerStatement (← spanFrom start) []

def labeledStatement (g : Grammar) : Reader Node := do
  let start ← here
  let (span, name) ← name
  sign ":"
  if (← read).labels.contains name then fail .duplicateLabel start
  let body ← withReader (fun s => { s with mayBreak := true, labels := name :: s.labels })
    g.statement
  return node .labeledStatement (← spanFrom start) [.one (identifier span name), .one body]

def emptyStatement : Reader Node := do
  let start ← here
  sign ";"
  return node .emptyStatement (← spanFrom start) []

/-- A name and a colon come next. -/
def atLabel : Reader Bool := do
  match (← get).ahead with
  | { lexeme := .word name, .. } :: t :: _ => return !isReserved name && t.lexeme = .sign ":"
  | _ => return false

def misplacedDeclaration : Reader Node := do fail .misplacedDeclaration (← here)

/-- A statement that is no declaration. -/
def statement (g : Grammar) : Reader Node := do
  match ← peek? with
  | some { lexeme := .sign "\x7b", .. } => block g
  | some { lexeme := .sign ";", .. } => emptyStatement
  | some { lexeme := .word w, .. } =>
      match w with
      | "var" => variableStatement g w
      | "if" => ifStatement g
      | "while" => whileStatement g
      | "do" => doStatement g
      | "for" => forStatement g
      | "switch" => switchStatement g
      | "try" => tryStatement g
      | "throw" => throwStatement g
      | "return" => returnStatement g
      | "break" => breakStatement
      | "continue" => continueStatement
      | "debugger" => debuggerStatement
      | "let" | "const" | "function" | "class" => misplacedDeclaration
      | _ => if ← atLabel then labeledStatement g else expressionStatement g
  | _ => expressionStatement g

def item (g : Grammar) : Reader Node := do
  match ← peek? with
  | some { lexeme := .word "let", .. } => variableStatement g "let"
  | some { lexeme := .word "const", .. } => variableStatement g "const"
  | some { lexeme := .word "function", .. } => functionDeclaration g
  | some { lexeme := .word "class", .. } => classDeclaration g
  | _ => statement g

end DeadBranch.Source
