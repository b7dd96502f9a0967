import DeadBranch.Source.Spelling
import DeadBranch.Tree.Node

/-!
# Minified text

A tree is written as it stands: parentheses where there are parenthesis nodes,
braces where there are blocks, and no others. Every statement that is not made
of other statements ends in a semicolon, except after the test of a `do` loop.

Each node's text is put together from those of its children, with a space only
where two words, two equal signs or the beginnings of an old comment would meet.
What a child has to tell for that is kept beside its text. Kinds that are not
read from text, types and markup among them, have no written form here.
-/
namespace DeadBranch.Source

open DeadBranch (Node Kind Part Datum)

/-- How an operand begins, as far as an operator before it has to know. -/
inductive Opening where
  | plain
  /-- A plus sign or an increment. -/
  | plus
  /-- A minus sign, a decrement or a negative number. -/
  | minus
  /-- A negation of a decrement. -/
  | notDecrement
deriving Repr, DecidableEq

/-- A node with the text it is written as. -/
structure Written where
  node : Node
  text : String
  /-- A word before it is followed by a space. -/
  opensWithWord : Bool
  /-- A word after it stands behind a space. -/
  closesWithWord : Bool := true
  opening : Opening := .plain

def Written.hasKind (w : Written) (kind : Kind) : Bool :=
  match w.node with
  | .other label _ => label.kind = kind
  | _ => false

def startsWithWord (text : String) : Bool := text.front?.any isWordChar

/-- A node of which only the text matters. -/
def Written.ofText (node : Node) (text : String) : Written :=
  { node, text, opensWithWord := startsWithWord text }

/-! Pieces of text. -/

def space (wanted : Bool) : String := if wanted then " " else ""

def braced (text : String) : String := "\x7b" ++ text ++ "\x7d"

def parenthesized (text : String) : String := "(" ++ text ++ ")"

/-- A word and what it stands before. -/
def wordBefore (word : String) (w : Written) : String :=
  word ++ space w.opensWithWord ++ w.text

def joined (texts : List String) : String := String.join texts

def withCommas (texts : List String) : String := ",".intercalate texts

def texts (entries : List (Option Written)) : List String :=
  (present entries).map (·.text)

/-- The entries of an array. A hole is an empty entry, which at the end takes a comma more. -/
def arrayText (entries : List (Option Written)) : String :=
  withCommas (entries.map fun entry => (entry.map (·.text)).getD "") ++
    (if entries.getLast?.any Option.isNone then "," else "")

/-- A field that may be left out. -/
def optionalPart (write : Written → String) : Part Written → String
  | .one w => write w
  | _ => ""

def textOf (w : Written) : String := w.text

/-- A declaration in the head of a loop, without its semicolon. -/
def headText (w : Written) : String :=
  if w.hasKind .variableDeclaration then w.text.dropEnd 1 |>.toString else w.text

/-- A construction whose empty argument list must be written to hold its suffix. -/
def needsArguments (w : Written) : Bool :=
  match w.node with
  | .other label _ =>
      label.kind = .newExpression &&
        (match label.slots with
          | [_, _, _, .many places, _] => places.isEmpty
          | _ => false)
  | _ => false

/-- What a call or member access is applied to. -/
def receiver (w : Written) : String :=
  if needsArguments w then w.text ++ "()" else w.text

/-- The receiver of a named member; a whole number needs a point of its own first. -/
def namedReceiver (w : Written) : String :=
  if w.hasKind .numericLiteral && w.text.toList.all (fun c => c.isDigit || c = '-') then
    w.text ++ "."
  else receiver w

/-- A member access, dot included. -/
def memberText (w key : Written) : String :=
  if key.hasKind .computedName then receiver w ++ key.text
  else namedReceiver w ++ "." ++ key.text

/-- The head of a loop over keys or values. -/
def enumerated (left : Written) (word : String) (right : Written) : String :=
  "for" ++ parenthesized (headText left ++ space left.closesWithWord ++ wordBefore word right)

def statementText (kind : Kind) (parts : List (Part Written)) : Option String :=
  match kind, parts with
  | .moduleProgram, [_, .many body, .datum .absent] => joined (texts body)
  | .scriptProgram, [_, .many body, .datum .absent] => joined (texts body)
  | .expressionStatement, [_, .one e] => e.text ++ ";"
  | .emptyStatement, [_] => ";"
  | .debuggerStatement, [_] => "debugger;"
  | .withStatement, [_, .one e, .one body] => "with" ++ parenthesized e.text ++ body.text
  | .returnStatement, [_, .datum .absent] => "return;"
  | .returnStatement, [_, .one e] => wordBefore "return" e ++ ";"
  | .labeledStatement, [_, .one label, .one body] => label.text ++ ":" ++ body.text
  | .breakStatement, [_, label] => "break" ++ optionalPart (" " ++ textOf ·) label ++ ";"
  | .continueStatement, [_, label] => "continue" ++ optionalPart (" " ++ textOf ·) label ++ ";"
  | .switchStatement, [_, .one e, .many cases] =>
      "switch" ++ parenthesized e.text ++ braced (joined (texts cases))
  | .switchCase, [_, .one test, .many stmts] =>
      wordBefore "case" test ++ ":" ++ joined (texts stmts)
  | .switchCase, [_, .datum .absent, .many stmts] => "default:" ++ joined (texts stmts)
  | .throwStatement, [_, .one e] => wordBefore "throw" e ++ ";"
  | .tryStatement, [_, .one body, handler, finalizer] =>
      "try" ++ body.text ++ optionalPart textOf handler ++
        optionalPart ("finally" ++ textOf ·) finalizer
  | .catchClause, [_, .one pattern, .one body] =>
      "catch" ++ parenthesized pattern.text ++ body.text
  | .catchClause, [_, .datum .absent, .one body] => "catch" ++ body.text
  | .whileStatement, [_, .one test, .one body] =>
      "while" ++ parenthesized test.text ++ body.text
  | .doWhileStatement, [_, .one test, .one body] =>
      wordBefore "do" body ++ "while" ++ parenthesized test.text
  | .forStatement, [_, first, test, step, .one body] =>
      "for" ++ parenthesized (optionalPart headText first ++ ";" ++ optionalPart textOf test ++
        ";" ++ optionalPart textOf step) ++ body.text
  | .forInStatement, [_, .one left, .one right, .one body] =>
      enumerated left "in" right ++ body.text
  | .forOfStatement, [_, .datum (.flag false), .one left, .one right, .one body] =>
      enumerated left "of" right ++ body.text
  | _, _ => none

/-- Parameters and body of a function that is neither asynchronous nor a generator. -/
def callableText? : List (Part Written) → Option String
  | [.many params, _, _, _, .one body, .datum (.flag false), .datum (.flag false), _, _] =>
      parenthesized (withCommas (texts params)) ++ body.text
  | _ => none

/-- Heritage and body of a class. -/
def classText? : List (Part Written) → Option String
  | [_, _, _, .many members, superClass, _, _, _, _] =>
      optionalPart (wordBefore " extends") superClass ++ braced (joined (texts members))
  | _ => none

/-- The key of a method with the word that makes it an accessor. -/
def methodHead (sort : String) (key : Written) : Option String :=
  match sort with
  | "method" => key.text
  | "getter" => wordBefore "get" key
  | "setter" => wordBefore "set" key
  | _ => none

/-- `static` before a method; a field always has a space there. -/
def staticBefore (head : String) : String := "static" ++ space (startsWithWord head) ++ head

def declarationText (kind : Kind) (parts : List (Part Written)) : Option String :=
  match kind, parts with
  | .functionDeclaration, .one name :: _ :: rest =>
      (callableText? rest).map ("function " ++ name.text ++ ·)
  | .functionExpression, name :: rest =>
      (callableText? rest).map ("function" ++ optionalPart (" " ++ textOf ·) name ++ ·)
  | .function, rest => callableText? rest
  | .parameter, [_, _, .one pattern] => pattern.text
  | .assignmentPattern, [_, .one left, .one right] => left.text ++ "=" ++ right.text
  | .restElement, [_, _, .one pattern, _] => "..." ++ pattern.text
  | .variableDeclaration, [_, _, .datum (.text keyword), _, .many declarators] =>
      keyword ++ " " ++ withCommas (texts declarators) ++ ";"
  | .variableDeclarator, [_, .one pattern, value, _] =>
      pattern.text ++ optionalPart ("=" ++ textOf ·) value
  | .classDeclaration, .one name :: _ :: rest =>
      (classText? rest).map ("class " ++ name.text ++ ·)
  | .classExpression, name :: rest =>
      (classText? rest).map ("class" ++ optionalPart (" " ++ textOf ·) name ++ ·)
  | .classProperty, _ :: .one key :: value :: _ :: .datum (.flag isStatic) :: _ =>
      (if isStatic then "static " else "") ++ key.text ++
        optionalPart ("=" ++ textOf ·) value ++ ";"
  | .classMethod,
      [_, .one key, .one function, .datum (.text sort), .datum (.flag isStatic), _, _, _, _] =>
      (methodHead sort key).map fun head =>
        (if isStatic then staticBefore head else head) ++ function.text
  | .constructorMethod, [_, _, _, .many params, .one body, _, _] =>
      "constructor" ++ parenthesized (withCommas (texts params)) ++ body.text
  | .keyValueProperty, [.one key, .one value] => key.text ++ ":" ++ value.text
  | .methodProperty, .one key :: rest => (callableText? rest).map (key.text ++ ·)
  | .getterProperty, [_, .one key, _, .one body] => wordBefore "get" key ++ "()" ++ body.text
  | .setterProperty, [_, .one key, .datum .absent, .one pattern, .one body] =>
      wordBefore "set" key ++ parenthesized pattern.text ++ body.text
  | .spreadElement, [_, .one e] => "..." ++ e.text
  | .computedName, [_, .one e] => "[" ++ e.text ++ "]"
  | _, _ => none

/-- A single plain name needs no parentheses as the parameters of an arrow. -/
def arrowParameters (params : List (Option Written)) : String :=
  match present params with
  | [w] => if w.hasKind .bindingIdentifier then w.text else parenthesized w.text
  | _ => parenthesized (withCommas (texts params))

/-- Signs that would read as one longer sign, or as the beginning of a comment. -/
def collides : String → Opening → Bool
  | "+", .plus | "-", .minus | "<", .notDecrement => true
  | _, _ => false

def isWordOperator (operator : String) : Bool :=
  ["typeof", "void", "delete", "in", "instanceof"].contains operator

/-- A decrement that stands behind its operand. -/
def endsInDecrement (w : Written) : Bool :=
  match w.node with
  | .other label _ =>
      label.kind = .updateExpression &&
        (match label.slots with
          | [_, .datum (.text "--"), .datum (.flag false), _] => true
          | _ => false)
  | _ => false

/-- A prefix operator looks only at what its operand is, not at what that begins with. -/
def unaryText (operator : String) (e : Written) : String :=
  if isWordOperator operator then wordBefore operator e
  else operator ++ space (!e.hasKind .binaryExpression && collides operator e.opening) ++ e.text

def binaryText (operator : String) (left right : Written) : String :=
  if isWordOperator operator then
    left.text ++ space left.closesWithWord ++ wordBefore operator right
  else
    left.text ++ space (endsInDecrement left && (operator = ">" || operator = ">=")) ++
      operator ++ space (collides operator right.opening) ++ right.text

def expressionText (kind : Kind) (parts : List (Part Written)) : Option String :=
  match kind, parts with
  | .thisExpression, [_] => "this"
  | .superReference, [_] => "super"
  | .nullLiteral, [_] => "null"
  | .stringLiteral, [_, .datum (.text value), _] => quoted value
  | .numericLiteral, [_, .datum (.decimal d), _] => decimalText d
  | .identifier, _ :: _ :: .datum (.text name) :: _ => name
  | .bindingIdentifier, _ :: _ :: .datum (.text name) :: _ => name
  | .propertyName, [_, .datum (.text name)] => name
  | .arrayExpression, [_, .many entries] => "[" ++ arrayText entries ++ "]"
  | .objectExpression, [_, .many properties] => braced (withCommas (texts properties))
  | .argument, [.datum .absent, .one e] => e.text
  | .argument, [.datum (.span _), .one e] => "..." ++ e.text
  | .unaryExpression, [_, .datum (.text operator), .one e] => unaryText operator e
  | .updateExpression, [_, .datum (.text operator), .datum (.flag before), .one e] =>
      if before then operator ++ e.text else e.text ++ operator
  | .binaryExpression, [_, .datum (.text operator), .one left, .one right] =>
      binaryText operator left right
  | .assignmentExpression, [_, .datum (.text operator), .one left, .one right] =>
      left.text ++ operator ++ right.text
  | .memberExpression, [_, .one e, .one key] => memberText e key
  | .superPropExpression, [_, .one e, .one key] => memberText e key
  | .conditionalExpression, [_, .one test, .one consequent, .one alternate] =>
      test.text ++ "?" ++ consequent.text ++ ":" ++ alternate.text
  | .callExpression, [_, _, .one callee, .many args, _] =>
      receiver callee ++ parenthesized (withCommas (texts args))
  | .newExpression, [_, _, .one callee, .many (a :: rest), _] =>
      wordBefore "new" callee ++ parenthesized (withCommas (texts (a :: rest)))
  | .newExpression, [_, _, .one callee, _, _] => wordBefore "new" callee
  | .sequenceExpression, [_, .many es] => withCommas (texts es)
  | .arrowFunctionExpression,
      [_, _, .many params, .one body, .datum (.flag false), .datum (.flag false), _, _] =>
      arrowParameters params ++ "=>" ++ body.text
  | _, _ => none

/-- The text of a node of this kind, its children already written. -/
def kindText (kind : Kind) (parts : List (Part Written)) : Option String :=
  statementText kind parts <|> declarationText kind parts <|> expressionText kind parts

/-- The child that a node's text begins with, where it begins with a child. -/
def firstWritten? (kind : Kind) (parts : List (Part Written)) : Option Written :=
  match kind, parts with
  | .expressionStatement, [_, .one e] => some e
  | .sequenceExpression, [_, .many es] => (present es).head?
  | .binaryExpression, [_, _, .one left, _] => some left
  | .assignmentExpression, [_, _, .one left, _] => some left
  | .assignmentPattern, [_, .one left, _] => some left
  | .conditionalExpression, [_, .one test, _, _] => some test
  | .memberExpression, [_, .one e, _] => some e
  | .callExpression, [_, _, .one callee, _, _] => some callee
  | .updateExpression, [_, _, .datum (.flag false), .one e] => some e
  | _, _ => none

/-- An arrow with a single parameter is taken to open with that parameter, whether or not
parentheses stand around it; every number is taken for a word. -/
def opensWithWord (kind : Kind) (parts : List (Part Written)) (text : String) : Bool :=
  match kind, parts with
  | .arrowFunctionExpression, _ :: _ :: .many params :: _ =>
      match present params with
      | [w] => w.opensWithWord
      | _ => false
  | .numericLiteral, _ => true
  | _, _ =>
      match firstWritten? kind parts with
      | some w => w.opensWithWord
      | none => startsWithWord text

/-- Brackets and quotes close without a word where an expression is nothing else. -/
def closesWithWord (kind : Kind) (parts : List (Part Written)) : Bool :=
  match kind, parts with
  | .arrayExpression, _ | .objectExpression, _ | .stringLiteral, _ => false
  | .memberExpression, [_, _, .one key] => !key.hasKind .computedName
  | .variableDeclaration, [_, _, _, _, .many declarators] =>
      (present declarators).getLast?.all (·.closesWithWord)
  | .variableDeclarator, [_, _, .one value, _] => value.closesWithWord
  | _, _ => true

def openingOf (kind : Kind) (parts : List (Part Written)) : Opening :=
  match kind, parts with
  | .unaryExpression, [_, .datum (.text "+"), _] => .plus
  | .unaryExpression, [_, .datum (.text "-"), _] => .minus
  | .unaryExpression, [_, .datum (.text "!"), .one e] =>
      if e.opening = .minus && e.hasKind .updateExpression || endsInDecrement e then .notDecrement
      else .plain
  | .updateExpression, [_, .datum (.text "++"), .datum (.flag true), _] => .plus
  | .updateExpression, [_, .datum (.text "--"), .datum (.flag true), _] => .minus
  | .binaryExpression, [_, _, .one left, _] => left.opening
  | .numericLiteral, [_, .datum (.decimal d), _] => if d.negative then .minus else .plain
  | _, _ => .plain

mutual

/-- A tree with its text, if every node of it has a written form. -/
def written? : Node → Option Written
  | .ifThen span test consequent => do
      let t ← written? test
      let c ← written? consequent
      return .ofText (.ifThen span test consequent) ("if" ++ parenthesized t.text ++ c.text)
  | .ifElse span test consequent alternate => do
      let t ← written? test
      let c ← written? consequent
      let a ← written? alternate
      return .ofText (.ifElse span test consequent alternate)
        ("if" ++ parenthesized t.text ++ c.text ++ wordBefore "else" a)
  | .block span scope stmts => do
      let ws ← writtenAll? stmts
      return .ofText (.block span scope stmts) (braced (joined (ws.map (·.text))))
  | .staticBlock span bodySpan scope stmts => do
      let ws ← writtenAll? stmts
      return .ofText (.staticBlock span bodySpan scope stmts)
        ("static" ++ braced (joined (ws.map (·.text))))
  | .paren span e => do
      let w ← written? e
      return { Written.ofText (.paren span e) (parenthesized w.text) with closesWithWord := false }
  | .bool span value =>
      return .ofText (.bool span value) (if value then "true" else "false")
  | .other label children => do
      let parts := arrange label.slots (← writtenAll? children)
      let text ← kindText label.kind parts
      return {
        node := .other label children
        text
        opensWithWord := opensWithWord label.kind parts text
        closesWithWord := closesWithWord label.kind parts
        opening := openingOf label.kind parts }

def writtenAll? : List Node → Option (List Written)
  | [] => some []
  | n :: ns => do return (← written? n) :: (← writtenAll? ns)

end

/-- The minified text of a tree, if every node of it has a written form. -/
def minified? (n : Node) : Option String := (written? n).map (·.text)

end DeadBranch.Source
