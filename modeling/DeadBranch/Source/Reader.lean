import DeadBranch.Source.Token
import DeadBranch.Tree.Node

/-!
# Reading tokens

The reader walks a list of tokens and knows where it is: what may be returned
from, broken out of or continued, which labels are around, whether `super` has
members and `arguments` a meaning, and whether `in` is an operator. Sub-grammars
are values of `Grammar`, so that each piece of syntax is an ordinary function of
the grammar one nesting level further down; the knot is tied in the module on
programs.
-/
namespace DeadBranch.Source

/-- What the surroundings of a piece of text allow. -/
structure Scope where
  inFunction : Bool := false
  mayBreak : Bool := false
  mayContinue : Bool := false
  labels : List String := []
  superMember : Bool := false
  /-- The value of a field or a static block, where `arguments` means nothing. -/
  inInitializer : Bool := false
  /-- The first expression of a `for` head, where `in` is no operator. -/
  inHead : Bool := false

/-- Between brackets `in` is an operator again. -/
def Scope.insideBrackets (s : Scope) : Scope := { s with inHead := false }

/-- The tokens ahead, and where the last one taken ended. -/
structure Cursor where
  ahead : List Token
  last : Nat := 1

abbrev Reader := ReaderT Scope (StateT Cursor (Except SyntaxError))

/-- The recursive parts of the grammar. -/
structure Grammar where
  /-- An expression without top-level commas. -/
  assignment : Reader Node
  expression : Reader Node
  unary : Reader Node
  /-- An expression that may be called, constructed from or inherited from. -/
  leftHandSide : Reader Node
  /-- An expression that opens with `new`. -/
  construction : Reader Node
  /-- A statement that is no declaration. -/
  statement : Reader Node
  /-- A statement or declaration, as it stands in a list. -/
  item : Reader Node

namespace Reader

variable {α : Type}

def peek? : Reader (Option Token) := do return (← get).ahead.head?

def second? : Reader (Option Token) := do return ((← get).ahead.drop 1).head?

/-- Where the next token starts, or where the text has ended. -/
def here : Reader Nat := do
  let cursor ← get
  return (cursor.ahead.head?.map (·.span.lo)).getD cursor.last

def fail (fault : Fault) (position : Nat) : Reader α := throw ⟨fault, position⟩

def unexpected : Reader α := do
  match ← peek? with
  | some t => fail .unexpectedToken t.span.lo
  | none => fail .unexpectedEnd (← get).last

def advance : Reader Token := do
  match (← get).ahead with
  | t :: ahead =>
      set { ahead, last := t.span.hi : Cursor }
      return t
  | [] => unexpected

/-- From a start to the end of the last token taken. -/
def spanFrom (start : Nat) : Reader Span := do return ⟨start, (← get).last⟩

def isNext (lexeme : Lexeme) : Reader Bool := do return (← peek?).any (·.lexeme = lexeme)

def accept (lexeme : Lexeme) : Reader Bool := do
  if ← isNext lexeme then
    let _ ← advance
    return true
  else return false

def expect (lexeme : Lexeme) : Reader Unit := do
  unless ← accept lexeme do unexpected

/-- Read what stands between brackets. -/
def enclosed (inner : Reader α) : Reader α := withReader Scope.insideBrackets inner

def nextSign (text : String) : Reader Bool := isNext (.sign text)
def nextWord (name : String) : Reader Bool := isNext (.word name)
def acceptSign (text : String) : Reader Bool := accept (.sign text)
def acceptWord (name : String) : Reader Bool := accept (.word name)
def sign (text : String) : Reader Unit := expect (.sign text)
def word (name : String) : Reader Unit := expect (.word name)

/-- A line break stands before the next token, or there is none. -/
def atLineStart : Reader Bool := do return (← peek?).all (·.newlineBefore)

/-- A semicolon may be left out here: at a line break, before a closing brace, at the end. -/
def atStatementEnd : Reader Bool := do
  if ← atLineStart then return true
  nextSign "\x7d"

/-- The end of a statement: a semicolon, written or not. -/
def semicolon : Reader Unit := do
  unless ← acceptSign ";" do
    unless ← atStatementEnd do unexpected

def repeatUpTo (step : Reader (Option α)) : Nat → Reader (List α)
  | 0 => return []
  | bound + 1 => do
      match ← step with
      | some a => return a :: (← repeatUpTo step bound)
      | none => return []

/-- Repeat a step that takes a token whenever it yields something. -/
def many (step : Reader (Option α)) : Reader (List α) := do
  repeatUpTo step ((← get).ahead.length + 1)

def extendUpTo (step : α → Reader (Option α)) : Nat → α → Reader α
  | 0, a => return a
  | bound + 1, a => do
      match ← step a with
      | some b => extendUpTo step bound b
      | none => return a

/-- Extend a value by a step that takes a token whenever it yields something. -/
def extend (step : α → Reader (Option α)) (a : α) : Reader α := do
  extendUpTo step ((← get).ahead.length + 1) a

/-- Items up to a closing sign, which is taken. -/
def manyUntil (closing : String) (item : Reader α) : Reader (List α) :=
  many do
    if ← acceptSign closing then return none
    else return some (← item)

/-- Items with commas between them and possibly after the last, up to a closing sign. -/
def commaUntil (closing : String) (item : Reader α) : Reader (List α) :=
  manyUntil closing do
    let a ← item
    unless ← nextSign closing do sign ","
    return a

end Reader

/-- Words that are never names. -/
def keywords : List String :=
  ["break", "case", "catch", "class", "const", "continue", "debugger", "default", "delete", "do",
    "else", "enum", "export", "extends", "false", "finally", "for", "function", "if", "import",
    "in", "instanceof", "let", "new", "null", "return", "super", "switch", "this", "throw", "true",
    "try", "typeof", "var", "void", "while", "with", "yield", "await"]

/-- Words kept free for later use: no names in a module, but shorthand properties. -/
def futureWords : List String :=
  ["implements", "interface", "package", "private", "protected", "public", "static"]

/-- Names that may be read but neither bound nor assigned to. -/
def readOnlyNames : List String := ["eval", "arguments"]

def isKeyword (word : String) : Bool := keywords.contains word

def isReserved (word : String) : Bool := isKeyword word || futureWords.contains word

namespace Reader

/-- A name that refers to something. -/
def name : Reader (Span × String) := do
  match ← peek? with
  | some { lexeme := .word name, span, .. } =>
      if isReserved name then fail .reservedName span.lo
      if name = "arguments" && (← read).inInitializer then fail .illegalArguments span.lo
      let _ ← advance
      return (span, name)
  | _ => unexpected

def boundName : Reader (Span × String) := do
  let (span, name) ← name
  if readOnlyNames.contains name then fail .reservedName span.lo
  return (span, name)

end Reader
end DeadBranch.Source
