import DeadBranch.Decimal
import DeadBranch.Span

/-!
# Tokens

Module text is a sequence of words, numbers, strings and signs. Which words are
reserved is decided where a name is wanted, since any word may follow a dot.
A token knows whether a line break stands before it: that is what automatic
semicolons hang on.
-/
namespace DeadBranch.Source

/-- What can be wrong with a text. -/
inductive Fault where
  | strayCharacter
  | unterminatedString
  | unterminatedComment
  | markupComment
  | malformedNumber
  | unexpectedToken
  | unexpectedEnd
  | reservedName
  | notAssignable
  | mixedCoalescing
  | misplacedDeclaration
  | missingInitializer
  | misplacedInitializer
  | illegalBreak
  | illegalContinue
  | unknownLabel
  | duplicateLabel
  | illegalReturn
  | duplicateDefault
  | duplicateConstructor
  | illegalMember
  | illegalParameters
  | illegalSuper
  | illegalArguments
  | lateStrictMode
deriving Repr, DecidableEq

/-- Why a text is not a module: a fault and the byte, counted from one, where it shows. -/
structure SyntaxError where
  fault : Fault
  position : Nat
deriving Repr, DecidableEq

inductive Lexeme where
  | word (name : String)
  /-- A number as written, and its value. -/
  | number (raw : String) (value : Decimal)
  /-- A string as written, quotes included, and its value. -/
  | string (raw value : String)
  | sign (text : String)
deriving Repr, DecidableEq

structure Token where
  lexeme : Lexeme
  span : Span
  newlineBefore : Bool
deriving Repr, DecidableEq

/-- The signs of the language, together with the beginnings of longer ones. -/
def signs : List String :=
  ["\x7b", "\x7d", "(", ")", "[", "]", ";", ",", ".", "...", "<", ">", "<=", ">=", "==", "!=",
    "===", "!==", "+", "-", "*", "/", "%", "++", "--", "!", "&&", "||", "??", "?", ":", "=", "+=",
    "-=", "=>"]

def isSign (cs : List Char) : Bool := signs.contains (String.ofList cs)

/-- Some sign begins like this. -/
def isSignStart (cs : List Char) : Bool := signs.any fun s => cs.isPrefixOf s.toList

def isLineBreak (c : Char) : Bool :=
  c = '\n' || c = '\r' || c = '\u2028' || c = '\u2029'

/-- Space between tokens that is no line break. -/
def isBlank (c : Char) : Bool :=
  c = ' ' || c = '\t' || c = '\x0b' || c = '\x0c' || c = '\u00a0' || c = '\u1680' ||
    ('\u2000' ≤ c && c ≤ '\u200a') || c = '\u202f' || c = '\u205f' || c = '\u3000' || c = '\ufeff'

def isNameStart (c : Char) : Bool := c.isAlpha || c = '_' || c = '$'

def isNamePart (c : Char) : Bool := c.isAlphanum || c = '_' || c = '$'

end DeadBranch.Source
