import DeadBranch.Source.Token

/-!
# Scanning

The scanner takes one character at a time. Between characters it knows where it
stands, whether a line was broken since the last token, and which token or
comment is open. A token is closed by the first character that cannot belong to
it, so words, numbers and signs are as long as they can be. Characters of an
open token are kept in reverse.
-/
namespace DeadBranch.Source

/-- What is open between two characters; `start` is where it began. -/
inductive Mode where
  | blank
  | word (start : Nat) (chars : List Char)
  | number (start : Nat) (chars : List Char)
  | string (start : Nat) (quote : Char) (chars : List Char)
  | sign (start : Nat) (chars : List Char)
  | lineComment
  /-- `star` says that the last character may begin the end of the comment. -/
  | blockComment (start : Nat) (star : Bool)

structure Scanner where
  position : Nat := 1
  newline : Bool := false
  mode : Mode := .blank
  /-- Closed tokens, the latest first. -/
  tokens : List Token := []

namespace Scanner

abbrev Result := Except SyntaxError

def emit (s : Scanner) (start stop : Nat) (lexeme : Lexeme) : Scanner :=
  { s with
    newline := false
    mode := .blank
    tokens := ⟨lexeme, ⟨start, stop⟩, s.newline⟩ :: s.tokens }

def digitsValue (digits : List Char) : Nat :=
  digits.foldl (fun n c => 10 * n + (c.toNat - '0'.toNat)) 0

/-- Digits, possibly with a point among or after them. A number of several digits
does not begin with zero. -/
def number? (chars : List Char) : Option Lexeme :=
  let whole := chars.takeWhile (· ≠ '.')
  let fraction := (chars.dropWhile (· ≠ '.')).drop 1
  if whole.length > 1 && whole.head? = some '0' then none
  else
    let value : Decimal :=
      { mantissa := digitsValue (whole ++ fraction), exponent := fraction.length }
    some (.number (String.ofList chars) value)

/-- Close the open token or comment. -/
def close (s : Scanner) : Result Scanner :=
  match s.mode with
  | .blank => .ok s
  | .lineComment => .ok { s with mode := .blank }
  | .word start chars => .ok (s.emit start s.position (.word (String.ofList chars.reverse)))
  | .number start chars =>
      match number? chars.reverse with
      | some lexeme => .ok (s.emit start s.position lexeme)
      | none => .error ⟨.malformedNumber, start⟩
  | .sign start chars =>
      if isSign chars.reverse then
        .ok (s.emit start s.position (.sign (String.ofList chars.reverse)))
      else .error ⟨.strayCharacter, start⟩
  | .string start _ _ => .error ⟨.unterminatedString, start⟩
  | .blockComment start _ => .error ⟨.unterminatedComment, start⟩

/-- Take a character while nothing is open. -/
def start (s : Scanner) (c : Char) : Result Scanner :=
  if isLineBreak c then .ok { s with newline := true }
  else if isBlank c then .ok s
  else if isNameStart c then .ok { s with mode := .word s.position [c] }
  else if c.isDigit then .ok { s with mode := .number s.position [c] }
  else if c = '"' || c = '\'' then .ok { s with mode := .string s.position c [] }
  else if isSignStart [c] then .ok { s with mode := .sign s.position [c] }
  else .error ⟨.strayCharacter, s.position⟩

/-- Take a character, whatever is open; the position is not moved yet. -/
def take (s : Scanner) (c : Char) : Result Scanner :=
  match s.mode with
  | .blank => s.start c
  | .word start chars =>
      if isNamePart c then .ok { s with mode := .word start (c :: chars) }
      else do (← s.close).start c
  | .number start chars =>
      if c.isDigit || (c = '.' && !chars.contains '.') then
        .ok { s with mode := .number start (c :: chars) }
      else if isNameStart c then .error ⟨.malformedNumber, start⟩
      else do (← s.close).start c
  | .string start quote chars =>
      if c = quote then
        let value := chars.reverse
        let raw := quote :: value ++ [quote]
        .ok (s.emit start (s.position + c.utf8Size)
          (.string (String.ofList raw) (String.ofList value)))
      else if c = '\\' || c = '\n' || c = '\r' then .error ⟨.unterminatedString, start⟩
      else .ok { s with mode := .string start quote (c :: chars) }
  | .sign start chars =>
      if chars = ['/'] && c = '/' then .ok { s with mode := .lineComment }
      else if chars = ['/'] && c = '*' then .ok { s with mode := .blockComment start false }
      else if isSignStart (c :: chars).reverse then
        .ok { s with mode := .sign start (c :: chars) }
      else do (← s.close).start c
  | .lineComment =>
      if isLineBreak c then .ok { s with mode := .blank, newline := true } else .ok s
  | .blockComment start star =>
      if star && c = '/' then .ok { s with mode := .blank }
      else .ok { s with
        mode := .blockComment start (c = '*')
        newline := s.newline || isLineBreak c }

def step (s : Scanner) (c : Char) : Result Scanner := do
  let s ← s.take c
  .ok { s with position := s.position + c.utf8Size }

end Scanner

/-- The second token starts where the first one ends. -/
def Token.touches (t u : Token) : Bool := t.span.hi = u.span.lo

/-- Where the tokens `<`, `!` and `--` stand together: in a script they would open a
comment, and a module may not contain them. -/
def markupComment? : List Token → Option Nat
  | t :: u :: v :: rest =>
      if t.lexeme = .sign "<" && u.lexeme = .sign "!" && v.lexeme = .sign "--" &&
          t.touches u && u.touches v then
        some t.span.lo
      else markupComment? (u :: v :: rest)
  | _ => none

/-- The tokens of a text. -/
def scan (text : String) : Except SyntaxError (List Token) := do
  let s ← text.toList.foldlM Scanner.step {}
  let s ← s.close
  let tokens := s.tokens.reverse
  match markupComment? tokens with
  | some position => .error ⟨.markupComment, position⟩
  | none => .ok tokens

end DeadBranch.Source
