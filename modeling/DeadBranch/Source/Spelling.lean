import DeadBranch.Decimal

/-!
# Spelling

How strings and numbers are written in minified text: a string in the quotes it
holds fewer of, a number in the shorter of its decimal, exponential and
hexadecimal forms.
-/
namespace DeadBranch.Source

open DeadBranch (Decimal)

/-- Letters, digits, `_` and `$`; letters of every script count. -/
def isWordChar (c : Char) : Bool := c.isAlphanum || c = '_' || c = '$' || c.toNat ≥ 0x80

/-- A character as it stands in a string with this quote; `next` is what follows it. -/
def escaped (quote c : Char) (next : Option Char) : List Char :=
  if c = quote then ['\\', c]
  else if c = '\\' then ['\\', '\\']
  else if c = '\x00' then
    if next.any Char.isDigit then ['\\', 'x', '0', '0'] else ['\\', '0']
  else if c = '\x08' then ['\\', 'b']
  else if c = '\x0c' then ['\\', 'f']
  else if c = '\n' then ['\\', 'n']
  else if c = '\r' then ['\\', 'r']
  else if c = '\x0b' then ['\\', 'v']
  else if c = '\t' then [c]
  else if c.toNat < 0x20 then
    ['\\', 'x', Nat.digitChar (c.toNat / 16), Nat.digitChar (c.toNat % 16)]
  else if c = '\u2028' then "\\u2028".toList
  else if c = '\u2029' then "\\u2029".toList
  else if c = '\ufeff' then "\\uFEFF".toList
  else [c]

def escapedAll (quote : Char) : List Char → List Char
  | [] => []
  | c :: cs => escaped quote c cs.head? ++ escapedAll quote cs

/-- A string in double quotes, or in single quotes if it holds more of the double ones. -/
def quoted (value : String) : String :=
  let cs := value.toList
  let quote := if cs.count '"' > cs.count '\'' then '\'' else '"'
  String.ofList (quote :: escapedAll quote cs ++ [quote])

/-- A whole number. Three or more zeros at its end become an exponent; any other number
of eight digits or more is hexadecimal. -/
def wholeText (n : Nat) : String :=
  let digits := Nat.toDigits 10 n
  let significant := (digits.reverse.dropWhile (· = '0')).reverse
  let zeros := digits.length - significant.length
  if n = 0 then "0"
  else if 3 ≤ zeros then String.ofList significant ++ "e" ++ toString zeros
  else if 8 ≤ digits.length then "0x" ++ String.ofList (Nat.toDigits 16 n)
  else String.ofList digits

/-- The digits of a fraction below one, without zeros at the end. -/
def fractionDigits (numerator places : Nat) : List Char :=
  let digits := Nat.toDigits 10 numerator
  let padded := List.replicate (places - digits.length) '0' ++ digits
  (padded.reverse.dropWhile (· = '0')).reverse

/-- A decimal without its sign, and without a zero before the point. -/
def magnitudeText (d : Decimal) : String :=
  let scale := Nat.pow 10 d.exponent
  let whole := d.mantissa / scale
  let fraction := if d.exponent = 0 then [] else fractionDigits (d.mantissa % scale) d.exponent
  if fraction.isEmpty then wholeText whole
  else if whole ≠ 0 then toString whole ++ "." ++ String.ofList fraction
  else
    let significant := fraction.dropWhile (· = '0')
    if fraction.length - significant.length > 2 then
      String.ofList significant ++ "e-" ++ toString fraction.length
    else "." ++ String.ofList fraction

def decimalText (d : Decimal) : String := (if d.negative then "-" else "") ++ magnitudeText d

end DeadBranch.Source
