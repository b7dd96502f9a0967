import DeadBranch.Source.Scanner
import DeadBranch.Source.Statement

/-!
# Reading programs

A text is read as a module: scanned as a whole, then read by a grammar unrolled
as deep as there are tokens. Each nested piece of syntax stands behind a token
of its own, so no text reaches the bottom.
-/
namespace DeadBranch.Source

/-- The grammar with so many levels of nesting. -/
def grammar : Nat → Grammar
  | 0 => ⟨Reader.unexpected, Reader.unexpected, Reader.unexpected, Reader.unexpected,
      Reader.unexpected, Reader.unexpected, Reader.unexpected⟩
  | depth + 1 =>
      let g := grammar depth
      { assignment := assignment g
        expression := expression g
        unary := unary g
        leftHandSide := leftHandSide g
        construction := construction g
        statement := statement g
        item := item g }

/-- The items of a module up to the end of the text. -/
def items (g : Grammar) : Reader (List Node) :=
  Reader.many do
    match ← Reader.peek? with
    | some _ => return some (← g.item)
    | none => return none

/-- The span from the first token to the last; at the very start if there is none. -/
def tokensSpan (tokens : List Token) : Span :=
  match tokens.head?, tokens.getLast? with
  | some first, some last => first.span.upTo last.span
  | _, _ => ⟨1, 1⟩

/-- Read a text as a module. -/
def readModule (text : String) : Except SyntaxError Node := do
  let tokens ← scan text
  let body ← ((items (grammar (tokens.length + 1))).run {}).run' { ahead := tokens }
  return node .moduleProgram (tokensSpan tokens) [.list body, .absent]

end DeadBranch.Source
