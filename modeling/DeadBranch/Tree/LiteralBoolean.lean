import DeadBranch.Tree.Node

/-!
# Literal booleans

A test decides a branch outright when it is a boolean literal, possibly inside
parentheses. `literalBoolean` reads its value, `literal?` also tells where the
literal stands, and `withLiteral` writes it. Reader and writer walk the same
parentheses, and neither looks into any other kind of expression: a negated or
a sequenced literal is not a literal boolean.
-/
namespace DeadBranch.Node

/-- The value of a literal boolean, parentheses stripped. -/
def literalBoolean : Node → Option Bool
  | .paren _ e => e.literalBoolean
  | .bool _ v => some v
  | _ => none

/-- The literal that `literalBoolean` reads: its span and its value. -/
def literal? : Node → Option (Span × Bool)
  | .paren _ e => e.literal?
  | .bool s v => some (s, v)
  | _ => none

/-- The expression with its literal set to `v`; anything else stays as it is. -/
def withLiteral (v : Bool) : Node → Node
  | .paren s e => .paren s (e.withLiteral v)
  | .bool s _ => .bool s v
  | e => e

/-- Induction through parentheses, down to what stands in them. -/
@[elab_as_elim]
theorem parenInduction {P : Node → Prop} (paren : ∀ s e, P e → P (.paren s e))
    (inner : ∀ e, (∀ s e', e ≠ .paren s e') → P e) (e : Node) : P e := by
  cases e with
  | paren s e => exact paren s e (parenInduction paren inner e)
  | _ => exact inner _ nofun

theorem literalBoolean_eq_map_literal? (e : Node) :
    e.literalBoolean = e.literal?.map Prod.snd := by
  induction e using parenInduction with
  | paren s e ih => exact ih
  | inner e hne =>
      cases e with
      | paren s e => exact absurd rfl (hne s e)
      | _ => rfl

/-- Writing does not change where the literal stands. -/
theorem literal?_withLiteral (v : Bool) (e : Node) :
    (e.withLiteral v).literal? = e.literal?.map fun l => (l.1, v) := by
  induction e using parenInduction with
  | paren s e ih => exact ih
  | inner e hne =>
      cases e with
      | paren s e => exact absurd rfl (hne s e)
      | _ => rfl

@[simp] theorem literalBoolean_withLiteral (v : Bool) (e : Node) :
    (e.withLiteral v).literalBoolean = e.literalBoolean.map fun _ => v := by
  rw [literalBoolean_eq_map_literal?, literalBoolean_eq_map_literal?, literal?_withLiteral,
    Option.map_map, Option.map_map]
  rfl

def isLiteralBoolean (e : Node) : Bool := e.literalBoolean.isSome

def isIf : Node → Bool
  | .ifThen .. | .ifElse .. => true
  | _ => false

def isBlock : Node → Bool
  | .block .. => true
  | _ => false

end DeadBranch.Node
