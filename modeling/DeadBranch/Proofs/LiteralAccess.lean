import DeadBranch.Tree.LiteralBoolean

/-!
# Reading and writing a literal test

A rule looks at a test with one function and writes to it with another, and each finds its
own way through the parentheses. They come to the same literal: a test is parentheses around
something, the reader reads that something, and the writer puts another value there if it is
a literal. The parentheses and all spans stay, so a value that is put back restores the test.
-/
namespace DeadBranch.Node

/-- What stands inside all parentheses. -/
def unparen : Node → Node
  | .paren _ e => e.unparen
  | e => e

/-- The parentheses around what stands inside them, from the outside in. -/
def parens : Node → List Span
  | .paren s e => s :: e.parens
  | _ => []

/-- An expression in parentheses, given from the outside in. -/
def parenthesized (spans : List Span) (e : Node) : Node := spans.foldr .paren e

theorem parenthesized_cons (s : Span) (spans : List Span) (e : Node) :
    parenthesized (s :: spans) e = .paren s (parenthesized spans e) := rfl

theorem parenthesized_parens_unparen (e : Node) : parenthesized e.parens e.unparen = e := by
  induction e using parenInduction with
  | paren s e ih =>
      have hcons : parenthesized (Node.paren s e).parens (Node.paren s e).unparen =
          .paren s (parenthesized e.parens e.unparen) := rfl
      rw [hcons, ih]
  | inner e hne =>
      cases e with
      | paren s e => exact absurd rfl (hne s e)
      | _ => rfl

/-- The reader looks at what stands inside the parentheses, and takes a literal only. -/
theorem literal?_eq_some {e : Node} {s : Span} {v : Bool} :
    e.literal? = some (s, v) ↔ e.unparen = .bool s v := by
  induction e using parenInduction with
  | paren s e ih => exact ih
  | inner e hne =>
      cases e with
      | paren s e => exact absurd rfl (hne s e)
      | _ => simp [literal?, unparen]

/-- The writer goes through all parentheses and leaves them as they are. -/
theorem withLiteral_parenthesized (w : Bool) (spans : List Span) (e : Node) :
    (parenthesized spans e).withLiteral w = parenthesized spans (e.withLiteral w) := by
  induction spans with
  | nil => rfl
  | cons s spans ih =>
      rw [parenthesized_cons, parenthesized_cons, ← ih]
      rfl

theorem withLiteral_withLiteral (w u : Bool) (e : Node) :
    (e.withLiteral w).withLiteral u = e.withLiteral u := by
  induction e using parenInduction with
  | paren s e ih => exact congrArg (Node.paren s) ih
  | inner e hne =>
      cases e with
      | paren s e => exact absurd rfl (hne s e)
      | _ => rfl

/-- Where the reader finds no literal the writer does not write. -/
theorem withLiteral_of_literal?_eq_none {e : Node} (h : e.literal? = none) (w : Bool) :
    e.withLiteral w = e := by
  induction e using parenInduction with
  | paren s e ih =>
      have hinner : e.literal? = none := h
      exact congrArg (Node.paren s) (ih hinner)
  | inner e hne =>
      cases e with
      | paren s e => exact absurd rfl (hne s e)
      | bool => cases h
      | _ => rfl

/-- Reader and writer see the same literal: there is one to write exactly where one is read, with
the value that is read. Writing changes that value and nothing else, the last value written is the
one that is read, and writing the old one restores the expression. -/
theorem literal_read_and_written (e : Node) :
    (e.literal?.isSome ↔ e.literalBoolean.isSome) ∧
      (e.literal? = none → ∀ w, e.withLiteral w = e) ∧
      ∀ s v, e.literal? = some (s, v) →
        e.literalBoolean = some v ∧
          ∃ spans, e = parenthesized spans (.bool s v) ∧
            ∀ w, e.withLiteral w = parenthesized spans (.bool s w) ∧
              (e.withLiteral w).literalBoolean = some w ∧
              (e.withLiteral w).withLiteral v = e ∧
              ∀ u, (e.withLiteral w).withLiteral u = e.withLiteral u := by
  refine ⟨?_, withLiteral_of_literal?_eq_none, ?_⟩
  · rw [literalBoolean_eq_map_literal?, Option.isSome_map]
  intro s v h
  have hread : e.literalBoolean = some v := by
    rw [literalBoolean_eq_map_literal?, h, Option.map_some]
  have hwhole : e = parenthesized e.parens (.bool s v) := by
    rw [← literal?_eq_some.mp h, parenthesized_parens_unparen]
  have hwrite (w : Bool) : e.withLiteral w = parenthesized e.parens (.bool s w) :=
    calc
      e.withLiteral w = (parenthesized e.parens (.bool s v)).withLiteral w := by rw [← hwhole]
      _ = parenthesized e.parens (.bool s w) := withLiteral_parenthesized w e.parens (.bool s v)
  refine ⟨hread, e.parens, hwhole, fun w => ⟨hwrite w, ?_, ?_, ?_⟩⟩
  · rw [literalBoolean_withLiteral, hread, Option.map_some]
  · rw [withLiteral_withLiteral, hwrite v, ← hwhole]
  · intro u
    exact withLiteral_withLiteral w u e

/-- Two pairs of parentheses, with blanks between them. -/
def twoParens (e : Node) : Node := .paren ⟨4, 15⟩ (.paren ⟨6, 13⟩ e)

def innerLiteral : Node := .bool ⟨7, 12⟩ false

/-- A negated literal is no literal. -/
def innerNegation : Node :=
  .ofParts .unaryExpression [.span ⟨7, 12⟩, .text "!", .one (.bool ⟨8, 12⟩ true)]

theorem literal_read_and_written_twoParens :
    (twoParens innerLiteral).literal? = some (⟨7, 12⟩, false) ∧
      ((twoParens innerLiteral).withLiteral true).literalBoolean = some true ∧
      ((twoParens innerLiteral).withLiteral true).withLiteral false = twoParens innerLiteral ∧
      (twoParens innerNegation).literal? = none ∧
      (twoParens innerNegation).withLiteral false = twoParens innerNegation := by
  have hread : (twoParens innerLiteral).literal? = some (⟨7, 12⟩, false) := rfl
  have hnone : (twoParens innerNegation).literal? = none := rfl
  obtain ⟨-, spans, -, hwrite⟩ := (literal_read_and_written (twoParens innerLiteral)).2.2 _ _ hread
  have hidle := (literal_read_and_written (twoParens innerNegation)).2.1 hnone false
  exact ⟨hread, (hwrite true).2.1, (hwrite true).2.2.1, hnone, hidle⟩

end DeadBranch.Node
