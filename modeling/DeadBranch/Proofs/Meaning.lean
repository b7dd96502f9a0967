import DeadBranch.Proofs.Pipeline.Passes

/-!
# Compositional readings of trees

A reading gives every tree a value in a monoid. A block means its statements one
after the other, a conditional on a literal boolean means the branch that runs,
and everything else means whatever the reading likes, as a function of the
node's own data and of what its children mean. No rule changes what a tree means,
and so no run of the pass and no number of rounds of a pipeline does.
-/
namespace DeadBranch

/-- The free part of a reading: what nodes mean that no rule looks into. -/
structure Reading (μ : Type*) where
  /-- A conditional whose test is not a literal boolean; the alternate may be missing. -/
  conditional : Span → (test consequent : μ) → (alternate : Option μ) → μ
  staticBlock : (span bodySpan : Span) → (scope : Nat) → List μ → μ
  paren : Span → μ → μ
  bool : Span → Bool → μ
  other : Label → List μ → μ

namespace Reading

variable {μ : Type*} [Monoid μ] (I : Reading μ)

mutual

/-- What a tree means. -/
def meaning : Node → μ
  | .ifThen s t c =>
      match t.literalBoolean with
      | some true => meaning c
      | some false => 1
      | none => I.conditional s (meaning t) (meaning c) none
  | .ifElse s t c a =>
      match t.literalBoolean with
      | some true => meaning c
      | some false => meaning a
      | none => I.conditional s (meaning t) (meaning c) (some (meaning a))
  | .block _ _ stmts => (meanings stmts).prod
  | .staticBlock s b k stmts => I.staticBlock s b k (meanings stmts)
  | .paren s e => I.paren s (meaning e)
  | .bool s v => I.bool s v
  | .other l cs => I.other l (meanings cs)

/-- What the trees of a list mean, each on its own. -/
def meanings : List Node → List μ
  | [] => []
  | n :: ns => meaning n :: meanings ns

end

theorem meanings_eq_map (ns : List Node) : I.meanings ns = ns.map I.meaning := by
  induction ns with
  | nil => rfl
  | cons n ns ih => simp [meanings, ih]

variable {I}

theorem meaning_ifThen (s : Span) (t c : Node) :
    I.meaning (.ifThen s t c) =
      match t.literalBoolean with
      | some true => I.meaning c
      | some false => 1
      | none => I.conditional s (I.meaning t) (I.meaning c) none := rfl

theorem meaning_ifElse (s : Span) (t c a : Node) :
    I.meaning (.ifElse s t c a) =
      match t.literalBoolean with
      | some true => I.meaning c
      | some false => I.meaning a
      | none => I.conditional s (I.meaning t) (I.meaning c) (some (I.meaning a)) := rfl

theorem meaning_block (s : Span) (k : Nat) (stmts : List Node) :
    I.meaning (.block s k stmts) = (stmts.map I.meaning).prod :=
  congrArg List.prod (I.meanings_eq_map stmts)

/-- Children of the same meaning and the same face may take each other's place. -/
theorem meaning_mapChildren {f : Node → Node} {n : Node}
    (hlit : ∀ c ∈ n.children, (f c).literalBoolean = c.literalBoolean)
    (hmean : ∀ c ∈ n.children, I.meaning (f c) = I.meaning c) :
    I.meaning (n.mapChildren f) = I.meaning n := by
  have hmap : (n.children.map f).map I.meaning = n.children.map I.meaning := by
    rw [List.map_map]
    exact List.map_congr_left hmean
  cases n with
  | block | staticBlock | other =>
      rw [Node.children] at hmap
      simp only [Node.mapChildren, meaning, meanings_eq_map, hmap]
  | ifThen | ifElse | paren | bool => simp_all [Node.mapChildren, Node.children, meaning]

/-- A branch that falls through a conditional is what the alternate means. -/
theorem meaning_fallThrough? {a b : Node} (h : a.fallThrough? = some b) :
    I.meaning b = I.meaning a := by
  obtain ⟨-, rfl⟩ | ⟨s, t, rfl, ht⟩ := Node.fallThrough?_eq_some h
  · rfl
  · simp only [meaning_ifThen, ht]

theorem prod_meaning_inlineEntry (n : Node) :
    ((Node.inlineEntry n).value.map I.meaning).prod = I.meaning n := by
  by_cases h : n.Inlinable
  · obtain ⟨s, t, s', k, stmts, rfl, ht⟩ := h.exists_block
    simp only [Node.inlineEntry_ifThen ht, Traced.value_rewrite, meaning_ifThen, ht, meaning_block]
  · simp only [Node.inlineEntry_of_not_inlinable h, Traced.value_pure, List.map_cons,
      List.map_nil, List.prod_cons, List.prod_nil, mul_one]

/-- Splicing regroups the statements of a block, and nothing more. -/
theorem prod_meaning_flatMap_inlineEntry (ns : List Node) :
    ((ns.flatMap fun n => (Node.inlineEntry n).value).map I.meaning).prod =
      (ns.map I.meaning).prod := by
  induction ns with
  | nil => rfl
  | cons n ns ih =>
      rw [List.flatMap_cons, List.map_append, List.prod_append, prod_meaning_inlineEntry, ih,
        List.map_cons, List.prod_cons]

theorem meaning_step {r : Rule} {n m : Node} {k : Nat} (h : r.Step n m k) :
    I.meaning m = I.meaning n := by
  cases h with
  | skip => rfl
  | flip ht ha =>
      simp only [meaning_ifElse, Node.literalBoolean_withLiteral, ht, Option.map_some]
      exact meaning_fallThrough? ha
  | prune ht => simp only [meaning_ifThen, meaning_ifElse, ht]
  | inline => simp only [meaning_block, prod_meaning_flatMap_inlineEntry]

theorem meaning_rewrite (r : Rule) (n : Node) : I.meaning (r.rewrite n).value = I.meaning n := by
  induction n using Node.childInduction with
  | step n ih =>
      rw [Rule.value_rewrite, meaning_step (r.step_spec _)]
      exact meaning_mapChildren (fun c _ => r.literalBoolean_rewrite c) ih

/-- Rules, runs of the pass and pipelines of passes keep the meaning of every tree. -/
theorem meaning_unchanged {μ : Type*} [Monoid μ] (I : Reading μ) (n : Node) :
    (∀ r : Rule, I.meaning (r.rewrite n).value = I.meaning n) ∧
      (∀ rules : RuleSet, I.meaning (DeadCode.run rules n).program = I.meaning n) ∧
      ∀ ts : List DeadCode,
        (∀ k, I.meaning (Pipeline.before k ts n).2 = I.meaning n) ∧
        ∀ maxRounds, I.meaning (Pipeline.runUntilStable maxRounds ts n).program = I.meaning n := by
  have hrule {p : Rule → Prop} (r : Rule) (_ : p r) (m : Node) (hm : I.meaning m = I.meaning n) :
      I.meaning (r.rewrite m).value = I.meaning n := (meaning_rewrite r m).trans hm
  refine ⟨fun r => meaning_rewrite r n, fun rules => ?_, fun ts => ⟨fun k => ?_, fun k => ?_⟩⟩
  · exact DeadCode.run_preserves (P := fun m => I.meaning m = I.meaning n) hrule rfl
  · exact Pipeline.before_preserves (P := fun m => I.meaning m = I.meaning n) hrule rfl k
  · exact Pipeline.runUntilStable_preserves (P := fun m => I.meaning m = I.meaning n) hrule rfl k

end Reading
end DeadBranch
