import DeadBranch.Proofs.Rewrite.TopDown

/-!
# Every rewrite makes progress

The weight of a tree counts its conditionals, once more those with an alternate,
and once more those on a literal false. A flip makes a false test true, pruning
takes an alternate away and inlining a whole conditional, so each counted
rewrite costs a unit of weight, and no rewrite gains any.
-/
namespace DeadBranch

namespace Node

/-- How many subtrees satisfy `p`. -/
def count (p : Node → Bool) (n : Node) : Nat := n.total fun m => (p m).toNat

/-- A conditional on a literal false. -/
def isFalseIf : Node → Bool
  | .ifThen _ t _ => t.literalBoolean = some false
  | .ifElse _ t _ _ => t.literalBoolean = some false
  | _ => false

def weightHere (n : Node) : Nat := n.isIf.toNat + n.hasAlternate.toNat + n.isFalseIf.toNat

def weight (n : Node) : Nat := n.total weightHere

theorem weight_eq (n : Node) : n.weight = n.weightHere + (n.children.map weight).sum :=
  total_eq weightHere n

theorem weight_ifThen (s : Span) (t c : Node) :
    (Node.ifThen s t c).weight =
      1 + (decide (t.literalBoolean = some false)).toNat + (t.weight + c.weight) := by
  rw [weight_eq]
  simp [children, weightHere, isIf, hasAlternate, isFalseIf]

theorem weight_ifElse (s : Span) (t c a : Node) :
    (Node.ifElse s t c a).weight =
      2 + (decide (t.literalBoolean = some false)).toNat + (t.weight + c.weight + a.weight) := by
  rw [weight_eq]
  simp [children, weightHere, isIf, hasAlternate, isFalseIf, Nat.add_assoc]

theorem weight_block (s : Span) (k : Nat) (stmts : List Node) :
    (Node.block s k stmts).weight = (stmts.map weight).sum := by
  rw [weight_eq]
  simp [children, weightHere, isIf, hasAlternate, isFalseIf]

theorem weightHere_le (n : Node) : n.weightHere ≤ 3 * n.isIf.toNat := by
  have hfalse := Bool.toNat_le n.isFalseIf
  cases n with
  | ifThen | ifElse =>
      simp only [weightHere, isIf, hasAlternate, Bool.toNat_true, Bool.toNat_false]
      omega
  | _ => exact Nat.zero_le _

/-- A conditional weighs at most three. -/
theorem weight_le (n : Node) : n.weight ≤ 3 * n.count isIf := by
  unfold weight count total
  induction n.subtrees with
  | nil => exact Nat.zero_le _
  | cons m ms ih =>
      have h := m.weightHere_le
      simp only [List.map_cons, List.sum_cons]
      omega

theorem weight_of_literalBoolean {t : Node} (h : t.literalBoolean.isSome) : t.weight = 0 := by
  apply total_of_literalBoolean _ h
  intro t ht
  cases t with
  | paren | bool => rfl
  | _ => cases ht

theorem weight_fallThrough? {a b : Node} (h : a.fallThrough? = some b) : b.weight ≤ a.weight := by
  obtain ⟨-, rfl⟩ | ⟨s, t, rfl, -⟩ := fallThrough?_eq_some h
  · exact Nat.le_refl _
  · rw [weight_ifThen]
    omega

theorem weight_inlineEntry (n : Node) :
    ((inlineEntry n).value.map weight).sum + (inlineEntry n).count ≤ n.weight := by
  by_cases h : n.Inlinable
  · obtain ⟨s, t, s', k, stmts, rfl, ht⟩ := h.exists_block
    rw [inlineEntry_ifThen ht, weight_ifThen, weight_block, Traced.value_rewrite,
      Traced.count_rewrite]
    omega
  · simp [inlineEntry_of_not_inlinable h]

theorem weight_inlineEntries (ns : List Node) :
    ((inlineEntries ns).value.map weight).sum + (inlineEntries ns).count ≤
      (ns.map weight).sum := by
  induction ns with
  | nil => exact Nat.zero_le _
  | cons n ns ih =>
      have h := weight_inlineEntry n
      simp only [inlineEntries, Traced.value_bind, Traced.count_bind, Traced.value_pure,
        Traced.count_pure, List.map_append, List.sum_append, List.map_cons, List.sum_cons]
      omega

theorem weightHere_mapChildren {f : Node → Node} {n : Node}
    (h : ∀ c ∈ n.children, (f c).literalBoolean = c.literalBoolean) :
    (n.mapChildren f).weightHere = n.weightHere := by
  cases n with
  | ifThen | ifElse =>
      simp_all [mapChildren, children, weightHere, isIf, hasAlternate, isFalseIf]
  | _ => rfl

end Node

namespace Rule

open Node

theorem Step.weight_add_le {r : Rule} {n m : Node} {k : Nat} (h : Step r n m k) :
    m.weight + k ≤ n.weight := by
  cases h with
  | skip => exact Nat.le_refl _
  | @flip s t c a b ht ha =>
      have hb := weight_fallThrough? ha
      have hlit : (t.withLiteral true).literalBoolean = some true := by simp [ht]
      have ht₁ : (t.withLiteral true).weight = 0 := weight_of_literalBoolean (by simp [hlit])
      have ht₀ : t.weight = 0 := weight_of_literalBoolean (by simp [ht])
      rw [weight_ifElse, weight_ifElse, hlit, ht, ht₀, ht₁]
      simp only [Option.some.injEq, reduceCtorEq, decide_true, decide_false, Bool.toNat_true,
        Bool.toNat_false]
      omega
  | @prune s t c a ht ha =>
      rw [weight_ifElse, weight_ifThen]
      omega
  | @inline s k stmts =>
      rw [weight_block, weight_block, ← value_inlineEntries, ← count_inlineEntries_eq_countP]
      exact weight_inlineEntries stmts

/-- What a rule counts is taken off the tree's weight. -/
theorem weight_rewrite_add_count_le (r : Rule) (n : Node) :
    (r.rewrite n).value.weight + (r.rewrite n).count ≤ n.weight := by
  induction n using childInduction with
  | step n ih =>
      have hbelow := List.sum_le_sum ih
      rw [List.sum_map_add] at hbelow
      have hhere := (r.step_spec (n.mapChildren fun c => (r.rewrite c).value)).weight_add_le
      rw [weight_eq (n.mapChildren _), weightHere_mapChildren fun c _ => r.literalBoolean_rewrite c,
        children_mapChildren, List.map_map] at hhere
      rw [value_rewrite, count_rewrite, weight_eq n]
      simp only [Function.comp_def] at hhere
      omega

end Rule
end DeadBranch
