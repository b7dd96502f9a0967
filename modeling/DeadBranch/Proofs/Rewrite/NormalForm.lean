import DeadBranch.Proofs.Rewrite.TopDown

/-!
# Normal forms

For any choice of rules one traversal brings a tree into its normal form: at each
node, all below it being normal, the chosen rules take one step each, in the
order flip, prune, inline. A single rule of the choice, applied anywhere, does
not change the normal form, and a tree where none of them applies is its own.
So the rules of a choice, in whatever order, can only ever end in one tree.
-/
namespace DeadBranch

/-- One step of the rule at the root, if it is chosen. -/
def Rule.stepIf (chosen : Rule → Bool) (r : Rule) (n : Node) : Node :=
  if chosen r then (r.step n).value else n

namespace Node

variable (chosen : Rule → Bool)

def normalStep (n : Node) : Node :=
  Rule.inline.stepIf chosen (Rule.prune.stepIf chosen (Rule.flip.stepIf chosen n))

def normalForm (n : Node) : Node := (n.bottomUp fun m => pure (normalStep chosen m)).value

theorem normalForm_eq (n : Node) :
    n.normalForm chosen = normalStep chosen (n.mapChildren (normalForm chosen)) :=
  value_bottomUp _ n

end Node

namespace Rule

open Node

variable {chosen : Rule → Bool}

theorem isIf_stepIf (r : Rule) (n : Node) : (r.stepIf chosen n).isIf = n.isIf := by
  unfold stepIf
  split
  · exact (r.step_spec n).isIf_eq
  · rfl

theorem literalBoolean_stepIf (r : Rule) (n : Node) :
    (r.stepIf chosen n).literalBoolean = n.literalBoolean := by
  unfold stepIf
  split
  · exact (r.step_spec n).literalBoolean_eq
  · rfl

theorem stepIf_of_not_appliesAt {r : Rule} {n : Node} (h : chosen r → ¬ r.AppliesAt n) :
    r.stepIf chosen n = n := by
  unfold stepIf
  split
  next hr => exact value_step_of_not_appliesAt (h hr)
  next => rfl

theorem flip_stepIf_of_fallThrough? (hf : chosen .flip) {s : Span} {t c a b : Node}
    (ht : t.literalBoolean = some false) (ha : a.fallThrough? = some b) :
    flip.stepIf chosen (.ifElse s t c a) = .ifElse s (t.withLiteral true) b c := by
  simp [stepIf, hf, step, flipStep, ht, ha]

theorem prune_stepIf_of_prunable (hp : chosen .prune) {s : Span} {t c a : Node}
    (ht : t.literalBoolean = some true) (ha : ¬ a.isIf) :
    prune.stepIf chosen (.ifElse s t c a) = .ifThen s t c := by
  simp [stepIf, hp, step, pruneStep, ht, ha]

end Rule

namespace Node

open Rule

variable {chosen : Rule → Bool}

theorem isIf_normalForm (n : Node) : (n.normalForm chosen).isIf = n.isIf := by
  simp only [normalForm_eq, normalStep, isIf_stepIf, isIf_mapChildren]

theorem literalBoolean_normalForm (n : Node) :
    (n.normalForm chosen).literalBoolean = n.literalBoolean := by
  induction n using childInduction with
  | step n ih =>
      simp only [normalForm_eq chosen n, normalStep, literalBoolean_stepIf]
      exact literalBoolean_mapChildren ih

theorem normalStep_of_not_appliesAt {n : Node} (h : ∀ r, chosen r → ¬ r.AppliesAt n) :
    normalStep chosen n = n := by
  rw [normalStep, stepIf_of_not_appliesAt (h .flip), stepIf_of_not_appliesAt (h .prune),
    stepIf_of_not_appliesAt (h .inline)]

theorem flip_stepIf_of_true {s : Span} {t c a : Node} (ht : t.literalBoolean = some true) :
    Rule.flip.stepIf chosen (.ifElse s t c a) = .ifElse s t c a :=
  stepIf_of_not_appliesAt fun _ h => by simp [AppliesAt, flippable_iff, ht] at h

theorem normalForm_ifThen (s : Span) (t c : Node) :
    (Node.ifThen s t c).normalForm chosen =
      .ifThen s (t.normalForm chosen) (c.normalForm chosen) := by
  rw [normalForm_eq, mapChildren, normalStep_of_not_appliesAt]
  rintro (_ | _ | _) - h <;> exact h

theorem normalForm_paren (s : Span) (e : Node) :
    (Node.paren s e).normalForm chosen = .paren s (e.normalForm chosen) := by
  rw [normalForm_eq, mapChildren, normalStep_of_not_appliesAt]
  rintro (_ | _ | _) - h <;> exact h

theorem normalForm_bool (s : Span) (v : Bool) : (Node.bool s v).normalForm chosen = .bool s v := by
  rw [normalForm_eq, mapChildren, normalStep_of_not_appliesAt]
  rintro (_ | _ | _) - h <;> exact h

theorem normalForm_block (hi : chosen .inline) (s : Span) (k : Nat) (stmts : List Node) :
    (Node.block s k stmts).normalForm chosen =
      .block s k ((stmts.map (normalForm chosen)).flatMap fun e => (inlineEntry e).value) := by
  rw [normalForm_eq, normalStep, mapChildren, stepIf_of_not_appliesAt (r := .flip) fun _ => id,
    stepIf_of_not_appliesAt (r := .prune) fun _ => id, stepIf, if_pos hi, ← value_inlineEntries]
  rfl

theorem normalForm_withLiteral (v : Bool) {t : Node} (h : t.literalBoolean.isSome) :
    (t.withLiteral v).normalForm chosen = (t.normalForm chosen).withLiteral v := by
  fun_induction literalBoolean t with
  | case1 s e ih => rw [withLiteral, normalForm_paren, normalForm_paren, withLiteral, ih h]
  | case2 s w => rw [withLiteral, normalForm_bool, normalForm_bool, withLiteral]
  | case3 => cases h

theorem fallThrough?_normalForm {a b : Node} (h : a.fallThrough? = some b) :
    (a.normalForm chosen).fallThrough? = some (b.normalForm chosen) := by
  obtain ⟨ha, rfl⟩ | ⟨s, t, rfl, ht⟩ := fallThrough?_eq_some h
  · exact fallThrough?_of_not_isIf (by rwa [isIf_normalForm])
  · simp only [normalForm_ifThen, fallThrough?, literalBoolean_normalForm, ht, if_true]

/-- Whether an entry gives way before or after its body has become normal, the same
statements stand in its place. -/
theorem flatMap_inlineEntry_normalForm (hi : chosen .inline) (n : Node) :
    (((inlineEntry n).value.map (normalForm chosen)).flatMap fun e => (inlineEntry e).value) =
      (inlineEntry (n.normalForm chosen)).value := by
  by_cases h : n.Inlinable
  · obtain ⟨s, t, s', k, stmts, rfl, ht⟩ := h.exists_block
    have ht' : (t.normalForm chosen).literalBoolean = some true := by
      rw [literalBoolean_normalForm, ht]
    rw [normalForm_ifThen, normalForm_block hi, inlineEntry_ifThen ht, inlineEntry_ifThen ht']
    rfl
  · simp only [inlineEntry_of_not_inlinable h, Traced.value_pure, List.map_cons, List.map_nil,
      List.flatMap_cons, List.flatMap_nil, List.append_nil]

/-- A rewrite at the root leaves the normal form as it is. -/
theorem normalForm_step {r : Rule} (hr : chosen r) {n m : Node} {k : Nat} (h : r.Step n m k) :
    m.normalForm chosen = n.normalForm chosen := by
  cases h with
  | skip => rfl
  | @flip s t c a b ht ha =>
      have ht' : (t.normalForm chosen).literalBoolean = some false := by
        rw [literalBoolean_normalForm, ht]
      rw [normalForm_eq, normalForm_eq chosen (.ifElse s t c a), mapChildren, mapChildren,
        normalForm_withLiteral true (by simp [ht]), normalStep, normalStep,
        flip_stepIf_of_fallThrough? hr ht' (fallThrough?_normalForm ha),
        flip_stepIf_of_true (by simp [ht'])]
  | @prune s t c a ht ha =>
      have ht' : (t.normalForm chosen).literalBoolean = some true := by
        rw [literalBoolean_normalForm, ht]
      rw [normalForm_ifThen, normalForm_eq chosen (.ifElse s t c a), mapChildren, normalStep,
        flip_stepIf_of_true ht', prune_stepIf_of_prunable hr ht' (by rwa [isIf_normalForm])]
      exact (stepIf_of_not_appliesAt fun _ => id).symm
  | @inline s k stmts =>
      rw [normalForm_block hr, normalForm_block hr, List.map_flatMap, List.flatMap_assoc,
        List.flatMap_map]
      simp only [flatMap_inlineEntry_normalForm hr]

/-- A rewrite anywhere leaves the normal form as it is. -/
theorem normalForm_rewrite {r : Rule} (hr : chosen r) (n : Node) :
    (r.rewrite n).value.normalForm chosen = n.normalForm chosen := by
  induction n using childInduction with
  | step n ih =>
      rw [value_rewrite, normalForm_step hr (r.step_spec _), normalForm_eq,
        mapChildren_mapChildren, mapChildren_congr ih, ← normalForm_eq]

/-- A tree to which no chosen rule applies is its own normal form. -/
theorem normalForm_of_not_appliesAt {n : Node}
    (h : ∀ r, chosen r → ∀ m ∈ n.subtrees, ¬ r.AppliesAt m) : n.normalForm chosen = n := by
  induction n using childInduction with
  | step n ih =>
      have hbelow : n.mapChildren (normalForm chosen) = n := by
        apply mapChildren_id
        intro c hc
        apply ih c hc
        intro r hr m hm
        exact h r hr m (mem_subtrees_of_mem_children hc hm)
      rw [normalForm_eq, hbelow]
      exact normalStep_of_not_appliesAt fun r hr => h r hr n n.self_mem_subtrees

end Node
end DeadBranch
