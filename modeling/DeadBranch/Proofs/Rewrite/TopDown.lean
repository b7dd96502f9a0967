import DeadBranch.Proofs.Rewrite.Step

/-!
# Each rule read from the top

A traversal decides at a node after everything below it has been rewritten. The
equations here give its result from the node as it was: whether a conditional is
flippable or prunable, and which statement falls through, is the same before and
after the rule has done its work below.
-/
namespace DeadBranch.Rule

open Node

theorem face_rewrite (r : Rule) (n : Node) : (r.rewrite n).value.face = n.face := by
  rw [value_rewrite, (step_spec r _).face_eq, face_mapChildren]

theorem label?_rewrite (r : Rule) (n : Node) : (r.rewrite n).value.label? = n.label? :=
  congrArg Face.label? (r.face_rewrite n)

theorem isIf_rewrite (r : Rule) (n : Node) : (r.rewrite n).value.isIf = n.isIf := by
  rw [value_rewrite, (step_spec r _).isIf_eq, isIf_mapChildren]

theorem isBlock_rewrite (r : Rule) (n : Node) : (r.rewrite n).value.isBlock = n.isBlock := by
  rw [value_rewrite, (step_spec r _).isBlock_eq, isBlock_mapChildren]

theorem literalBoolean_rewrite (r : Rule) (n : Node) :
    (r.rewrite n).value.literalBoolean = n.literalBoolean := by
  induction n using childInduction with
  | step n ih =>
      rw [value_rewrite, (step_spec r _).literalBoolean_eq, literalBoolean_mapChildren ih]

theorem rewrite_ifThen (r : Rule) (s : Span) (t c : Node) :
    (r.rewrite (.ifThen s t c)).value =
      .ifThen s (r.rewrite t).value (r.rewrite c).value := by
  cases r <;> rfl

theorem hasAlternate_rewrite {r : Rule} (hr : r ≠ .prune) (n : Node) :
    (r.rewrite n).value.hasAlternate = n.hasAlternate := by
  rw [value_rewrite, (step_spec r _).hasAlternate_eq hr, hasAlternate_mapChildren]

/-- What falls through a conditional is rewritten in place. Pruning is left out, for it
lets a branch fall through that did not before. -/
theorem fallThrough?_rewrite {r : Rule} (hr : r ≠ .prune) (a : Node) :
    (r.rewrite a).value.fallThrough? = a.fallThrough?.map fun b => (r.rewrite b).value := by
  by_cases ha : a.isIf
  · cases a with
    | ifThen s t c =>
        rw [rewrite_ifThen]
        simp only [fallThrough?, literalBoolean_rewrite]
        split <;> rfl
    | ifElse s t c a =>
        rw [fallThrough?_of_hasAlternate (by rw [hasAlternate_rewrite hr]; rfl),
          fallThrough?_of_hasAlternate rfl, Option.map_none]
    | _ => cases ha
  · rw [fallThrough?_of_not_isIf (by rwa [isIf_rewrite]), fallThrough?_of_not_isIf ha,
      Option.map_some]

theorem inlinable_rewrite {r : Rule} (hr : r ≠ .prune) (n : Node) :
    (r.rewrite n).value.Inlinable ↔ n.Inlinable := by
  cases n with
  | ifThen s t c => simp only [rewrite_ifThen, Inlinable, literalBoolean_rewrite, isBlock_rewrite]
  | ifElse s t c a =>
      have h := hasAlternate_rewrite hr (.ifElse s t c a)
      generalize (r.rewrite (.ifElse s t c a)).value = m at h
      cases m <;> simp_all [hasAlternate, Inlinable]
  | _ =>
      refine iff_of_false (fun h => ?_) id
      have hif := h.isIf
      rw [isIf_rewrite] at hif
      cases hif

theorem flippable_mapChildren_rewrite {r : Rule} (hr : r ≠ .prune) (n : Node) :
    (n.mapChildren fun c => (r.rewrite c).value).Flippable ↔ n.Flippable := by
  cases n with
  | ifElse s t c a =>
      simp only [mapChildren, flippable_iff, literalBoolean_rewrite, fallThrough?_rewrite hr,
        Option.map_eq_some_iff, exists_comm, exists_eq_right']
  | _ => rfl

theorem prunable_mapChildren_rewrite (r : Rule) (n : Node) :
    (n.mapChildren fun c => (r.rewrite c).value).Prunable ↔ n.Prunable := by
  cases n with
  | ifElse s t c a => simp only [mapChildren, Prunable, literalBoolean_rewrite, isIf_rewrite]
  | _ => rfl

/-- A place of a node stays one while a rule works below it, and none is added. Only pruning may
make places for the other rules. -/
theorem places_mapChildren_rewrite {r q : Rule} (hq : q = .prune → r = .prune) (n : Node) :
    r.places (n.mapChildren fun c => (q.rewrite c).value) = r.places n := by
  cases r with
  | flip =>
      have hr : q ≠ prune := fun h => nomatch hq h
      exact if_congr (flippable_mapChildren_rewrite hr n) rfl rfl
  | prune => exact if_congr (prunable_mapChildren_rewrite q n) rfl rfl
  | inline =>
      have hr : q ≠ prune := fun h => nomatch hq h
      cases n with
      | block s k stmts =>
          simp only [mapChildren, places, List.countP_map, Function.comp_def,
            inlinable_rewrite hr]
      | _ => rfl

/-- A node without a place of its own keeps its shape. -/
theorem value_rewrite_of_not_appliesAt {r : Rule} {n : Node} (h : ¬ r.AppliesAt n) :
    (r.rewrite n).value = n.mapChildren fun c => (r.rewrite c).value := by
  rw [value_rewrite]
  apply value_step_of_not_appliesAt
  rwa [← places_eq_zero, places_mapChildren_rewrite id, places_eq_zero]

theorem flip_of_fallThrough? {s : Span} {t c a b : Node} (ht : t.literalBoolean = some false)
    (ha : a.fallThrough? = some b) :
    (flip.rewrite (.ifElse s t c a)).value =
      .ifElse s ((flip.rewrite t).value.withLiteral true) (flip.rewrite b).value
        (flip.rewrite c).value := by
  have ha' : (flip.rewrite a).value.fallThrough? = some (flip.rewrite b).value := by
    have hr : flip ≠ prune := by decide
    rw [fallThrough?_rewrite hr, ha, Option.map_some]
  rw [value_rewrite, mapChildren]
  simp only [step, flipStep, literalBoolean_rewrite, ht, ha', if_true, Traced.value_rewrite]

theorem prune_of_prunable {s : Span} {t c a : Node} (ht : t.literalBoolean = some true)
    (ha : ¬ a.isIf) :
    (prune.rewrite (.ifElse s t c a)).value =
      .ifThen s (prune.rewrite t).value (prune.rewrite c).value := by
  have h : (prune.rewrite t).value.literalBoolean = some true ∧ ¬ (prune.rewrite a).value.isIf := by
    rw [literalBoolean_rewrite, isIf_rewrite]
    exact ⟨ht, ha⟩
  rw [value_rewrite, mapChildren]
  simp only [step, pruneStep, if_pos h, Traced.value_rewrite]

theorem inline_block (s : Span) (k : Nat) (stmts : List Node) :
    (inline.rewrite (.block s k stmts)).value =
      .block s k ((stmts.map fun e => (inline.rewrite e).value).flatMap
        fun e => (inlineEntry e).value) := by
  rw [value_rewrite, mapChildren, ← value_inlineEntries]
  rfl

theorem inline_ifElse (s : Span) (t c a : Node) :
    (inline.rewrite (.ifElse s t c a)).value =
      .ifElse s (inline.rewrite t).value (inline.rewrite c).value (inline.rewrite a).value :=
  value_rewrite_of_not_appliesAt (r := inline) (n := .ifElse s t c a) id

theorem rewrite_withLiteral (r : Rule) (v : Bool) {t : Node} (h : t.literalBoolean.isSome) :
    (r.rewrite (t.withLiteral v)).value = (r.rewrite t).value.withLiteral v := by
  fun_induction literalBoolean t with
  | case1 s e ih =>
      have hparen (e : Node) : (r.rewrite (.paren s e)).value = .paren s (r.rewrite e).value := by
        cases r <;> rfl
      rw [withLiteral, hparen, hparen, withLiteral, ih h]
  | case2 => cases r <;> rfl
  | case3 => cases h

/-- The count of a traversal is the number of places in the tree it was given. -/
theorem count_rewrite_eq_total (r : Rule) (n : Node) : (r.rewrite n).count = n.total r.places := by
  induction n using childInduction with
  | step n ih =>
      rw [count_rewrite, (step_spec r _).count_eq, places_mapChildren_rewrite id, total_eq,
        List.map_congr_left ih, Nat.add_comm]

theorem count_rewrite_eq_zero {r : Rule} {n : Node} :
    (r.rewrite n).count = 0 ↔ ∀ m ∈ n.subtrees, ¬ r.AppliesAt m := by
  simp only [count_rewrite_eq_total, total_eq_zero, places_eq_zero]

/-- Where no place is left the rule leaves the tree as it is. -/
theorem value_rewrite_of_count_eq_zero {r : Rule} {n : Node} (h : (r.rewrite n).count = 0) :
    (r.rewrite n).value = n := by
  induction n using childInduction with
  | step n ih =>
      rw [count_rewrite, Nat.add_eq_zero_iff, List.sum_eq_zero_iff_forall_eq_nat] at h
      have hbelow : n.mapChildren (fun c => (r.rewrite c).value) = n :=
        mapChildren_id fun c hc => ih c hc (h.1 _ (List.mem_map_of_mem hc))
      rw [value_rewrite]
      rw [hbelow] at h ⊢
      exact (step_spec r n).eq_of_count_eq_zero h.2

theorem value_rewrite_of_forall_not_appliesAt {r : Rule} {n : Node}
    (h : ∀ m ∈ n.subtrees, ¬ r.AppliesAt m) : (r.rewrite n).value = n :=
  value_rewrite_of_count_eq_zero (count_rewrite_eq_zero.mpr h)

end DeadBranch.Rule
