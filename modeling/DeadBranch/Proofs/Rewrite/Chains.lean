import DeadBranch.Proofs.Rewrite.KeptPlaces
import Mathlib.Data.List.MinMax

/-!
# Else-if chains and the runs they take

A conditional on a literal false waits for the else-if behind it: it can be turned
round once that has become a true conditional without alternate. Such a chain is
worked off from its end, one link in a run. `Due k` says of a conditional that its
chain has it ready after `k` runs; a run takes one off every number above zero, and
no number exceeds the length of the chain. What a run moves elsewhere does not make
anything wait longer, because a turned conditional is on a true test, and only
false tests wait.
-/
namespace DeadBranch

namespace Node

/-- How many conditionals are linked by `else` from this one on; none if it is not one. -/
def chain : Node → Nat
  | .ifThen .. => 1
  | .ifElse _ _ _ a => chain a + 1
  | _ => 0

/-- The greatest length of a chain anywhere in the tree. -/
def longestChain (n : Node) : Nat := (n.subtrees.map chain).foldr max 0

theorem chain_le_longestChain {m n : Node} (h : m ∈ n.subtrees) : m.chain ≤ n.longestChain :=
  List.le_max_of_le' 0 (List.mem_map_of_mem h) (Nat.le_refl _)

theorem chain_pos {n : Node} (h : n.isIf) : 0 < n.chain := by
  cases n <;> simp_all [isIf, chain]

/-- The conditional is a true one without alternate after this many runs, as far as its chain
goes: its consequent may still be a conditional, which a turn leaves as an alternate. -/
inductive Due : Nat → Node → Prop where
  | ready {s : Span} {t c : Node} : t.literalBoolean = some true → Due 0 (.ifThen s t c)
  | plain {s : Span} {t c a : Node} : t.literalBoolean.isSome → ¬ a.isIf → Due 1 (.ifElse s t c a)
  | link {s : Span} {t c a : Node} {k : Nat} : t.literalBoolean = some false → Due k a →
      Due (k + 1) (.ifElse s t c a)

theorem Due.isIf {k : Nat} {n : Node} (h : Due k n) : n.isIf := by
  cases h <;> rfl

theorem Due.le_chain {k : Nat} {n : Node} (h : Due k n) : k ≤ n.chain := by
  induction h with
  | ready => exact Nat.zero_le _
  | plain => exact Nat.succ_le_succ (Nat.zero_le _)
  | link _ _ ih => exact Nat.succ_le_succ ih

/-- A true conditional keeps an else-if for good. -/
theorem not_due_of_true {k : Nat} {s : Span} {t c a : Node} (ht : t.literalBoolean = some true)
    (ha : a.isIf) : ¬ Due k (.ifElse s t c a) := by
  rintro (_ | ⟨-, hnot⟩ | ⟨hfalse, -⟩)
  · exact hnot ha
  · rw [ht] at hfalse
    cases hfalse

/-- A conditional that has nothing to wait for. -/
theorem due_one {s : Span} {t c a b : Node} (ht : t.literalBoolean = some false)
    (ha : a.fallThrough? = some b) : Due 1 (.ifElse s t c a) := by
  obtain ⟨hif, -⟩ | ⟨s', t', rfl, ht'⟩ := fallThrough?_eq_some ha
  · exact .plain (by rw [ht]; rfl) hif
  · exact .link ht (.ready ht')

theorem due_one_of_appliesAt {r : Rule} {n : Node} (hr : r ≠ .inline) (h : r.AppliesAt n) :
    Due 1 n := by
  cases r with
  | flip =>
      rcases Flippable.exists_ifElse h with ⟨s, t, c, a, b, rfl, ht, ha⟩
      exact due_one ht ha
  | prune =>
      rcases Prunable.exists_ifElse h with ⟨s, t, c, a, rfl, ht, ha⟩
      exact .plain (by rw [ht]; rfl) ha
  | inline => exact absurd rfl hr

/-- No conditional of the tree waits for longer. -/
def DueBy (k : Nat) (n : Node) : Prop := ∀ m ∈ n.subtrees, ∀ j, m.Due j → j ≤ k

theorem dueBy_longestChain (n : Node) : n.DueBy n.longestChain := by
  intro m hm j h
  exact Nat.le_trans h.le_chain (chain_le_longestChain hm)

theorem DueBy.not_appliesAt {n : Node} (h : n.DueBy 0) {r : Rule} (hr : r ≠ .inline) :
    ∀ m ∈ n.subtrees, ¬ r.AppliesAt m := by
  intro m hm happ
  exact Nat.not_succ_le_zero 0 (h m hm 1 (due_one_of_appliesAt hr happ))

/-- Where there is no conditional there is no place for any rule. -/
theorem not_appliesAt_of_longestChain_eq_zero {n : Node} (h : n.longestChain = 0) (r : Rule) :
    ∀ m ∈ n.subtrees, ¬ r.AppliesAt m := by
  have hif : ∀ m ∈ n.subtrees, ¬ m.isIf := by
    intro m hm hif
    have hle := chain_le_longestChain hm
    have hpos := chain_pos hif
    omega
  intro m hm happ
  cases r with
  | inline =>
      cases m with
      | block s k stmts =>
          obtain ⟨e, he, hinl⟩ := happ
          have hmem : e ∈ (Node.block s k stmts).subtrees :=
            mem_subtrees_of_mem_children he (self_mem_subtrees e)
          exact hif e (mem_subtrees_trans hmem hm) hinl.isIf
      | _ => exact happ
  | flip | prune => exact hif m hm (due_one_of_appliesAt (by decide) happ).isIf

end Node

namespace DeadCode

open Node

/-- A run brings a conditional one step nearer, or had nothing to wait for. -/
theorem due_of_due_simplified {n : Node} {k : Nat} (h : (simplified n).Due k) :
    n.Due (k + 1) ∨ k = 0 ∧ n.Due 0 := by
  induction n using childInduction generalizing k with
  | step n ih =>
      have hif : n.isIf := by
        rw [← isIf_simplified]
        exact h.isIf
      cases n with
      | ifThen s t c =>
          rw [simplified_mapChildren (by simp [hasAlternate]) (by simp [isBlock]), mapChildren] at h
          cases h with
          | ready ht => exact .inr ⟨rfl, .ready (by rwa [literalBoolean_simplified] at ht)⟩
      | ifElse s t c a =>
          by_cases htrue : t.literalBoolean = some true
          · have htrue' : (simplified t).literalBoolean = some true := by
              rw [literalBoolean_simplified, htrue]
            rw [simplified_ifElse_of_true htrue] at h
            by_cases ha : a.isIf
            · rw [if_pos ha] at h
              exact absurd h (not_due_of_true htrue' (by rwa [isIf_simplified]))
            · rw [if_neg ha] at h
              cases h with
              | ready => exact .inl (.plain (by rw [htrue]; rfl) ha)
          by_cases hflip : (Node.ifElse s t c a).Flippable
          · obtain ⟨ht, b, hb⟩ := flippable_iff.mp hflip
            have htrue' : ((simplified t).withLiteral true).literalBoolean = some true := by
              rw [literalBoolean_withLiteral, literalBoolean_simplified, ht, Option.map_some]
            rw [simplified_ifElse_of_fallThrough? ht hb] at h
            by_cases hc : c.isIf
            · rw [if_pos hc] at h
              exact absurd h (not_due_of_true htrue' (by rwa [isIf_simplified]))
            · rw [if_neg hc] at h
              cases h with
              | ready => exact .inl (due_one ht hb)
          · rw [simplified_ifElse_of_not_flippable htrue hflip] at h
            cases h with
            | plain hsome ha =>
                rw [literalBoolean_simplified] at hsome
                rw [isIf_simplified] at ha
                obtain ⟨v, hv⟩ := Option.isSome_iff_exists.mp hsome
                cases v with
                | true => exact absurd hv htrue
                | false => exact absurd ⟨hv, .inl ha⟩ hflip
            | link ht hdue =>
                rw [literalBoolean_simplified] at ht
                obtain hdue | ⟨-, hdue⟩ := ih a (by simp [children]) hdue
                · exact .inl (.link ht hdue)
                · cases hdue with
                  | ready ht' => exact absurd ⟨ht, .inr ⟨_, _, _, rfl, ht'⟩⟩ hflip
      | _ => cases hif

theorem dueBy_simplified {n : Node} {k : Nat} (h : n.DueBy (k + 1)) : (simplified n).DueBy k := by
  intro m hm j hdue
  have hlit : m.literalBoolean = none := by
    have hif := hdue.isIf
    cases m <;> simp_all [isIf, literalBoolean]
  obtain ⟨m₀, hkept, rfl⟩ := exists_keptIn hm hlit
  obtain hdue | ⟨rfl, -⟩ := due_of_due_simplified hdue
  · exact Nat.le_of_succ_le_succ (h m₀ hkept.mem_subtrees (j + 1) hdue)
  · exact Nat.zero_le k

theorem dueBy_iterate_simplified {n : Node} {j : Nat} (k : Nat) (h : n.DueBy (j + k)) :
    (simplified^[k] n).DueBy j := by
  induction k generalizing n with
  | zero => exact h
  | succ k ih =>
      rw [Function.iterate_succ_apply]
      exact ih (dueBy_simplified h)

/-- After as many runs as the longest chain has links no rule has a place left. -/
theorem not_appliesAt_iterate_simplified (n : Node) (r : Rule) :
    ∀ m ∈ (simplified^[n.longestChain] n).subtrees, ¬ r.AppliesAt m := by
  have hdue : (simplified^[n.longestChain] n).DueBy 0 :=
    dueBy_iterate_simplified _ (by rw [Nat.zero_add]; exact n.dueBy_longestChain)
  by_cases hr : r = .inline
  · subst hr
    cases hlen : n.longestChain with
    | zero => exact not_appliesAt_of_longestChain_eq_zero hlen .inline
    | succ k =>
        rw [Function.iterate_succ_apply']
        exact not_inline_appliesAt_of_mem_subtrees_simplified _
  · exact hdue.not_appliesAt hr

end DeadCode
end DeadBranch
