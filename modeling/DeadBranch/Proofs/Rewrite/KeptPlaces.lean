import DeadBranch.Proofs.Rewrite.DefaultRun
import DeadBranch.Proofs.Rewrite.Exhaustion

/-!
# What stands in the tree after a run

Apart from tests that are literal booleans, every node of the tree that a run with
all rules leaves is what the run made of a node that it kept.
-/
namespace DeadBranch

namespace Node

theorem childrenLeft_of_not_hasAlternate {n : Node} (h : ¬ n.hasAlternate) :
    n.childrenLeft = n.children := by
  cases n with
  | ifElse s t c a => exact absurd rfl h
  | _ => rfl

theorem children_conditional (s : Span) (t c : Node) (a : Option Node) :
    (conditional s t c a).children = t :: c :: a.toList := by
  cases a <;> rfl

end Node

namespace DeadCode

open Node

theorem isIf_simplified (n : Node) : (simplified n).isIf = n.isIf := by
  simp only [simplified_eq, finished, Rule.isIf_rewrite]

theorem isBlock_simplified (n : Node) : (simplified n).isBlock = n.isBlock := by
  simp only [simplified_eq, finished, Rule.isBlock_rewrite]

/-- A run gives no conditional an alternate that had none. -/
theorem hasAlternate_of_simplified {n : Node} (h : (simplified n).hasAlternate) :
    n.hasAlternate := by
  by_contra hif
  by_cases hblock : n.isBlock
  · cases n with
    | block s k stmts =>
        rw [simplified_block] at h
        cases h
    | _ => cases hblock
  · rw [simplified_mapChildren hif hblock, hasAlternate_mapChildren] at h
    exact hif h

theorem mem_children_simplified {m n : Node} (hm : m ∈ (simplified n).children) :
    m.literalBoolean.isSome ∨ ∃ c ∈ n.childrenLeft, m ∈ (simplified c).subtrees := by
  by_cases hblock : n.isBlock
  · cases n with
    | block s k stmts =>
        rw [simplified_block, children] at hm
        obtain ⟨e', he', hm⟩ := List.mem_flatMap.mp hm
        obtain ⟨e, he, rfl⟩ := List.mem_map.mp he'
        exact .inr ⟨e, he, mem_subtrees_of_mem_inlineEntry hm⟩
    | _ => cases hblock
  by_cases hif : n.hasAlternate
  · cases n with
    | ifElse s t c a =>
        obtain ⟨t', ht', h⟩ := simplified_ifElse s t c a
        rw [h, children_conditional, List.mem_cons, List.mem_cons, Option.mem_toList,
          Option.map_eq_some_iff] at hm
        obtain rfl | rfl | ⟨b, hb, rfl⟩ := hm
        · obtain rfl | ⟨ht, rfl⟩ := ht'
          · exact .inr ⟨t, by simp [childrenLeft], self_mem_subtrees _⟩
          · exact .inl (by simp [literalBoolean_simplified, ht])
        · exact .inr ⟨_, by simp [childrenLeft], self_mem_subtrees _⟩
        · exact .inr ⟨b, by simp [childrenLeft, hb], self_mem_subtrees _⟩
    | _ => cases hif
  · rw [simplified_mapChildren hif hblock, children_mapChildren] at hm
    obtain ⟨c, hc, rfl⟩ := List.mem_map.mp hm
    rw [childrenLeft_of_not_hasAlternate hif]
    exact .inr ⟨c, hc, self_mem_subtrees _⟩

/-- What no literal boolean shows is shown by a child after a run if it is by what the run makes of
a kept child. In a block that needs it to show through braces that are taken away. -/
theorem exists_mem_children_simplified {Q : Node → Prop} {n : Node}
    (hlit : ∀ t, t.literalBoolean.isSome → ¬ Q t)
    (hentry : n.isBlock → ∀ e, (∃ d ∈ (inlineEntry e).value, Q d) ↔ Q e) :
    (∃ c ∈ (simplified n).children, Q c) ↔ ∃ c ∈ n.childrenLeft, Q (simplified c) := by
  by_cases hblock : n.isBlock
  · cases n with
    | block s k stmts =>
        rw [simplified_block, childrenLeft_of_not_hasAlternate (by simp [hasAlternate])]
        simp only [children, List.mem_flatMap, List.mem_map]
        constructor
        · rintro ⟨d, ⟨-, ⟨e, he, rfl⟩, hd⟩, h⟩
          exact ⟨e, he, (hentry hblock _).mp ⟨d, hd, h⟩⟩
        · rintro ⟨e, he, h⟩
          obtain ⟨d, hd, h⟩ := (hentry hblock _).mpr h
          exact ⟨d, ⟨_, ⟨e, he, rfl⟩, hd⟩, h⟩
    | _ => cases hblock
  by_cases hif : n.hasAlternate
  · cases n with
    | ifElse s t c a =>
        obtain ⟨t', ht', h⟩ := simplified_ifElse s t c a
        have htest : Q t' ↔ Q (simplified t) := by
          obtain rfl | ⟨ht, rfl⟩ := ht'
          · rfl
          · have hsome : (simplified t).literalBoolean.isSome := by
              rw [literalBoolean_simplified, ht]
              rfl
            exact iff_of_false (hlit _ (by simpa using hsome)) (hlit _ hsome)
        rw [h, children_conditional, childrenLeft]
        simp only [List.exists_mem_cons_iff, htest, Option.mem_toList, Option.map_eq_some_iff,
          exists_exists_and_eq_and]
    | _ => cases hif
  · rw [childrenLeft_of_not_hasAlternate hif, simplified_mapChildren hif hblock,
      children_mapChildren]
    simp only [List.mem_map, exists_exists_and_eq_and]

/-- The places that neither a literal boolean nor a block nor a conditional without alternate can
be are what the run made of kept places. -/
theorem exists_mem_subtrees_simplified {P : Node → Prop} (hlit : ∀ t, t.literalBoolean.isSome → ¬ P t)
    (hif : ∀ s t c, ¬ P (.ifThen s t c)) (hblock : ∀ s k stmts, ¬ P (.block s k stmts)) (n : Node) :
    (∃ m ∈ (simplified n).subtrees, P m) ↔ ∃ m, KeptIn m n ∧ P (simplified m) := by
  have hentry : ∀ e, (∃ d ∈ (inlineEntry e).value, ∃ m ∈ d.subtrees, P m) ↔
      ∃ m ∈ e.subtrees, P m := by
    apply exists_mem_inlineEntry (not_exists_mem_subtrees_of_literalBoolean hlit)
    · intro s t c
      rw [exists_mem_subtrees, or_iff_right (hif s t c), children]
      simp only [List.exists_mem_cons_iff, List.not_mem_nil, false_and, exists_false, or_false]
    · intro s k stmts
      rw [exists_mem_subtrees, or_iff_right (hblock s k stmts), children]
  induction n using keptInduction with
  | step n ih =>
      rw [exists_mem_subtrees, exists_keptIn_iff,
        exists_mem_children_simplified (not_exists_mem_subtrees_of_literalBoolean hlit)
          fun _ => hentry]
      exact or_congr_right (exists_congr fun c => and_congr_right fun hc => ih c hc)

/-- A node that is no literal boolean has been left by a kept node. -/
theorem exists_keptIn {m n : Node} (hm : m ∈ (simplified n).subtrees)
    (hlit : m.literalBoolean = none) : ∃ k, KeptIn k n ∧ m = simplified k := by
  induction n using keptInduction with
  | step n ih =>
      obtain rfl | ⟨c, hc, hmc⟩ := mem_subtrees.mp hm
      · exact ⟨n, .root, rfl⟩
      · obtain hsome | ⟨d, hd, hcd⟩ := mem_children_simplified hc
        · have hmlit := literalBoolean_of_mem_subtrees hsome hmc
          rw [hlit] at hmlit
          cases hmlit
        · obtain ⟨k, hk, rfl⟩ := ih d hd (mem_subtrees_trans hmc hcd)
          exact ⟨k, .child hd hk, rfl⟩

/-- After a run no entry of a block is left to be inlined. -/
theorem not_inline_appliesAt_of_mem_subtrees_simplified (n : Node) :
    ∀ m ∈ (simplified n).subtrees, ¬ Rule.inline.AppliesAt m := by
  rw [simplified_eq, finished]
  exact Rule.not_appliesAt_of_mem_subtrees_rewrite .inline _

end DeadCode
end DeadBranch
