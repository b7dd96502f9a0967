import DeadBranch.Proofs.Rewrite.TopDown

/-!
# Spliced blocks

Where the nodes of a tree come from whose blocks have been spliced into: inlining
makes no node of its own, and what it puts in the place of an entry has been done.
-/
namespace DeadBranch

namespace Node

/-- What an entry gives way to has been part of it. -/
theorem mem_subtrees_of_mem_inlineEntry {d e : Node} (h : d ∈ (inlineEntry e).value) :
    d ∈ e.subtrees := by
  by_cases he : e.Inlinable
  · obtain ⟨s, t, s', k, stmts, rfl, ht⟩ := he.exists_block
    rw [inlineEntry_ifThen ht, Traced.value_rewrite] at h
    have hblock : d ∈ (Node.block s' k stmts).subtrees :=
      mem_subtrees_of_mem_children h d.self_mem_subtrees
    exact mem_subtrees_of_mem_children (by simp [children]) hblock
  · rw [inlineEntry_of_not_inlinable he, Traced.value_pure, List.mem_singleton] at h
    rw [h]
    exact e.self_mem_subtrees

/-- Of an entry that gives way only the conditional, its test and its braces go. -/
theorem mem_subtrees_inlineEntry {m e : Node} (hm : m ∈ e.subtrees) :
    (∃ d ∈ (inlineEntry e).value, m ∈ d.subtrees) ∨ m.isIf ∨ m.literalBoolean.isSome ∨
      m.isBlock ∧ m.children = (inlineEntry e).value := by
  by_cases he : e.Inlinable
  · obtain ⟨s, t, s', k, stmts, rfl, ht⟩ := he.exists_block
    rw [inlineEntry_ifThen ht, Traced.value_rewrite]
    obtain rfl | ⟨c, hc, hmc⟩ := mem_subtrees.mp hm
    · exact .inr (.inl rfl)
    · rw [children, List.mem_pair] at hc
      obtain rfl | rfl := hc
      · exact .inr (.inr (.inl (literalBoolean_of_mem_subtrees (by rw [ht]; rfl) hmc)))
      · obtain rfl | hstmt := mem_subtrees.mp hmc
        · exact .inr (.inr (.inr ⟨rfl, rfl⟩))
        · exact .inl hstmt
  · rw [inlineEntry_of_not_inlinable he, Traced.value_pure]
    exact .inl ⟨e, List.mem_singleton_self e, hm⟩

/-- What shows through the braces of a true conditional shows in the statements that stand for it
just the same. -/
theorem exists_mem_inlineEntry {Q : Node → Prop} (hlit : ∀ t, t.literalBoolean.isSome → ¬ Q t)
    (hif : ∀ s t c, Q (.ifThen s t c) ↔ Q t ∨ Q c)
    (hblock : ∀ s k stmts, Q (.block s k stmts) ↔ ∃ m ∈ stmts, Q m) (e : Node) :
    (∃ d ∈ (inlineEntry e).value, Q d) ↔ Q e := by
  by_cases he : e.Inlinable
  · obtain ⟨s, t, s', k, stmts, rfl, ht⟩ := he.exists_block
    have htest : ¬ Q t := hlit t (by rw [ht]; rfl)
    rw [inlineEntry_ifThen ht, Traced.value_rewrite, hif, hblock, or_iff_right htest]
  · rw [inlineEntry_of_not_inlinable he, Traced.value_pure]
    simp only [List.mem_singleton, exists_eq_left]

end Node

namespace Rule

open Node

theorem not_inline_appliesAt_of_not_isBlock {n : Node} (h : ¬ n.isBlock) :
    ¬ inline.AppliesAt n := by
  cases n with
  | block s k stmts => exact absurd rfl h
  | _ => exact id

theorem inline_of_not_isBlock {n : Node} (h : ¬ n.isBlock) :
    (inline.rewrite n).value = n.mapChildren fun c => (inline.rewrite c).value :=
  value_rewrite_of_not_appliesAt (not_inline_appliesAt_of_not_isBlock h)

/-- What stands for an entry is not inlinable if the blocks in the entry are done. -/
theorem not_inlinable_of_mem_inlineEntry {d e : Node}
    (he : ∀ m ∈ e.subtrees, ¬ inline.AppliesAt m) (hd : d ∈ (inlineEntry e).value) :
    ¬ d.Inlinable := by
  intro hinl
  by_cases h : e.Inlinable
  · obtain ⟨s, t, s', k, stmts, rfl, ht⟩ := h.exists_block
    rw [inlineEntry_ifThen ht, Traced.value_rewrite] at hd
    have hbody : Node.block s' k stmts ∈ (Node.ifThen s t (.block s' k stmts)).subtrees :=
      mem_subtrees_of_mem_children (by simp [children]) (self_mem_subtrees _)
    exact he _ hbody ⟨d, hd, hinl⟩
  · rw [inlineEntry_of_not_inlinable h, Traced.value_pure, List.mem_singleton] at hd
    exact h (hd ▸ hinl)

end Rule
end DeadBranch
