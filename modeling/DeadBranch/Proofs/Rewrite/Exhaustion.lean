import DeadBranch.Proofs.Rewrite.Splicing

/-!
# One traversal is enough

A step moves subtrees that have been dealt with to other places: a consequent behind the
`else`, the body of an else-if in front of it, the statements of a body into a block. A
traversal does not come back to them. It need not, for a step makes no node but tests that
are literal booleans, and where it has been taken the rule has nothing left to rewrite.
-/
namespace DeadBranch

namespace Node

theorem mem_subtrees_of_fallThrough? {a b : Node} (h : a.fallThrough? = some b) :
    b ∈ a.subtrees := by
  rcases fallThrough?_eq_some h with ⟨-, rfl⟩ | ⟨s, t, rfl, -⟩
  · exact b.self_mem_subtrees
  · exact mem_subtrees_of_mem_children (by simp [children]) b.self_mem_subtrees

end Node

namespace Rule

open Node

variable {r : Rule} {n m : Node} {k : Nat}

theorem not_appliesAt_of_literalBoolean (r : Rule) {t : Node} (h : t.literalBoolean.isSome) :
    ¬ r.AppliesAt t := by
  cases t with
  | paren | bool => cases r <;> exact id
  | _ => cases h

/-- What a step puts below the node has been there, or is a literal test. -/
theorem Step.mem_children (h : Step r n m k) {d : Node} (hd : d ∈ m.children) :
    d.literalBoolean.isSome ∨ ∃ c ∈ n.children, d ∈ c.subtrees := by
  cases h with
  | skip => exact .inr ⟨d, hd, d.self_mem_subtrees⟩
  | @flip s t c a b ht ha =>
      simp only [children, List.mem_cons, List.not_mem_nil, or_false] at hd
      rcases hd with rfl | rfl | rfl
      · exact .inl (by simp [ht])
      · exact .inr ⟨a, by simp [children], mem_subtrees_of_fallThrough? ha⟩
      · exact .inr ⟨d, by simp [children], d.self_mem_subtrees⟩
  | @prune s t c a =>
      exact .inr ⟨d, List.mem_append_left [a] hd, d.self_mem_subtrees⟩
  | @inline s k stmts =>
      rcases List.mem_flatMap.mp hd with ⟨e, he, hde⟩
      exact .inr ⟨e, he, mem_subtrees_of_mem_inlineEntry hde⟩

/-- Where a step has been taken, and all is done below, no place is left. -/
theorem Step.not_appliesAt (h : Step r n m k)
    (hbelow : ∀ c ∈ n.children, ∀ x ∈ c.subtrees, ¬ r.AppliesAt x) : ¬ r.AppliesAt m := by
  cases h with
  | skip hn => exact hn
  | flip ht ha =>
      intro hm
      have htest := hm.1
      simp [ht] at htest
  | prune => exact id
  | @inline s k stmts =>
      intro hm
      rcases hm with ⟨d, hd, hinl⟩
      rcases List.mem_flatMap.mp hd with ⟨e, he, hde⟩
      exact not_inlinable_of_mem_inlineEntry (hbelow e he) hde hinl

/-- A rule that has gone through a tree has left no place of its own. -/
theorem not_appliesAt_of_mem_subtrees_rewrite (r : Rule) (n : Node) :
    ∀ m ∈ (r.rewrite n).value.subtrees, ¬ r.AppliesAt m := by
  induction n using childInduction with
  | step n ih =>
      intro m hm
      have hstep := r.step_spec (n.mapChildren fun c => (r.rewrite c).value)
      have hbelow : ∀ c ∈ (n.mapChildren fun c => (r.rewrite c).value).children,
          ∀ x ∈ c.subtrees, ¬ r.AppliesAt x := by
        rw [children_mapChildren]
        exact List.forall_mem_map.mpr ih
      rw [value_rewrite] at hm
      rcases Node.mem_subtrees.mp hm with rfl | ⟨d, hd, hmd⟩
      · exact hstep.not_appliesAt hbelow
      · rcases hstep.mem_children hd with hlit | ⟨c, hc, hdc⟩
        · exact not_appliesAt_of_literalBoolean r (literalBoolean_of_mem_subtrees hlit hmd)
        · exact hbelow c hc m (mem_subtrees_trans hmd hdc)

end Rule
end DeadBranch
