import DeadBranch.Proofs.Rewrite.TopDown

/-!
# A run with all rules, read from the top

The three traversals of a run with all rules, one after the other, seen as one
function of the tree. What becomes of a conditional with alternate is said by
`branchesLeft` in terms of its branches as they were.
-/
namespace DeadBranch

namespace Node

/-- The branches that a run with all rules leaves of a conditional with alternate: what it
has as consequent then and, unless that is dropped, as alternate. -/
def branchesLeft (t c a : Node) : Node × Option Node :=
  match t.literalBoolean with
  | some true => (c, if a.isIf then some a else none)
  | some false =>
      match a.fallThrough? with
      | some b => (b, if c.isIf then some c else none)
      | none => (c, some a)
  | none => (c, some a)

theorem branchesLeft_fst (t c a : Node) :
    (branchesLeft t c a).1 = c ∨ a.fallThrough? = some (branchesLeft t c a).1 := by
  unfold branchesLeft
  split
  · exact .inl rfl
  · split
    next h => exact .inr h
    next => exact .inl rfl
  · exact .inl rfl

theorem branchesLeft_snd {t c a b : Node} (h : (branchesLeft t c a).2 = some b) :
    b = c ∨ b = a := by
  unfold branchesLeft at h
  split at h
  · exact .inr (by simp_all)
  · split at h <;> simp_all
  · exact .inr (by simp_all)

/-- What stays behind the `else` of a conditional that is decided is an else-if. -/
theorem isIf_of_branchesLeft_snd {t c a b : Node} (ht : t.literalBoolean.isSome)
    (h : (branchesLeft t c a).2 = some b) : b.isIf := by
  unfold branchesLeft at h
  split at h
  · split at h <;> simp_all
  · split at h
    · split at h <;> simp_all
    next hnone =>
      obtain rfl : a = b := Option.some.inj h
      by_contra hif
      rw [fallThrough?_of_not_isIf hif] at hnone
      cases hnone
  next hopen =>
    rw [hopen] at ht
    cases ht

/-- A conditional whose alternate may be missing. -/
def conditional (s : Span) (t c : Node) : Option Node → Node
  | some a => .ifElse s t c a
  | none => .ifThen s t c

/-- The children that are not dropped, a lifted branch in place of the one it was in. -/
def childrenLeft : Node → List Node
  | .ifElse _ t c a => t :: (branchesLeft t c a).1 :: (branchesLeft t c a).2.toList
  | n => n.children

/-- `m` stands in the tree where a run does not drop it. -/
inductive KeptIn (m : Node) : Node → Prop where
  | root : KeptIn m m
  | child {n c : Node} : c ∈ n.childrenLeft → KeptIn m c → KeptIn m n

/-- A kept child is a child or, where a branch is lifted, a child of a conditional that is one. -/
theorem mem_childrenLeft {c n : Node} (h : c ∈ n.childrenLeft) :
    c ∈ n.children ∨ ∃ d ∈ n.children, d.isIf ∧ c ∈ d.children := by
  cases n with
  | ifElse s t b a =>
      simp only [childrenLeft, List.mem_cons, Option.mem_toList] at h
      have hfst := branchesLeft_fst t b a
      obtain rfl | rfl | h := h
      · exact .inl (by simp [children])
      · generalize (branchesLeft t b a).1 = c at hfst
        obtain rfl | h := hfst
        · exact .inl (by simp [children])
        · obtain ⟨-, rfl⟩ | ⟨s', t', rfl, -⟩ := fallThrough?_eq_some h
          · exact .inl (by simp [children])
          · exact .inr ⟨.ifThen s' t' c, by simp [children], rfl, by simp [children]⟩
      · obtain rfl | rfl := branchesLeft_snd h <;> exact .inl (by simp [children])
  | _ => exact .inl h

theorem keptInduction {P : Node → Prop} (step : ∀ n, (∀ c ∈ n.childrenLeft, P c) → P n)
    (n : Node) : P n := by
  suffices h : P n ∧ ∀ c ∈ n.children, P c from h.1
  induction n using childInduction with
  | step n ih =>
      constructor
      · apply step
        intro c hc
        obtain hc | ⟨d, hd, -, hc⟩ := mem_childrenLeft hc
        · exact (ih c hc).1
        · exact (ih d hd).2 c hc
      · intro c hc
        exact (ih c hc).1

theorem mem_subtrees_of_mem_childrenLeft {m c n : Node} (hc : c ∈ n.childrenLeft)
    (hm : m ∈ c.subtrees) : m ∈ n.subtrees := by
  obtain hc | ⟨d, hd, -, hc⟩ := mem_childrenLeft hc
  · exact mem_subtrees_of_mem_children hc hm
  · exact mem_subtrees_of_mem_children hd (mem_subtrees_of_mem_children hc hm)

theorem KeptIn.mem_subtrees {m n : Node} (h : KeptIn m n) : m ∈ n.subtrees := by
  induction h with
  | root => exact self_mem_subtrees m
  | child hc _ ih => exact mem_subtrees_of_mem_childrenLeft hc ih

/-- Some kept node has the property: the node itself, or one in a child that is left. -/
theorem exists_keptIn_iff {P : Node → Prop} {n : Node} :
    (∃ m, KeptIn m n ∧ P m) ↔ P n ∨ ∃ c ∈ n.childrenLeft, ∃ m, KeptIn m c ∧ P m := by
  constructor
  · rintro ⟨m, hm, h⟩
    cases hm with
    | root => exact .inl h
    | child hc hm => exact .inr ⟨_, hc, m, hm, h⟩
  · rintro (h | ⟨c, hc, m, hm, h⟩)
    · exact ⟨n, .root, h⟩
    · exact ⟨m, .child hc hm, h⟩

end Node

theorem RuleSet.enables_all (r : Rule) : RuleSet.all.enables r := by
  cases r <;> rfl

namespace DeadCode

open Node

/-- What is left to do after flipping. -/
def finished (n : Node) : Node := (Rule.inline.rewrite (Rule.prune.rewrite n).value).value

/-- The tree that a run with all rules leaves. -/
def simplified (n : Node) : Node := (run .all n).program

theorem simplified_eq (n : Node) : simplified n = finished (Rule.flip.rewrite n).value := by
  simp only [simplified, run, RuleSet.rewrite, RuleSet.enables_all, if_true, finished]

theorem literalBoolean_simplified (n : Node) :
    (simplified n).literalBoolean = n.literalBoolean := by
  simp only [simplified_eq, finished, Rule.literalBoolean_rewrite]

theorem not_appliesAt {n : Node} (hif : ¬ n.hasAlternate) (hblock : ¬ n.isBlock) (r : Rule) :
    ¬ r.AppliesAt n := by
  cases n with
  | ifElse s t c a => exact absurd rfl hif
  | block s k stmts => exact absurd rfl hblock
  | _ => cases r <;> exact id

theorem finished_mapChildren {n : Node} (hif : ¬ n.hasAlternate) (hblock : ¬ n.isBlock) :
    finished n = n.mapChildren finished := by
  have hprune := Rule.value_rewrite_of_not_appliesAt (not_appliesAt hif hblock .prune)
  have hinline := Rule.value_rewrite_of_not_appliesAt (r := .inline)
    (n := n.mapChildren fun c => (Rule.prune.rewrite c).value)
    (not_appliesAt (by rwa [hasAlternate_mapChildren]) (by rwa [isBlock_mapChildren]) _)
  rw [finished, hprune, hinline, mapChildren_mapChildren]
  rfl

theorem simplified_mapChildren {n : Node} (hif : ¬ n.hasAlternate) (hblock : ¬ n.isBlock) :
    simplified n = n.mapChildren simplified := by
  rw [simplified_eq, Rule.value_rewrite_of_not_appliesAt (not_appliesAt hif hblock .flip),
    finished_mapChildren (by rwa [hasAlternate_mapChildren]) (by rwa [isBlock_mapChildren]),
    mapChildren_mapChildren]
  exact mapChildren_congr fun c _ => (simplified_eq c).symm

theorem simplified_block (s : Span) (k : Nat) (stmts : List Node) :
    simplified (.block s k stmts) =
      .block s k ((stmts.map simplified).flatMap fun e => (inlineEntry e).value) := by
  have hflip : ¬ Rule.flip.AppliesAt (.block s k stmts) := id
  have hprune (stmts : List Node) : ¬ Rule.prune.AppliesAt (.block s k stmts) := id
  rw [simplified_eq, Rule.value_rewrite_of_not_appliesAt hflip, mapChildren, finished,
    Rule.value_rewrite_of_not_appliesAt (hprune _), mapChildren, Rule.inline_block, List.map_map,
    List.map_map]
  rfl

theorem finished_ifElse_of_true {s : Span} {t c a : Node} (ht : t.literalBoolean = some true) :
    finished (.ifElse s t c a) =
      conditional s (finished t) (finished c)
        ((if a.isIf then some a else none).map finished) := by
  by_cases ha : a.isIf
  · have hprune : ¬ Rule.prune.AppliesAt (.ifElse s t c a) := fun h => h.2 ha
    rw [if_pos ha, finished, Rule.value_rewrite_of_not_appliesAt hprune, mapChildren,
      Rule.inline_ifElse]
    rfl
  · rw [if_neg ha, finished, Rule.prune_of_prunable ht ha, Rule.rewrite_ifThen]
    rfl

theorem finished_ifElse {s : Span} {t c a : Node} (ht : t.literalBoolean ≠ some true) :
    finished (.ifElse s t c a) = .ifElse s (finished t) (finished c) (finished a) := by
  have hprune : ¬ Rule.prune.AppliesAt (.ifElse s t c a) := fun h => ht h.1
  rw [finished, Rule.value_rewrite_of_not_appliesAt hprune, mapChildren, Rule.inline_ifElse]
  rfl

theorem finished_withLiteral (v : Bool) {t : Node} (h : t.literalBoolean.isSome) :
    finished (t.withLiteral v) = (finished t).withLiteral v := by
  rw [finished, Rule.rewrite_withLiteral _ _ h,
    Rule.rewrite_withLiteral _ _ (by rwa [Rule.literalBoolean_rewrite]), finished]

theorem simplified_ifElse_of_fallThrough? {s : Span} {t c a b : Node}
    (ht : t.literalBoolean = some false) (hb : a.fallThrough? = some b) :
    simplified (.ifElse s t c a) =
      conditional s ((simplified t).withLiteral true) (simplified b)
        ((if c.isIf then some c else none).map simplified) := by
  have hlit : (Rule.flip.rewrite t).value.literalBoolean = some false := by
    rw [Rule.literalBoolean_rewrite, ht]
  rw [simplified_eq, Rule.flip_of_fallThrough? ht hb, finished_ifElse_of_true (by simp [hlit]),
    finished_withLiteral _ (by simp [hlit]), Rule.isIf_rewrite]
  simp only [simplified_eq]
  split <;> rfl

theorem simplified_ifElse_of_true {s : Span} {t c a : Node} (ht : t.literalBoolean = some true) :
    simplified (.ifElse s t c a) =
      conditional s (simplified t) (simplified c)
        ((if a.isIf then some a else none).map simplified) := by
  have hstay : ¬ Rule.flip.AppliesAt (.ifElse s t c a) := by
    intro h
    have hfalse := h.1
    rw [ht] at hfalse
    cases hfalse
  rw [simplified_eq, Rule.value_rewrite_of_not_appliesAt hstay, mapChildren,
    finished_ifElse_of_true (by rw [Rule.literalBoolean_rewrite, ht]), Rule.isIf_rewrite]
  simp only [simplified_eq]
  split <;> rfl

theorem simplified_ifElse_of_not_flippable {s : Span} {t c a : Node}
    (ht : t.literalBoolean ≠ some true) (hflip : ¬ (Node.ifElse s t c a).Flippable) :
    simplified (.ifElse s t c a) = .ifElse s (simplified t) (simplified c) (simplified a) := by
  have hstay : ¬ Rule.flip.AppliesAt (.ifElse s t c a) := hflip
  rw [simplified_eq, Rule.value_rewrite_of_not_appliesAt hstay, mapChildren,
    finished_ifElse (by rwa [Rule.literalBoolean_rewrite])]
  simp only [simplified_eq]

/-- The test keeps its spans and parentheses; only the literal's value may change. -/
theorem simplified_ifElse (s : Span) (t c a : Node) :
    ∃ t', (t' = simplified t ∨
        t.literalBoolean = some false ∧ t' = (simplified t).withLiteral true) ∧
      simplified (.ifElse s t c a) =
        conditional s t' (simplified (branchesLeft t c a).1)
          ((branchesLeft t c a).2.map simplified) := by
  by_cases htrue : t.literalBoolean = some true
  · refine ⟨simplified t, .inl rfl, ?_⟩
    rw [simplified_ifElse_of_true htrue]
    simp only [branchesLeft, htrue]
  by_cases hflip : (Node.ifElse s t c a).Flippable
  · obtain ⟨ht, b, hb⟩ := flippable_iff.mp hflip
    refine ⟨(simplified t).withLiteral true, .inr ⟨ht, rfl⟩, ?_⟩
    rw [simplified_ifElse_of_fallThrough? ht hb]
    simp only [branchesLeft, ht, hb]
  · have hleft : branchesLeft t c a = (c, some a) := by
      unfold branchesLeft
      split
      next ht => exact absurd ht htrue
      next ht =>
        split
        next b hb => exact absurd (flippable_iff.mpr ⟨ht, b, hb⟩) hflip
        next => rfl
      next => rfl
    refine ⟨simplified t, .inl rfl, ?_⟩
    rw [simplified_ifElse_of_not_flippable htrue hflip, hleft]
    rfl

end DeadCode
end DeadBranch
