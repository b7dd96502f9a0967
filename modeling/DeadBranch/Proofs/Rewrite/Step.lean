import DeadBranch.Proofs.Rewrite.Traversal

/-!
# What one step of a rule does

The places a rule rewrites, said without the rule: `Flippable` and `Prunable`
conditionals, and `Inlinable` entries of a block. `Rule.Step` lists everything a
step can do at a node and how many rewrites it counts; what holds of all steps
is proved from it by cases. In particular a step neither makes nor destroys a
literal boolean, a conditional or a block, so that a node shows its parent the
same face before and after a traversal. `face` is that with all else that a node
has besides its children.
-/
namespace DeadBranch

/-- A node without its children. -/
inductive Face where
  | conditional (span : Span)
  | block (span : Span) (scope : Nat)
  | staticBlock (span bodySpan : Span) (scope : Nat)
  | paren (span : Span)
  | bool (span : Span) (value : Bool)
  | other (label : Label)
deriving Repr, DecidableEq

/-- The label of a node of a passed-through kind. -/
def Face.label? : Face → Option Label
  | .other l => some l
  | _ => none

namespace Node

/-- An `if (false)` whose alternate is plain, or a bare `else if (true)`. -/
def Flippable : Node → Prop
  | .ifElse _ t _ a =>
      t.literalBoolean = some false ∧
        (¬ a.isIf ∨ ∃ s t' c, a = .ifThen s t' c ∧ t'.literalBoolean = some true)
  | _ => False

/-- An `if (true)` with a plain alternate. -/
def Prunable : Node → Prop
  | .ifElse _ t _ a => t.literalBoolean = some true ∧ ¬ a.isIf
  | _ => False

/-- An `if (true)` without alternate over a block, as far as the statement itself goes. -/
def Inlinable : Node → Prop
  | .ifThen _ t c => t.literalBoolean = some true ∧ c.isBlock
  | _ => False

theorem fallThrough?_of_not_isIf {a : Node} (h : ¬ a.isIf) : a.fallThrough? = some a := by
  cases a <;> simp_all [isIf, fallThrough?]

theorem fallThrough?_eq_some {a b : Node} (h : a.fallThrough? = some b) :
    (¬ a.isIf ∧ b = a) ∨ ∃ s t, a = .ifThen s t b ∧ t.literalBoolean = some true := by
  cases a with
  | ifThen s t c =>
      simp only [fallThrough?, Option.ite_none_right_eq_some, Option.some.injEq] at h
      exact .inr ⟨s, t, by rw [h.2], h.1⟩
  | _ => simp_all [isIf, fallThrough?]

theorem flippable_iff {s : Span} {t c a : Node} :
    (Node.ifElse s t c a).Flippable ↔
      t.literalBoolean = some false ∧ ∃ b, a.fallThrough? = some b := by
  simp only [Flippable]
  refine and_congr_right fun _ => ⟨?_, ?_⟩
  · rintro (h | ⟨s, t', c, rfl, h⟩)
    · exact ⟨a, fallThrough?_of_not_isIf h⟩
    · exact ⟨c, by simp [fallThrough?, h]⟩
  · rintro ⟨b, h⟩
    obtain ⟨h, -⟩ | ⟨s, t', rfl, ht'⟩ := fallThrough?_eq_some h
    · exact .inl h
    · exact .inr ⟨s, t', b, rfl, ht'⟩

instance : DecidablePred Flippable
  | .ifElse _ t _ a =>
      decidable_of_iff (t.literalBoolean = some false ∧ a.fallThrough?.isSome)
        (by rw [flippable_iff, Option.isSome_iff_exists])
  | .ifThen .. | .block .. | .staticBlock .. | .paren .. | .bool .. | .other .. => isFalse id

instance : DecidablePred Prunable
  | .ifElse _ t _ a => inferInstanceAs (Decidable (t.literalBoolean = some true ∧ ¬ a.isIf))
  | .ifThen .. | .block .. | .staticBlock .. | .paren .. | .bool .. | .other .. => isFalse id

instance : DecidablePred Inlinable
  | .ifThen _ t c => inferInstanceAs (Decidable (t.literalBoolean = some true ∧ c.isBlock))
  | .ifElse .. | .block .. | .staticBlock .. | .paren .. | .bool .. | .other .. => isFalse id

theorem inlinable?_eq_none {n : Node} : n.inlinable? = none ↔ ¬ n.Inlinable := by
  cases n with
  | ifThen s t c => cases c <;> simp [inlinable?, Inlinable, isBlock]
  | _ => simp [inlinable?, Inlinable]

theorem inlineEntry_of_not_inlinable {n : Node} (h : ¬ n.Inlinable) : inlineEntry n = pure [n] := by
  simp [inlineEntry, inlinable?_eq_none.mpr h]

theorem inlineEntry_ifThen {s s' : Span} {t : Node} {k : Nat} {stmts : List Node}
    (h : t.literalBoolean = some true) :
    inlineEntry (.ifThen s t (.block s' k stmts)) = .rewrite (.inlined s stmts.length) stmts := by
  simp [inlineEntry, inlinable?, h]

theorem Inlinable.isIf {n : Node} (h : n.Inlinable) : n.isIf := by
  cases n with
  | ifThen s t c => rfl
  | _ => exact h.elim

/-- An inlinable statement, taken apart. -/
theorem Inlinable.exists_block {n : Node} (h : n.Inlinable) :
    ∃ s t s' k stmts, n = .ifThen s t (.block s' k stmts) ∧ t.literalBoolean = some true := by
  obtain ⟨s, t, c, rfl⟩ : ∃ s t c, n = .ifThen s t c := by
    cases n <;> simp_all [Inlinable]
  obtain ⟨ht, hc⟩ := h
  cases c with
  | block s' k stmts => exact ⟨s, t, s', k, stmts, rfl, ht⟩
  | _ => simp [isBlock] at hc

/-- A flippable conditional, taken apart. -/
theorem Flippable.exists_ifElse {n : Node} (h : n.Flippable) :
    ∃ s t c a b, n = .ifElse s t c a ∧ t.literalBoolean = some false ∧
      a.fallThrough? = some b := by
  cases n with
  | ifElse s t c a =>
      rcases flippable_iff.mp h with ⟨ht, b, hb⟩
      exact ⟨s, t, c, a, b, rfl, ht, hb⟩
  | _ => exact h.elim

/-- A prunable conditional, taken apart. -/
theorem Prunable.exists_ifElse {n : Node} (h : n.Prunable) :
    ∃ s t c a, n = .ifElse s t c a ∧ t.literalBoolean = some true ∧ ¬ a.isIf := by
  cases n with
  | ifElse s t c a => exact ⟨s, t, c, a, rfl, h⟩
  | _ => exact h.elim

theorem count_inlineEntry (n : Node) :
    (inlineEntry n).count = if n.Inlinable then 1 else 0 := by
  split
  next h =>
    obtain ⟨s, t, s', k, stmts, rfl, ht⟩ := h.exists_block
    rw [inlineEntry_ifThen ht, Traced.count_rewrite]
  next h => rw [inlineEntry_of_not_inlinable h, Traced.count_pure]

theorem count_inlineEntries_eq_countP (ns : List Node) :
    (inlineEntries ns).count = ns.countP fun n => n.Inlinable := by
  induction ns with
  | nil => rfl
  | cons n ns ih =>
      rw [inlineEntries, Traced.count_bind, Traced.count_bind, Traced.count_pure, ih,
        count_inlineEntry, List.countP_cons]
      simp only [decide_eq_true_eq]
      omega

/-- A conditional with an alternate. -/
def hasAlternate : Node → Bool
  | .ifElse .. => true
  | _ => false

theorem fallThrough?_of_hasAlternate {a : Node} (h : a.hasAlternate) : a.fallThrough? = none := by
  cases a <;> simp_all [hasAlternate, fallThrough?]

/-- What belongs to a node itself: its type, its spans and all else that is not a child. Whether a
conditional has an alternate is left out. -/
def face : Node → Face
  | .ifThen s _ _ | .ifElse s _ _ _ => .conditional s
  | .block s k _ => .block s k
  | .staticBlock s b k _ => .staticBlock s b k
  | .paren s _ => .paren s
  | .bool s v => .bool s v
  | .other l _ => .other l

def label? (n : Node) : Option Label := n.face.label?

theorem face_mapChildren (f : Node → Node) (n : Node) : (n.mapChildren f).face = n.face := by
  cases n <;> rfl

theorem isIf_mapChildren (f : Node → Node) (n : Node) : (n.mapChildren f).isIf = n.isIf := by
  cases n <;> rfl

theorem isBlock_mapChildren (f : Node → Node) (n : Node) :
    (n.mapChildren f).isBlock = n.isBlock := by
  cases n <;> rfl

theorem hasAlternate_mapChildren (f : Node → Node) (n : Node) :
    (n.mapChildren f).hasAlternate = n.hasAlternate := by
  cases n <;> rfl

/-- Only the inside of parentheses matters to a literal boolean. -/
theorem literalBoolean_mapChildren {f : Node → Node} {n : Node}
    (h : ∀ c ∈ n.children, (f c).literalBoolean = c.literalBoolean) :
    (n.mapChildren f).literalBoolean = n.literalBoolean := by
  cases n <;> simp_all [mapChildren, children, literalBoolean]

/-- A literal boolean is parentheses all the way down to the literal. -/
theorem literalBoolean_of_mem_subtrees {t m : Node} (h : t.literalBoolean.isSome)
    (hm : m ∈ t.subtrees) : m.literalBoolean.isSome := by
  fun_induction literalBoolean t with
  | case1 s e ih =>
      simp only [subtrees, List.mem_cons] at hm
      obtain rfl | hm := hm
      · exact h
      · exact ih h hm
  | case2 s v =>
      simp only [subtrees, List.mem_singleton] at hm
      rw [hm]
      rfl
  | case3 => cases h

theorem not_exists_mem_subtrees_of_literalBoolean {P : Node → Prop}
    (hP : ∀ t, t.literalBoolean.isSome → ¬ P t) (t : Node) (h : t.literalBoolean.isSome) :
    ¬ ∃ m ∈ t.subtrees, P m := by
  rintro ⟨m, hm, hPm⟩
  exact hP m (literalBoolean_of_mem_subtrees h hm) hPm

/-- What no literal boolean has on its own does not add up in one. -/
theorem total_of_literalBoolean {f : Node → Nat} (hf : ∀ t, t.literalBoolean.isSome → f t = 0)
    {t : Node} (h : t.literalBoolean.isSome) : t.total f = 0 := by
  rw [total_eq_zero]
  intro m hm
  exact hf m (literalBoolean_of_mem_subtrees h hm)

theorem not_isIf_of_mem_subtrees {t : Node} (h : t.literalBoolean.isSome) :
    ∀ m ∈ t.subtrees, ¬ m.isIf := by
  intro m hm hif
  have hlit := literalBoolean_of_mem_subtrees h hm
  cases m <;> simp_all [isIf, literalBoolean]

end Node

namespace Rule

open Node

/-- How many places of the node itself the rule rewrites. -/
def places : Rule → Node → Nat
  | .flip, n => if n.Flippable then 1 else 0
  | .prune, n => if n.Prunable then 1 else 0
  | .inline, .block _ _ stmts => stmts.countP fun e => e.Inlinable
  | .inline, _ => 0

/-- The rule has something to rewrite at the node itself. -/
def AppliesAt : Rule → Node → Prop
  | .flip, n => n.Flippable
  | .prune, n => n.Prunable
  | .inline, .block _ _ stmts => ∃ e ∈ stmts, e.Inlinable
  | .inline, _ => False

theorem places_eq_zero {r : Rule} {n : Node} : r.places n = 0 ↔ ¬ r.AppliesAt n := by
  cases r with
  | inline => cases n <;> simp [places, AppliesAt, List.countP_eq_zero]
  | _ => simp [places, AppliesAt]

/-- `Step r n m k`: at the node `n`, its children done, the rule puts `m` and counts `k`. -/
inductive Step : Rule → Node → Node → Nat → Prop where
  | skip {r : Rule} {n : Node} : ¬ r.AppliesAt n → Step r n n 0
  | flip {s : Span} {t c a b : Node} : t.literalBoolean = some false →
      a.fallThrough? = some b →
      Step .flip (.ifElse s t c a) (.ifElse s (t.withLiteral true) b c) 1
  | prune {s : Span} {t c a : Node} : t.literalBoolean = some true → ¬ a.isIf →
      Step .prune (.ifElse s t c a) (.ifThen s t c) 1
  | inline {s : Span} {k : Nat} {stmts : List Node} :
      Step .inline (.block s k stmts)
        (.block s k (stmts.flatMap fun e => (inlineEntry e).value))
        (stmts.countP fun e => e.Inlinable)

theorem step_spec (r : Rule) (n : Node) : Step r n (r.step n).value (r.step n).count := by
  cases r with
  | flip =>
      cases n with
      | ifElse s t c a =>
          by_cases ht : t.literalBoolean = some false
          · cases ha : a.fallThrough? with
            | some b =>
                simp only [step, flipStep, ht, ha, if_true]
                exact .flip ht ha
            | none =>
                simp only [step, flipStep, ht, ha, if_true]
                exact .skip fun (h : (Node.ifElse s t c a).Flippable) => by
                  simp [flippable_iff, ha] at h
          · simp only [step, flipStep, ht, if_false]
            exact .skip fun h => ht h.1
      | _ => exact .skip id
  | prune =>
      cases n with
      | ifElse s t c a =>
          by_cases h : t.literalBoolean = some true ∧ ¬ a.isIf
          · simp only [step, pruneStep, if_pos h]
            exact .prune h.1 h.2
          · simp only [step, pruneStep, if_neg h]
            exact .skip h
      | _ => exact .skip id
  | inline =>
      cases n with
      | block s k stmts =>
          have h : Step .inline (.block s k stmts) _ _ := .inline
          rw [← value_inlineEntries, ← count_inlineEntries_eq_countP] at h
          exact h
      | _ => exact .skip id

variable {r : Rule} {n m : Node} {k : Nat}

theorem Step.count_eq (h : Step r n m k) : k = r.places n := by
  cases h with
  | skip h => exact (places_eq_zero.mpr h).symm
  | flip ht ha => exact (if_pos (flippable_iff.mpr ⟨ht, _, ha⟩)).symm
  | prune ht ha => exact (if_pos ⟨ht, ha⟩).symm
  | inline => rfl

/-- A step that counts nothing does nothing. -/
theorem Step.eq_of_count_eq_zero (h : Step r n m k) (hk : k = 0) : m = n := by
  cases h with
  | skip => rfl
  | flip | prune => cases hk
  | @inline s k stmts =>
      have hentry : ∀ e ∈ stmts, (inlineEntry e).value = [e] := by
        intro e he
        have hne : ¬ e.Inlinable := by simpa using List.countP_eq_zero.mp hk e he
        rw [inlineEntry_of_not_inlinable hne, Traced.value_pure]
      rw [List.flatMap_congr hentry, List.flatMap_singleton']

theorem value_step_of_not_appliesAt (h : ¬ r.AppliesAt n) : (r.step n).value = n :=
  (step_spec r n).eq_of_count_eq_zero ((step_spec r n).count_eq.trans (places_eq_zero.mpr h))

theorem Step.face_eq (h : Step r n m k) : m.face = n.face := by
  cases h <;> rfl

theorem Step.isIf_eq (h : Step r n m k) : m.isIf = n.isIf := by
  cases h <;> rfl

theorem Step.isBlock_eq (h : Step r n m k) : m.isBlock = n.isBlock := by
  cases h <;> rfl

/-- Alternates are only ever removed by pruning. -/
theorem Step.hasAlternate_eq (hr : r ≠ .prune) (h : Step r n m k) :
    m.hasAlternate = n.hasAlternate := by
  cases h with
  | prune => exact absurd rfl hr
  | skip | flip | inline => rfl

theorem Step.literalBoolean_eq (h : Step r n m k) : m.literalBoolean = n.literalBoolean := by
  cases h <;> rfl

end Rule
end DeadBranch
