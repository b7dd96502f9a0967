import DeadBranch.Proofs.Rewrite.Progress

/-!
# What rewrites are paid with

A tally counts the conditionals of a tree, those of them that have an alternate, and those
on a literal false. Each rule pays for what it counts out of the tally: every rewrite takes a
unit off the sum of the three numbers. A flip takes it off the false tests and inlining off
the conditionals, one for each rewrite and no more, and inlining leaves the other two numbers
as they are. Places inside an alternate that is dropped later on are paid for as well, since
the alternate takes its own conditionals along.
-/
namespace DeadBranch

/-- Numbers of conditionals, of those with an alternate and of those on a literal false. -/
@[ext]
structure Tally where
  conditionals : Nat
  alternates : Nat
  falseTests : Nat
deriving Repr, DecidableEq

namespace Tally

def zero : Tally := ⟨0, 0, 0⟩

def add (x y : Tally) : Tally :=
  ⟨x.conditionals + y.conditionals, x.alternates + y.alternates, x.falseTests + y.falseTests⟩

def total (x : Tally) : Nat := x.conditionals + x.alternates + x.falseTests

theorem zero_add (x : Tally) : zero.add x = x := by
  ext <;> exact Nat.zero_add _

theorem total_add (x y : Tally) : (x.add y).total = x.total + y.total := by
  simp only [total, add]
  omega

end Tally

namespace Node

def tally (n : Node) : Tally := ⟨n.count isIf, n.count hasAlternate, n.count isFalseIf⟩

/-- The tallies of the trees of a list together. -/
def tallyAll (ns : List Node) : Tally :=
  ⟨(ns.map (count isIf)).sum, (ns.map (count hasAlternate)).sum, (ns.map (count isFalseIf)).sum⟩

/-- What the node itself adds to a tally. -/
def tallyHere (n : Node) : Tally := ⟨n.isIf.toNat, n.hasAlternate.toNat, n.isFalseIf.toNat⟩

theorem tally_eq (n : Node) : n.tally = n.tallyHere.add (tallyAll n.children) := by
  ext
  · exact total_eq (fun m => m.isIf.toNat) n
  · exact total_eq (fun m => m.hasAlternate.toNat) n
  · exact total_eq (fun m => m.isFalseIf.toNat) n

theorem tallyAll_cons (n : Node) (ns : List Node) :
    tallyAll (n :: ns) = n.tally.add (tallyAll ns) := by
  simp only [tallyAll, tally, Tally.add, List.map_cons, List.sum_cons]

theorem tallyAll_append (ns ms : List Node) :
    tallyAll (ns ++ ms) = (tallyAll ns).add (tallyAll ms) := by
  simp only [tallyAll, Tally.add, List.map_append, List.sum_append]

theorem tallyAll_singleton (n : Node) : tallyAll [n] = n.tally := by
  simp only [tallyAll, tally, List.map_singleton, List.sum_singleton]

/-- The weight of a tree is its tally added up. -/
theorem total_tally (n : Node) : n.tally.total = n.weight := by
  unfold Tally.total tally weight count total
  rw [← List.sum_map_add, ← List.sum_map_add]
  rfl

theorem tallyHere_mapChildren {f : Node → Node} {n : Node}
    (h : ∀ c ∈ n.children, (f c).literalBoolean = c.literalBoolean) :
    (n.mapChildren f).tallyHere = n.tallyHere := by
  cases n with
  | ifThen | ifElse => simp_all [mapChildren, children, tallyHere, isIf, hasAlternate, isFalseIf]
  | _ => rfl

theorem tallyHere_of_literalBoolean {t : Node} (h : t.literalBoolean.isSome) :
    t.tallyHere = .zero := by
  cases t with
  | paren | bool => rfl
  | _ => cases h

/-- There is no conditional in a literal test. -/
theorem tally_of_literalBoolean {t : Node} (h : t.literalBoolean.isSome) : t.tally = .zero := by
  ext
  · refine total_of_literalBoolean (fun m hm => ?_) h
    exact congrArg Tally.conditionals (tallyHere_of_literalBoolean hm)
  · refine total_of_literalBoolean (fun m hm => ?_) h
    exact congrArg Tally.alternates (tallyHere_of_literalBoolean hm)
  · refine total_of_literalBoolean (fun m hm => ?_) h
    exact congrArg Tally.falseTests (tallyHere_of_literalBoolean hm)

theorem tally_ifThen_of_literalBoolean {s : Span} {t c : Node} (ht : t.literalBoolean.isSome) :
    (Node.ifThen s t c).tally = (Node.ifThen s t c).tallyHere.add c.tally := by
  rw [tally_eq, children, tallyAll_cons, tallyAll_singleton, tally_of_literalBoolean ht,
    Tally.zero_add]

theorem tally_ifElse_of_literalBoolean {s : Span} {t c a : Node} (ht : t.literalBoolean.isSome) :
    (Node.ifElse s t c a).tally =
      (Node.ifElse s t c a).tallyHere.add (c.tally.add a.tally) := by
  rw [tally_eq, children, tallyAll_cons, tallyAll_cons, tallyAll_singleton,
    tally_of_literalBoolean ht, Tally.zero_add]

theorem tally_block (s : Span) (k : Nat) (stmts : List Node) :
    (Node.block s k stmts).tally = tallyAll stmts := by
  rw [tally_eq]
  exact Tally.zero_add _

/-- What an else-if loses when its body falls through is no false test. -/
theorem falseTests_tally_fallThrough? {a b : Node} (h : a.fallThrough? = some b) :
    b.tally.falseTests = a.tally.falseTests := by
  rcases fallThrough?_eq_some h with ⟨-, rfl⟩ | ⟨s, t, rfl, ht⟩
  · rfl
  · have hhere : (Node.ifThen s t b).isFalseIf.toNat = 0 := by simp [isFalseIf, ht]
    rw [tally_ifThen_of_literalBoolean (by rw [ht]; rfl), Tally.add, tallyHere, hhere, Nat.zero_add]

end Node

namespace Rule

open Node

/-- What the rule does to a tally when it counts `k` rewrites. -/
def PaysFor (r : Rule) (k : Nat) (before after : Tally) : Prop :=
  after.total + k ≤ before.total ∧
    match r with
    | .flip => after.falseTests + k = before.falseTests
    | .prune => True
    | .inline =>
        after.conditionals + k = before.conditionals ∧ after.alternates = before.alternates ∧
          after.falseTests = before.falseTests

namespace PaysFor

variable {r : Rule} {j k : Nat} {x x' y y' z : Tally}

theorem refl (r : Rule) (x : Tally) : r.PaysFor 0 x x := by
  cases r <;> simp [PaysFor]

theorem trans (h : r.PaysFor j x y) (h' : r.PaysFor k y z) : r.PaysFor (j + k) x z := by
  obtain ⟨htotal, h⟩ := h
  obtain ⟨htotal', h'⟩ := h'
  refine ⟨by omega, ?_⟩
  cases r with
  | flip =>
      dsimp only at h h' ⊢
      omega
  | prune => trivial
  | inline =>
      obtain ⟨hif, halt, hfalse⟩ := h
      obtain ⟨hif', halt', hfalse'⟩ := h'
      exact ⟨by omega, halt'.trans halt, hfalse'.trans hfalse⟩

theorem add (h : r.PaysFor j x y) (h' : r.PaysFor k x' y') :
    r.PaysFor (j + k) (x.add x') (y.add y') := by
  obtain ⟨htotal, h⟩ := h
  obtain ⟨htotal', h'⟩ := h'
  refine ⟨by rw [Tally.total_add, Tally.total_add]; omega, ?_⟩
  cases r with
  | flip =>
      dsimp only [Tally.add] at h h' ⊢
      omega
  | prune => trivial
  | inline =>
      obtain ⟨hif, halt, hfalse⟩ := h
      obtain ⟨hif', halt', hfalse'⟩ := h'
      refine ⟨?_, congrArg₂ Nat.add halt halt', congrArg₂ Nat.add hfalse hfalse'⟩
      dsimp only [Tally.add]
      omega

/-- What is paid for each tree of a list is paid for the list. -/
theorem map {f : Node → Node} {g : Node → Nat} {ns : List Node}
    (h : ∀ n ∈ ns, r.PaysFor (g n) n.tally (f n).tally) :
    r.PaysFor (ns.map g).sum (tallyAll ns) (tallyAll (ns.map f)) := by
  induction ns with
  | nil => exact refl r _
  | cons n ns ih =>
      rw [List.forall_mem_cons] at h
      rw [List.map_cons, List.map_cons, List.sum_cons, tallyAll_cons, tallyAll_cons]
      exact h.1.add (ih h.2)

end PaysFor

theorem paysFor_inlineEntry (e : Node) :
    inline.PaysFor (inlineEntry e).count e.tally (tallyAll (inlineEntry e).value) := by
  by_cases h : e.Inlinable
  · obtain ⟨s, t, s', k, stmts, rfl, ht⟩ := h.exists_block
    have hfalse : (Node.ifThen s t (.block s' k stmts)).isFalseIf.toNat = 0 := by
      simp [isFalseIf, ht]
    rw [inlineEntry_ifThen ht, Traced.count_rewrite, Traced.value_rewrite,
      tally_ifThen_of_literalBoolean (by rw [ht]; rfl), tally_block, tallyHere, hfalse]
    refine ⟨?_, ?_, ?_, ?_⟩
    · simp only [Tally.total, Tally.add, isIf, hasAlternate, Bool.toNat_true, Bool.toNat_false]
      omega
    · exact Nat.add_comm _ _
    · exact (Nat.zero_add _).symm
    · exact (Nat.zero_add _).symm
  · rw [inlineEntry_of_not_inlinable h, Traced.count_pure, Traced.value_pure, tallyAll_singleton]
    exact .refl inline _

theorem paysFor_inlineEntries (es : List Node) :
    inline.PaysFor (inlineEntries es).count (tallyAll es) (tallyAll (inlineEntries es).value) := by
  induction es with
  | nil => exact .refl inline _
  | cons e es ih =>
      simp only [inlineEntries, Traced.count_bind, Traced.value_bind, Traced.count_pure,
        Traced.value_pure, Nat.add_zero]
      rw [tallyAll_cons, tallyAll_append]
      exact (paysFor_inlineEntry e).add ih

/-- A step pays for what it counts. -/
theorem Step.paysFor {r : Rule} {n m : Node} {k : Nat} (h : Step r n m k) :
    r.PaysFor k n.tally m.tally := by
  have htotal : m.tally.total + k ≤ n.tally.total := by
    rw [total_tally, total_tally]
    exact h.weight_add_le
  cases h with
  | skip => exact .refl r _
  | @flip s t c a b ht ha =>
      have hlit : (t.withLiteral true).literalBoolean = some true := by simp [ht]
      have hbefore : (Node.ifElse s t c a).isFalseIf.toNat = 1 := by simp [isFalseIf, ht]
      have hafter : (Node.ifElse s (t.withLiteral true) b c).isFalseIf.toNat = 0 := by
        simp [isFalseIf, hlit]
      have hbody := falseTests_tally_fallThrough? ha
      refine ⟨htotal, ?_⟩
      rw [tally_ifElse_of_literalBoolean (by rw [hlit]; rfl),
        tally_ifElse_of_literalBoolean (by rw [ht]; rfl)]
      simp only [Tally.add, tallyHere, hbefore, hafter, hbody]
      omega
  | prune => exact ⟨htotal, trivial⟩
  | @inline s k stmts =>
      rw [tally_block, tally_block, ← value_inlineEntries, ← count_inlineEntries_eq_countP]
      exact paysFor_inlineEntries stmts

theorem paysFor_rewrite (r : Rule) (n : Node) :
    r.PaysFor (r.rewrite n).count n.tally (r.rewrite n).value.tally := by
  induction n using childInduction with
  | step n ih =>
      have hchildren := PaysFor.map ih
      have hbelow : r.PaysFor (n.children.map fun c => (r.rewrite c).count).sum n.tally
          (n.mapChildren fun c => (r.rewrite c).value).tally := by
        have hhere := (PaysFor.refl r n.tallyHere).add hchildren
        rw [tally_eq, tally_eq (n.mapChildren _), children_mapChildren,
          tallyHere_mapChildren fun c _ => r.literalBoolean_rewrite c]
        rwa [Nat.zero_add] at hhere
      rw [value_rewrite, count_rewrite]
      exact hbelow.trans (r.step_spec _).paysFor

/-- The rewrites that a rule counts in a tree, or in a list of trees, are paid for. -/
theorem rewrites_paid_for (r : Rule) :
    (∀ n : Node, r.PaysFor (r.rewrite n).count n.tally (r.rewrite n).value.tally) ∧
      ∀ ns : List Node,
        r.PaysFor (r.rewriteAll ns).count (tallyAll ns) (tallyAll (r.rewriteAll ns).value) := by
  refine ⟨paysFor_rewrite r, fun ns => ?_⟩
  rw [value_rewriteAll, count_rewriteAll]
  exact .map fun n _ => paysFor_rewrite r n

/-- The inner alternate is counted though the outer one takes it along. -/
example (s : Span) :
    let tree : Node := .ifElse s (.bool s true) (.block s 0 [])
      (.block s 1 [.ifElse s (.bool s true) (.block s 2 []) (.block s 3 [])])
    (prune.rewrite tree).count = 2 ∧ tree.tally = ⟨2, 2, 0⟩ ∧
      (prune.rewrite tree).value.tally = ⟨1, 0, 0⟩ := ⟨rfl, rfl, rfl⟩

end Rule
end DeadBranch
