import DeadBranch.Pipeline.DeadCode
import DeadBranch.Proofs.Pipeline.Rounds
import DeadBranch.Proofs.Rewrite.Progress

/-!
# Pipelines of dead code passes

A pipeline whose transformers are all dead code passes never fails and keeps the
rules of its passes. Whatever each of the rules it enables preserves, every
number of its rounds preserves. What its passes count in a round is taken off
the program's weight, so a round that leaves the program as it was has counted
nothing, and no enabled rule has anything left to do.
-/
namespace DeadBranch

/-- How many rewrites the counts add up to. -/
def Stats.total (s : Stats) : Nat := s.flipped + s.removed + s.inlined

theorem Stats.eq_of_total_eq_zero {s : Stats} (h : s.total = 0) : s = {} := by
  obtain ⟨f, r, i⟩ := s
  simp only [Stats.total] at h
  obtain ⟨rfl, rfl, rfl⟩ : f = 0 ∧ r = 0 ∧ i = 0 := by omega
  rfl

namespace RuleSet

theorem weight_rewrite_add_count_le (rules : RuleSet) (r : Rule) (n : Node) :
    (rules.rewrite r n).value.weight + (rules.rewrite r n).count ≤ n.weight := by
  unfold rewrite
  split
  · exact r.weight_rewrite_add_count_le n
  · exact Nat.le_refl _

theorem value_rewrite_of_count_eq_zero {rules : RuleSet} {r : Rule} {n : Node}
    (h : (rules.rewrite r n).count = 0) : (rules.rewrite r n).value = n := by
  by_cases hr : rules.enables r
  · rw [rewrite, if_pos hr] at h ⊢
    exact Rule.value_rewrite_of_count_eq_zero h
  · rw [rewrite, if_neg hr, Traced.value_pure]

theorem count_rewrite_of_enables {rules : RuleSet} {r : Rule} (hr : rules.enables r) (n : Node) :
    (rules.rewrite r n).count = (r.rewrite n).count := by
  rw [rewrite, if_pos hr]

end RuleSet

namespace DeadCode

variable {rules : RuleSet} {n : Node}

/-- What all enabled rules preserve, a run of the pass preserves. -/
theorem run_preserves {P : Node → Prop}
    (h : ∀ r, rules.enables r → ∀ n, P n → P (r.rewrite n).value) (hn : P n) :
    P (run rules n).program := by
  have hrule (r : Rule) {n : Node} (hn : P n) : P (rules.rewrite r n).value := by
    unfold RuleSet.rewrite
    split
    next hr => exact h r hr n hn
    next => exact hn
  exact hrule .inline (hrule .prune (hrule .flip hn))

theorem weight_run_add_total_le (rules : RuleSet) (n : Node) :
    (run rules n).program.weight + (run rules n).stats.total ≤ n.weight := by
  have hf := rules.weight_rewrite_add_count_le .flip n
  have hp := rules.weight_rewrite_add_count_le .prune (rules.rewrite .flip n).value
  have hi := rules.weight_rewrite_add_count_le .inline
    (rules.rewrite .prune (rules.rewrite .flip n).value).value
  simp only [run, Stats.total]
  omega

/-- A run that counts nothing gives back the tree it was given. -/
theorem program_run_of_total_eq_zero (h : (run rules n).stats.total = 0) :
    (run rules n).program = n := by
  simp only [run, Stats.total, Nat.add_eq_zero_iff] at h ⊢
  have hf := RuleSet.value_rewrite_of_count_eq_zero h.1.1
  have hp := RuleSet.value_rewrite_of_count_eq_zero h.1.2
  have hi := RuleSet.value_rewrite_of_count_eq_zero h.2
  rw [hi, hp, hf]

/-- A run that counts nothing has found no place for any of its rules. -/
theorem not_appliesAt_of_total_eq_zero (h : (run rules n).stats.total = 0) {r : Rule}
    (hr : rules.enables r) : ∀ m ∈ n.subtrees, ¬ r.AppliesAt m := by
  rw [← Rule.count_rewrite_eq_zero, ← RuleSet.count_rewrite_of_enables hr]
  simp only [run, Stats.total, Nat.add_eq_zero_iff] at h
  have hf := RuleSet.value_rewrite_of_count_eq_zero h.1.1
  have hp := RuleSet.value_rewrite_of_count_eq_zero h.1.2
  rw [hp, hf] at h
  cases r with
  | flip => exact h.1.1
  | prune => exact h.1.2
  | inline => exact h.2

end DeadCode

namespace Pipeline

/-- Some pass of the pipeline applies the rule. -/
def enables (ts : List DeadCode) (r : Rule) : Bool := ts.any fun t => t.rules.enables r

variable {ts : List DeadCode} {program : Node}

theorem enables_cons {t : DeadCode} {r : Rule} :
    enables (t :: ts) r ↔ t.rules.enables r ∨ enables ts r := by
  simp [enables]

theorem program_run_cons (t : DeadCode) (ts : List DeadCode) (program : Node) :
    (run (t :: ts) program).program = (run ts (DeadCode.run t.rules program).program).program := rfl

theorem transformers_run_cons (t : DeadCode) (ts : List DeadCode) (program : Node) :
    (run (t :: ts) program).transformers =
      { t with stats := (DeadCode.run t.rules program).stats } ::
        (run ts (DeadCode.run t.rules program).program).transformers := rfl

theorem outcome_run (ts : List DeadCode) (program : Node) : (run ts program).outcome = .ok () := by
  induction ts generalizing program with
  | nil => rfl
  | cons t ts ih => exact ih (DeadCode.run t.rules program).program

/-- Passes keep their rules. -/
theorem enables_run (ts : List DeadCode) (program : Node) :
    enables (run ts program).transformers = enables ts := by
  induction ts generalizing program with
  | nil => rfl
  | cons t ts ih =>
      funext r
      have h := congrFun (ih (DeadCode.run t.rules program).program) r
      rw [transformers_run_cons, enables, List.any_cons, ← enables, h]
      rfl

section Preserves
variable {P : Node → Prop}

theorem run_preserves (h : ∀ r, enables ts r → ∀ n, P n → P (r.rewrite n).value)
    (hp : P program) : P (run ts program).program := by
  induction ts generalizing program with
  | nil => exact hp
  | cons t ts ih =>
      rw [program_run_cons]
      apply ih fun r hr => h r (enables_cons.mpr (.inr hr))
      exact DeadCode.run_preserves (fun r hr => h r (enables_cons.mpr (.inl hr))) hp

theorem enables_before (k : Nat) (ts : List DeadCode) (program : Node) :
    enables (before k ts program).1 = enables ts := by
  induction k generalizing ts program with
  | zero => rfl
  | succ k ih => rw [before, ih, enables_run]

/-- What all enabled rules preserve, any number of rounds preserves. -/
theorem before_preserves (h : ∀ r, enables ts r → ∀ n, P n → P (r.rewrite n).value)
    (hp : P program) (k : Nat) : P (before k ts program).2 := by
  induction k with
  | zero => exact hp
  | succ k ih =>
      rw [before_succ]
      exact run_preserves (by rwa [enables_before]) ih

theorem outcome_round (k : Nat) (ts : List DeadCode) (program : Node) :
    (round k ts program).outcome = .ok () := outcome_run _ _

theorem runUntilStable_preserves (h : ∀ r, enables ts r → ∀ n, P n → P (r.rewrite n).value)
    (hp : P program) (maxRounds : Nat) : P (runUntilStable maxRounds ts program).program := by
  have hround (k : Nat) : P (round k ts program).program := by
    simpa only [before_succ] using before_preserves h hp (k + 1)
  cases runRounds_ending maxRounds 0 ts program with
  | stable _ _ _ _ _ _ hr => exact hr ▸ hround _
  | failed _ _ _ _ _ hr => exact hr ▸ hround _
  | exhausted _ _ _ hr => exact hr ▸ before_preserves h hp _

end Preserves

/-- All counts of one round together. -/
def counted (ts : List DeadCode) : Nat := (ts.map fun t => t.stats.total).sum

theorem weight_run_add_counted_le (ts : List DeadCode) (program : Node) :
    (run ts program).program.weight + counted (run ts program).transformers ≤ program.weight := by
  induction ts generalizing program with
  | nil => exact Nat.le_refl _
  | cons t ts ih =>
      have hhere := DeadCode.weight_run_add_total_le t.rules program
      have hrest := ih (DeadCode.run t.rules program).program
      rw [program_run_cons, transformers_run_cons, counted, List.map_cons, List.sum_cons, ← counted]
      dsimp only
      omega

/-- Where a round has counted nothing, its passes report nothing and its rules have no place. -/
theorem idle_of_counted_eq_zero (h : counted (run ts program).transformers = 0) :
    (∀ t ∈ (run ts program).transformers, t.stats = {}) ∧
      ∀ r, enables ts r → ∀ m ∈ program.subtrees, ¬ r.AppliesAt m := by
  induction ts with
  | nil =>
      refine ⟨?_, ?_⟩
      · intro t ht
        cases ht
      · intro r hr
        cases hr
  | cons t ts ih =>
      rw [transformers_run_cons, counted, List.map_cons, List.sum_cons, ← counted,
        Nat.add_eq_zero_iff] at h
      rw [transformers_run_cons]
      have hsame := DeadCode.program_run_of_total_eq_zero h.1
      rw [hsame] at h ⊢
      obtain ⟨hstats, hplaces⟩ := ih h.2
      refine ⟨List.forall_mem_cons.mpr ⟨Stats.eq_of_total_eq_zero h.1, hstats⟩, fun r hr => ?_⟩
      obtain hr | hr := enables_cons.mp hr
      · exact DeadCode.not_appliesAt_of_total_eq_zero h.1 hr
      · exact hplaces r hr

/-- Where no enabled rule has a place, a round gives back the program it was given. -/
theorem program_run_of_not_appliesAt
    (h : ∀ r, enables ts r → ∀ m ∈ program.subtrees, ¬ r.AppliesAt m) :
    (run ts program).program = program := by
  refine run_preserves (P := (· = program)) (fun r hr n hn => ?_) rfl
  rw [hn]
  exact Rule.value_rewrite_of_forall_not_appliesAt (h r hr)

/-- A round that gives back the program it was given has counted nothing: passes cannot
undo each other's work. -/
theorem counted_eq_zero_of_program_run_eq (h : (run ts program).program = program) :
    counted (run ts program).transformers = 0 := by
  have hw := weight_run_add_counted_le ts program
  rw [h] at hw
  omega

/-- Where only so many rounds can change the program, one more is enough for an answer. -/
theorem exists_outcome_eq_ok_of_forall_le {bound maxRounds : Nat}
    (hbound : ∀ k, ChangesBelow k ts program → k ≤ bound) (h : bound < maxRounds) :
    ∃ k ≤ bound, (runUntilStable maxRounds ts program).outcome = .ok k := by
  cases runRounds_ending maxRounds 0 ts program with
  | @stable k _ _ hch _ _ hout =>
      exact ⟨k, hbound k hch, by rw [runUntilStable, hout, Nat.zero_add]⟩
  | failed _ _ hout => rw [outcome_round] at hout; cases hout
  | exhausted hch => exact absurd (hbound maxRounds hch) (Nat.not_le_of_lt h)

end Pipeline
end DeadBranch
