import DeadBranch.Proofs.Pipeline.Passes
import DeadBranch.Proofs.Rewrite.NormalForm

/-!
# Stable programs

A pipeline of dead code passes comes to rest after at most three changing rounds
for each conditional of the program, and where it rests no rule it enables has
anything left to do. Such a program is the normal form of the one the pipeline
was given, for the rules that it enables, so neither the order of the passes nor
how the rules are spread over them shows in the result.
-/
namespace DeadBranch.Pipeline

open Node

variable {ts : List DeadCode} {program : Node}

/-- Each round that changes the program takes at least one unit off its weight. -/
theorem weight_before_add_le {k : Nat} (h : ChangesBelow k ts program) :
    (before k ts program).2.weight + k ≤ program.weight := by
  induction k with
  | zero => exact Nat.le_refl _
  | succ k ih =>
      have hbelow := ih fun j hj => h j (Nat.lt_succ_of_lt hj)
      have hround := weight_run_add_counted_le (before k ts program).1 (before k ts program).2
      have hcounted : counted (round k ts program).transformers ≠ 0 := fun hzero =>
        (h k (Nat.lt_succ_self k)).2
          (program_run_of_not_appliesAt (idle_of_counted_eq_zero hzero).2)
      rw [before_succ]
      simp only [round] at hcounted ⊢
      omega

/-- A pipeline of passes that came to rest: the passes report nothing, no rule they
enable has a place in the program, and another run leaves it as it is. -/
structure AtRest (ts : List DeadCode) (rest : Run DeadCode Empty Nat) : Prop where
  stats_eq : ∀ t ∈ rest.transformers, t.stats = {}
  not_appliesAt : ∀ t ∈ ts, ∀ r, t.rules.enables r →
    ∀ m ∈ rest.program.subtrees, ¬ r.AppliesAt m
  program_run : (run rest.transformers rest.program).program = rest.program

/-- An answer means rest, however many rounds were allowed. -/
theorem atRest_runUntilStable {maxRounds k : Nat}
    (h : (runUntilStable maxRounds ts program).outcome = .ok k) :
    AtRest ts (runUntilStable maxRounds ts program) := by
  cases runRounds_ending maxRounds 0 ts program with
  | @stable k _ _ _ _ hsame _ hts hp =>
      have hidle := idle_of_counted_eq_zero (counted_eq_zero_of_program_run_eq hsame)
      rw [runUntilStable]
      constructor
      · rw [hts]
        exact hidle.1
      · rw [hp, hsame]
        intro t ht r hr
        apply hidle.2 r
        rw [enables_before]
        exact List.any_eq_true.mpr ⟨t, ht, hr⟩
      · rw [hts, hp, hsame]
        apply program_run_of_not_appliesAt
        rw [round, enables_run]
        exact hidle.2
  | failed _ _ hout => rw [outcome_round] at hout; cases hout
  | exhausted _ hout =>
      rw [runUntilStable, hout] at h
      cases h

/-- A pipeline of passes comes to rest within as many rounds as the program weighs. -/
theorem exists_outcome_eq_ok (ts : List DeadCode) {maxRounds : Nat}
    (h : program.weight < maxRounds) :
    ∃ k ≤ program.weight, (runUntilStable maxRounds ts program).outcome = .ok k := by
  refine exists_outcome_eq_ok_of_forall_le (fun k hch => ?_) h
  have hle := weight_before_add_le hch
  omega

/-- Pipelines of passes converge. -/
theorem runUntilStable_converges (ts : List DeadCode) (program : Node) {maxRounds : Nat}
    (h : 3 * program.count isIf < maxRounds) :
    ∃ k ≤ 3 * program.count isIf, (runUntilStable maxRounds ts program).outcome = .ok k ∧
      AtRest ts (runUntilStable maxRounds ts program) := by
  have hweight := program.weight_le
  obtain ⟨k, hk, hout⟩ := exists_outcome_eq_ok ts (Nat.lt_of_le_of_lt hweight h)
  exact ⟨k, Nat.le_trans hk hweight, hout, atRest_runUntilStable hout⟩

/-- A chain whose last alternate has to go before the whole can be turned round. -/
def nestedChain : Node :=
  .block ⟨1, 60⟩ 0
    [.ifElse ⟨3, 58⟩ (.bool ⟨7, 12⟩ false) (.block ⟨14, 20⟩ 0 [])
      (.ifElse ⟨26, 58⟩ (.bool ⟨30, 34⟩ true) (.block ⟨36, 42⟩ 0 []) (.block ⟨48, 58⟩ 0 []))]

def allAtOnce : List DeadCode := [{}]

theorem nestedChain_converges :
    3 * nestedChain.count isIf < 7 ∧
      ∃ k ≤ 3 * nestedChain.count isIf,
        (runUntilStable 7 allAtOnce nestedChain).outcome = .ok k ∧
          AtRest allAtOnce (runUntilStable 7 allAtOnce nestedChain) :=
  ⟨by decide, runUntilStable_converges allAtOnce nestedChain (by decide)⟩

/-- A pipeline that comes to rest leaves the normal form for the rules it enables. -/
theorem program_runUntilStable {maxRounds k : Nat}
    (h : (runUntilStable maxRounds ts program).outcome = .ok k) :
    (runUntilStable maxRounds ts program).program = program.normalForm (enables ts) := by
  have hnormal := runUntilStable_preserves
    (P := fun n => n.normalForm (enables ts) = program.normalForm (enables ts))
    (fun r hr n hn => (normalForm_rewrite hr n).trans hn) rfl maxRounds
  rw [← hnormal, normalForm_of_not_appliesAt]
  intro r hr
  obtain ⟨t, ht, hr⟩ := List.any_eq_true.mp hr
  exact (atRest_runUntilStable h).not_appliesAt t ht r hr

/-- Pipelines that enable the same rules come to rest in the same program. -/
theorem runUntilStable_unique {ts us : List DeadCode} (program : Node)
    (hrules : ∀ r, (∃ t ∈ ts, t.rules.enables r) ↔ ∃ u ∈ us, u.rules.enables r)
    {maxRounds maxRounds' k k' : Nat}
    (ht : (runUntilStable maxRounds ts program).outcome = .ok k)
    (hu : (runUntilStable maxRounds' us program).outcome = .ok k') :
    (runUntilStable maxRounds ts program).program =
      (runUntilStable maxRounds' us program).program := by
  have henables : enables ts = enables us := by
    funext r
    rw [Bool.eq_iff_iff]
    simpa only [enables, List.any_eq_true] using hrules r
  rw [program_runUntilStable ht, program_runUntilStable hu, henables]

/-- The rules against their order. -/
def oneByOne : List DeadCode :=
  [{ rules := .single .inline }, { rules := .single .prune }, { rules := .single .flip }]

/-- It takes two rounds with all rules in a pass, three with one rule in each. -/
theorem nestedChain_unique :
    (runUntilStable 7 allAtOnce nestedChain).outcome = .ok 2 ∧
      (runUntilStable 4 oneByOne nestedChain).outcome = .ok 3 ∧
        (runUntilStable 7 allAtOnce nestedChain).program =
          (runUntilStable 4 oneByOne nestedChain).program := by
  have hall : (runUntilStable 7 allAtOnce nestedChain).outcome = .ok 2 := rfl
  have hone : (runUntilStable 4 oneByOne nestedChain).outcome = .ok 3 := rfl
  exact ⟨hall, hone, runUntilStable_unique nestedChain (by intro r; cases r <;> decide) hall hone⟩

end DeadBranch.Pipeline
