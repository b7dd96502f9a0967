import DeadBranch.Proofs.Pipeline.Passes
import DeadBranch.Proofs.Rewrite.Chains

/-!
# How many rounds a pass with all rules takes

A pipeline that is one dead code pass with all rules changes the program in at
most as many rounds as its longest else-if chain has links. How deep blocks,
functions and conditionals are nested in the branches makes no difference, for a
round works on all of them at once.
-/
namespace DeadBranch

theorem DeadCode.program_run_of_enables {rules : RuleSet} (hall : ∀ r, rules.enables r)
    (n : Node) : (DeadCode.run rules n).program = DeadCode.simplified n := by
  simp only [DeadCode.simplified, DeadCode.run, RuleSet.rewrite, hall, RuleSet.enables_all]

namespace Pipeline

open DeadCode Node

variable {pass : DeadCode} {program : Node}

theorem program_before_singleton (hall : ∀ r, pass.rules.enables r) (k : Nat) (program : Node) :
    (before k [pass] program).2 = simplified^[k] program := by
  induction k generalizing pass program with
  | zero => rfl
  | succ k ih =>
      have hprogram : (run [pass] program).program = simplified program := by
        rw [program_run_cons, program_run_of_enables hall]
        rfl
      have hpass : (run [pass] program).transformers =
          [{ pass with stats := (DeadCode.run pass.rules program).stats }] := rfl
      rw [before, hprogram, hpass, Function.iterate_succ_apply]
      apply ih
      exact hall

/-- The round after those that the longest chain takes changes nothing. -/
theorem not_changes_longestChain (hall : ∀ r, pass.rules.enables r) (program : Node) :
    ¬ Changes program.longestChain [pass] program := by
  rintro ⟨-, hdiff⟩
  apply hdiff
  rw [round]
  apply program_run_of_not_appliesAt
  intro r _
  rw [program_before_singleton hall]
  exact not_appliesAt_iterate_simplified program r

/-- A pass with all rules comes to rest within as many rounds as the longest chain has links. -/
theorem runUntilStable_within_longestChain (pass : DeadCode) (program : Node)
    (hall : ∀ r, pass.rules.enables r) {maxRounds : Nat}
    (h : program.longestChain < maxRounds) :
    ∃ k ≤ program.longestChain, (runUntilStable maxRounds [pass] program).outcome = .ok k := by
  apply exists_outcome_eq_ok_of_forall_le _ h
  intro k hch
  by_contra hlt
  exact not_changes_longestChain hall program (hch _ (Nat.lt_of_not_le hlt))

/-- Every round can be needed: each of three links waits for the one behind it, and the block in
the first branch has chains of its own. -/
def threeLinks : Node :=
  let empty : Node := .block ⟨0, 0⟩ 0 []
  let link (value : Bool) (branch alternate : Node) : Node :=
    .ifElse ⟨0, 0⟩ (.bool ⟨0, 0⟩ value) branch alternate
  .block ⟨0, 0⟩ 0
    [link false (.block ⟨0, 0⟩ 0 [link false empty empty, link false empty (link true empty empty)])
      (link false empty (link false empty empty))]

theorem threeLinks_within_longestChain :
    (∀ r, ({} : DeadCode).rules.enables r) ∧ threeLinks.longestChain = 3 ∧
      (runUntilStable 4 [({} : DeadCode)] threeLinks).outcome = .ok 3 ∧
        ∃ k ≤ threeLinks.longestChain,
          (runUntilStable 4 [({} : DeadCode)] threeLinks).outcome = .ok k := by
  have hall : ∀ r, ({} : DeadCode).rules.enables r := RuleSet.enables_all
  have hlen : threeLinks.longestChain = 3 := rfl
  refine ⟨hall, hlen, rfl, ?_⟩
  exact runUntilStable_within_longestChain {} threeLinks hall (by rw [hlen]; decide)

end Pipeline
end DeadBranch
