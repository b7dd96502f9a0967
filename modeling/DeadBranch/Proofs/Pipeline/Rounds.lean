import DeadBranch.Pipeline.Basic

/-!
# The rounds of a pipeline

The successive runs of a pipeline, numbered from zero, each starting from what
the one before it left. `runUntilStable` goes through them in order and ends
with the first that fails or changes nothing, if one of the allowed rounds does;
nothing else can happen, whatever the transformers do.
-/
namespace DeadBranch.Pipeline

variable {τ ε : Type} [Transformer τ ε]

/-- The transformers and the program that the round with this number starts from. -/
def before : Nat → List τ → Node → List τ × Node
  | 0, ts, program => (ts, program)
  | k + 1, ts, program =>
      before k (run ts program).transformers (run ts program).program

/-- The round with this number. -/
def round (k : Nat) (ts : List τ) (program : Node) : Run τ ε Unit :=
  run (before k ts program).1 (before k ts program).2

theorem round_succ (k : Nat) (ts : List τ) (program : Node) :
    round (k + 1) ts program =
      round k (run ts program).transformers (run ts program).program := rfl

theorem before_succ (k : Nat) (ts : List τ) (program : Node) :
    before (k + 1) ts program =
      ((round k ts program).transformers, (round k ts program).program) := by
  induction k generalizing ts program with
  | zero => rfl
  | succ k ih => rw [before, ih, round_succ]

/-- The round succeeds and leaves another program than it found. -/
def Changes (k : Nat) (ts : List τ) (program : Node) : Prop :=
  (round k ts program).outcome = .ok () ∧
    (round k ts program).program ≠ (before k ts program).2

/-- All rounds before the one with this number succeed and change the program. -/
def ChangesBelow (k : Nat) (ts : List τ) (program : Node) : Prop :=
  ∀ j < k, Changes j ts program

theorem changesBelow_zero (ts : List τ) (program : Node) : ChangesBelow 0 ts program := by
  intro j hj
  cases hj

theorem changesBelow_succ {k : Nat} {ts : List τ} {program : Node} (h : Changes 0 ts program) :
    ChangesBelow (k + 1) ts program ↔
      ChangesBelow k (run ts program).transformers (run ts program).program := by
  constructor
  · intro hk j hj
    exact hk (j + 1) (Nat.succ_lt_succ hj)
  · intro hk j hj
    cases j with
    | zero => exact h
    | succ j => exact hk j (Nat.lt_of_succ_lt_succ hj)

/-- How a sequence of rounds can end, when `done` rounds lie behind it and `left` ahead. -/
inductive Ending (left done : Nat) (ts : List τ) (program : Node) : Run τ ε Nat → Prop where
  | stable {k : Nat} {r : Run τ ε Nat} : k < left → ChangesBelow k ts program →
      (round k ts program).outcome = .ok () →
      (round k ts program).program = (before k ts program).2 →
      r.outcome = .ok (done + k) → r.transformers = (round k ts program).transformers →
      r.program = (round k ts program).program → Ending left done ts program r
  | failed {k : Nat} {f : Failure ε} {r : Run τ ε Nat} : k < left →
      ChangesBelow k ts program → (round k ts program).outcome = .error f →
      r.outcome = .error f → r.transformers = (round k ts program).transformers →
      r.program = (round k ts program).program → Ending left done ts program r
  | exhausted {r : Run τ ε Nat} : ChangesBelow left ts program →
      r.outcome = .error (.unstable (done + left)) →
      r.transformers = (before left ts program).1 →
      r.program = (before left ts program).2 → Ending left done ts program r

theorem runRounds_ending (left done : Nat) (ts : List τ) (program : Node) :
    Ending left done ts program (runRounds left done ts program) := by
  induction left generalizing done ts program with
  | zero => exact .exhausted (changesBelow_zero ts program) rfl rfl rfl
  | succ left ih =>
      rw [runRounds]
      cases hout : (run ts program).outcome with
      | error f =>
          exact .failed (Nat.succ_pos left) (changesBelow_zero ts program) hout rfl rfl rfl
      | ok =>
          dsimp only
          split
          next hsame =>
              exact .stable (Nat.succ_pos left) (changesBelow_zero ts program) hout hsame rfl rfl
                rfl
          next hdiff =>
              have h0 : Changes 0 ts program := ⟨hout, hdiff⟩
              have hdone (k : Nat) : done + 1 + k = done + (k + 1) := by omega
              cases ih (done + 1) (run ts program).transformers (run ts program).program with
              | stable hk hch hok heq hr ht hp =>
                  exact .stable (Nat.succ_lt_succ hk) ((changesBelow_succ h0).mpr hch) hok heq
                    (hr.trans (by rw [hdone])) ht hp
              | failed hk hch hok hr ht hp =>
                  exact .failed (Nat.succ_lt_succ hk) ((changesBelow_succ h0).mpr hch) hok hr ht hp
              | exhausted hch hr ht hp =>
                  exact .exhausted ((changesBelow_succ h0).mpr hch) (hr.trans (by rw [hdone])) ht hp

end DeadBranch.Pipeline
