import DeadBranch.Pipeline.Stage
import DeadBranch.Proofs.Pipeline.Rounds

/-!
# Which round ends the repetition

`runUntilStable` read off the numbered rounds: it ends with the first round that
leaves the program as it found it or fails, if there is one among those allowed,
and otherwise with the last allowed round. The transformers and the program are
the ones that this round left, and the log is that of the rounds up to it, so no
round is run after it. Nothing is asked of the transformers; they may keep a
state, answer the same program differently from call to call, and fail at will.
-/
namespace DeadBranch.Pipeline

variable {τ ε : Type} [Transformer τ ε]

/-- The round succeeds and leaves the program as it found it. -/
def Rests (k : Nat) (ts : List τ) (program : Node) : Prop :=
  (round k ts program).outcome = .ok () ∧
    (round k ts program).program = (before k ts program).2

/-- The round fails in this way. -/
def Fails (f : Failure ε) (k : Nat) (ts : List τ) (program : Node) : Prop :=
  (round k ts program).outcome = .error f

/-- What all rounds before the one with this number have logged. -/
def logBefore (k : Nat) (ts : List τ) (program : Node) : List Event :=
  (List.range k).flatMap fun j => (round j ts program).log

theorem logBefore_succ (k : Nat) (ts : List τ) (program : Node) :
    logBefore (k + 1) ts program =
      (run ts program).log ++
        logBefore k (run ts program).transformers (run ts program).program := by
  rw [logBefore, List.range_succ_eq_map, List.flatMap_cons, List.flatMap_map]
  rfl

theorem logBefore_succ' (k : Nat) (ts : List τ) (program : Node) :
    logBefore (k + 1) ts program = logBefore k ts program ++ (round k ts program).log := by
  rw [logBefore, List.range_succ, List.flatMap_append, List.flatMap_singleton, logBefore]

/-- A run has no notion of too many rounds. -/
theorem outcome_run_ne_unstable (n : Nat) (ts : List τ) (program : Node) :
    (run ts program).outcome ≠ .error (.unstable n) := by
  induction ts generalizing program with
  | nil => nofun
  | cons t ts ih =>
      rw [run]
      dsimp only
      split
      · exact ih _
      · nofun

section Exits
variable {ts : List τ} {program : Node} {k maxRounds : Nat} {f : Failure ε}

/-- Rounds that change the program are left behind one by one. -/
theorem runRounds_add (left done : Nat) (h : ChangesBelow k ts program) :
    runRounds (k + left) done ts program =
      let rest := runRounds left (done + k) (before k ts program).1 (before k ts program).2
      ⟨rest.outcome, rest.transformers, rest.program, logBefore k ts program ++ rest.log⟩ := by
  induction k generalizing done ts program with
  | zero => rw [Nat.zero_add]; rfl
  | succ k ih =>
      have hfirst : Changes 0 ts program := h 0 (Nat.succ_pos k)
      have hok : (run ts program).outcome = .ok () := hfirst.1
      have hdiff : (run ts program).program ≠ program := hfirst.2
      have hrest := ih (done + 1) ((changesBelow_succ hfirst).mp h)
      rw [Nat.succ_add, runRounds]
      simp only [hok, if_neg hdiff]
      rw [hrest, logBefore_succ, before, Nat.add_right_comm done 1 k, Nat.add_assoc done k 1]
      simp only [List.append_assoc]

theorem runUntilStable_of_rests (hk : k < maxRounds) (hch : ChangesBelow k ts program)
    (h : Rests k ts program) :
    runUntilStable maxRounds ts program =
      ⟨.ok k, (round k ts program).transformers, (round k ts program).program,
        logBefore (k + 1) ts program ++ [.stable k]⟩ := by
  obtain ⟨left, rfl⟩ := Nat.exists_eq_add_of_lt hk
  have hok : (run (before k ts program).1 (before k ts program).2).outcome = .ok () := h.1
  have hsame : (run (before k ts program).1 (before k ts program).2).program =
      (before k ts program).2 := h.2
  rw [runUntilStable, Nat.add_assoc, runRounds_add _ 0 hch, Nat.zero_add, runRounds]
  simp only [hok, if_pos hsame, logBefore_succ', round, List.append_assoc]

theorem runUntilStable_of_fails (hk : k < maxRounds) (hch : ChangesBelow k ts program)
    (h : Fails f k ts program) :
    runUntilStable maxRounds ts program =
      ⟨.error f, (round k ts program).transformers, (round k ts program).program,
        logBefore (k + 1) ts program⟩ := by
  obtain ⟨left, rfl⟩ := Nat.exists_eq_add_of_lt hk
  have hfail : (run (before k ts program).1 (before k ts program).2).outcome = .error f := h
  rw [runUntilStable, Nat.add_assoc, runRounds_add _ 0 hch, Nat.zero_add, runRounds]
  simp only [hfail, logBefore_succ', round]

theorem runUntilStable_of_changesBelow (hch : ChangesBelow maxRounds ts program) :
    runUntilStable maxRounds ts program =
      ⟨.error (.unstable maxRounds), (before maxRounds ts program).1,
        (before maxRounds ts program).2, logBefore maxRounds ts program⟩ := by
  have h := runRounds_add 0 0 hch
  rw [Nat.add_zero, Nat.zero_add, runRounds] at h
  rw [runUntilStable, h]
  simp only [List.append_nil]

end Exits

/-- One of the allowed rounds is the first that does not change the program, or none is. -/
theorem exists_rests_or_fails_or_changesBelow (maxRounds : Nat) (ts : List τ) (program : Node) :
    (∃ k < maxRounds, ChangesBelow k ts program ∧ Rests k ts program) ∨
      (∃ k < maxRounds, ChangesBelow k ts program ∧ ∃ f, Fails f k ts program) ∨
        ChangesBelow maxRounds ts program := by
  cases runRounds_ending maxRounds 0 ts program with
  | stable hk hch hok hsame => exact .inl ⟨_, hk, hch, hok, hsame⟩
  | failed hk hch hfail => exact .inr (.inl ⟨_, hk, hch, _, hfail⟩)
  | exhausted hch => exact .inr (.inr hch)

theorem outcome_runUntilStable_eq_ok {maxRounds k : Nat} {ts : List τ} {program : Node} :
    (runUntilStable maxRounds ts program).outcome = .ok k ↔
      k < maxRounds ∧ ChangesBelow k ts program ∧ Rests k ts program := by
  constructor
  · intro h
    obtain ⟨j, hj, hch, hrest⟩ | ⟨j, hj, hch, f, hfail⟩ | hch :=
      exists_rests_or_fails_or_changesBelow maxRounds ts program
    · rw [runUntilStable_of_rests hj hch hrest] at h
      obtain rfl : j = k := Except.ok.inj h
      exact ⟨hj, hch, hrest⟩
    · rw [runUntilStable_of_fails hj hch hfail] at h
      cases h
    · rw [runUntilStable_of_changesBelow hch] at h
      cases h
  · rintro ⟨hk, hch, hrest⟩
    rw [runUntilStable_of_rests hk hch hrest]

theorem outcome_runUntilStable_eq_inTransformer {maxRounds : Nat} {ts : List τ} {program : Node}
    {name : String} {cause : ε} :
    (runUntilStable maxRounds ts program).outcome = .error (.inTransformer name cause) ↔
      ∃ j < maxRounds, ChangesBelow j ts program ∧
        Fails (.inTransformer name cause) j ts program := by
  constructor
  · intro h
    obtain ⟨j, hj, hch, hrest⟩ | ⟨j, hj, hch, f, hfail⟩ | hch :=
      exists_rests_or_fails_or_changesBelow maxRounds ts program
    · rw [runUntilStable_of_rests hj hch hrest] at h
      cases h
    · rw [runUntilStable_of_fails hj hch hfail] at h
      obtain rfl : f = .inTransformer name cause := Except.error.inj h
      exact ⟨j, hj, hch, hfail⟩
    · rw [runUntilStable_of_changesBelow hch] at h
      cases h
  · rintro ⟨j, hj, hch, hfail⟩
    rw [runUntilStable_of_fails hj hch hfail]

theorem outcome_runUntilStable_eq_unstable {maxRounds n : Nat} {ts : List τ} {program : Node} :
    (runUntilStable maxRounds ts program).outcome = .error (.unstable n) ↔
      n = maxRounds ∧ ChangesBelow maxRounds ts program := by
  constructor
  · intro h
    obtain ⟨j, hj, hch, hrest⟩ | ⟨j, hj, hch, f, hfail⟩ | hch :=
      exists_rests_or_fails_or_changesBelow maxRounds ts program
    · rw [runUntilStable_of_rests hj hch hrest] at h
      cases h
    · rw [runUntilStable_of_fails hj hch hfail] at h
      obtain rfl : f = .unstable n := Except.error.inj h
      exact absurd hfail (outcome_run_ne_unstable n _ _)
    · rw [runUntilStable_of_changesBelow hch] at h
      cases h
      exact ⟨rfl, hch⟩
  · rintro ⟨rfl, hch⟩
    rw [runUntilStable_of_changesBelow hch]

/-- An answer does not depend on how many rounds more were allowed. -/
theorem runUntilStable_eq_of_le {maxRounds maxRounds' k : Nat} {ts : List τ} {program : Node}
    (hle : maxRounds ≤ maxRounds')
    (h : (runUntilStable maxRounds ts program).outcome = .ok k) :
    runUntilStable maxRounds' ts program = runUntilStable maxRounds ts program := by
  obtain ⟨hk, hch, hrest⟩ := outcome_runUntilStable_eq_ok.mp h
  rw [runUntilStable_of_rests hk hch hrest,
    runUntilStable_of_rests (Nat.lt_of_lt_of_le hk hle) hch hrest]

/-- Each of the three ways to end, by the rounds that lead there; the run as the round that
ended it left it; and that more rounds make no difference to an answer. -/
theorem runUntilStable_exact (maxRounds : Nat) (ts : List τ) (program : Node) :
    (∀ k, (runUntilStable maxRounds ts program).outcome = .ok k ↔
        k < maxRounds ∧ ChangesBelow k ts program ∧ Rests k ts program) ∧
      (∀ name cause,
        (runUntilStable maxRounds ts program).outcome = .error (.inTransformer name cause) ↔
          ∃ j < maxRounds, ChangesBelow j ts program ∧
            Fails (.inTransformer name cause) j ts program) ∧
      (∀ n, (runUntilStable maxRounds ts program).outcome = .error (.unstable n) ↔
        n = maxRounds ∧ ChangesBelow maxRounds ts program) ∧
      ((∃ k < maxRounds, ChangesBelow k ts program ∧ Rests k ts program ∧
          runUntilStable maxRounds ts program =
            ⟨.ok k, (round k ts program).transformers, (round k ts program).program,
              logBefore (k + 1) ts program ++ [.stable k]⟩) ∨
        (∃ j < maxRounds, ∃ f, ChangesBelow j ts program ∧ Fails f j ts program ∧
          runUntilStable maxRounds ts program =
            ⟨.error f, (round j ts program).transformers, (round j ts program).program,
              logBefore (j + 1) ts program⟩) ∨
        (ChangesBelow maxRounds ts program ∧
          runUntilStable maxRounds ts program =
            ⟨.error (.unstable maxRounds), (before maxRounds ts program).1,
              (before maxRounds ts program).2, logBefore maxRounds ts program⟩)) ∧
      ∀ k maxRounds', (runUntilStable maxRounds ts program).outcome = .ok k →
        maxRounds ≤ maxRounds' →
          runUntilStable maxRounds' ts program = runUntilStable maxRounds ts program := by
  refine ⟨fun k => outcome_runUntilStable_eq_ok,
    fun name cause => outcome_runUntilStable_eq_inTransformer,
    fun n => outcome_runUntilStable_eq_unstable, ?_, ?_⟩
  · obtain ⟨k, hk, hch, hrest⟩ | ⟨j, hj, hch, f, hfail⟩ | hch :=
      exists_rests_or_fails_or_changesBelow maxRounds ts program
    · exact .inl ⟨k, hk, hch, hrest, runUntilStable_of_rests hk hch hrest⟩
    · exact .inr (.inl ⟨j, hj, f, hch, hfail, runUntilStable_of_fails hj hch hfail⟩)
    · exact .inr (.inr ⟨hch, runUntilStable_of_changesBelow hch⟩)
  · intro k maxRounds' h hle
    exact runUntilStable_eq_of_le hle h

/-- A transformer whose third call does nothing: what it answers depends on its state. -/
def touchTwice : List Stage := [.ofEdit "touch" .touch (some 2)]

def emptyModule : Node := .ofParts .moduleProgram [.span ⟨1, 1⟩, .list [], .absent]

/-- Two rounds are too few, and all numbers from three on give the same. -/
theorem runUntilStable_exact_touchTwice :
    (runUntilStable 2 touchTwice emptyModule).outcome = .error (.unstable 2) ∧
      (runUntilStable 3 touchTwice emptyModule).outcome = .ok 2 ∧
        ∀ maxRounds ≥ 3, runUntilStable maxRounds touchTwice emptyModule =
          runUntilStable 3 touchTwice emptyModule := by
  have hfew : (runUntilStable 2 touchTwice emptyModule).outcome = .error (.unstable 2) := rfl
  have hok : (runUntilStable 3 touchTwice emptyModule).outcome = .ok 2 := rfl
  refine ⟨hfew, hok, ?_⟩
  intro maxRounds hle
  exact (runUntilStable_exact 3 touchTwice emptyModule).2.2.2.2 2 maxRounds hok hle

end DeadBranch.Pipeline
