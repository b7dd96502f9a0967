import DeadBranch.Proofs.Pipeline.RunUntilStable

/-!
# Where a run stops

Every transformer of a pipeline with the program that it gets to work on if none before
it puts an end to the run: `handovers` says this of the transformers alone, without the
run. A run makes these calls in order and once each, up to the first that fails; that
call has its effect on the program and on its transformer, and of those behind it
nothing is seen. So a pipeline in two parts is the one part and then, if all went well,
the other.
-/
namespace DeadBranch.Pipeline

variable {τ ε : Type} [Transformer τ ε]

/-- A transformer and the program that it gets to work on. -/
structure Handover (τ : Type) where
  transformer : τ
  program : Node
deriving Repr, DecidableEq

namespace Handover

def call (h : Handover τ) : Call τ ε := Transformer.transform h.transformer h.program

def Succeeds (h : Handover τ) : Prop := h.call.outcome = .ok ()

/-- What a run puts on record for the call: that it is due, and what it logs itself. -/
def log (h : Handover τ) : List Event := .running (Transformer.name h.transformer) :: h.call.log

end Handover

/-- Every transformer with the program that the one before it left. -/
def handovers : List τ → Node → List (Handover τ)
  | [], _ => []
  | t :: ts, program => ⟨t, program⟩ :: handovers ts (Transformer.transform t program).program

/-- The program that the last of some calls left. -/
def programAfter (program : Node) (calls : List (Handover τ)) : Node :=
  calls.foldl (fun _ h => h.call.program) program

/-- The transformers that a log announces. -/
def announced (log : List Event) : List String :=
  log.filterMap fun
    | .running name => some name
    | _ => none

/-- A run with one more successful call in front of it. -/
def Run.behind (h : Handover τ) (rest : Run τ ε Unit) : Run τ ε Unit :=
  ⟨rest.outcome, h.call.state :: rest.transformers, rest.program, h.log ++ rest.log⟩

/-- A run and then, unless it has failed, the run of further transformers. -/
def Run.andThen (first : Run τ ε Unit) (ts : List τ) : Run τ ε Unit :=
  match first.outcome with
  | .ok () =>
      let rest := run ts first.program
      ⟨rest.outcome, first.transformers ++ rest.transformers, rest.program,
        first.log ++ rest.log⟩
  | .error _ => { first with transformers := first.transformers ++ ts }

/-- How a run ends that made the calls `done`, failed in the next and made none of the rest. -/
structure StoppedBy (done : List (Handover τ)) (h : Handover τ) (rest : List (Handover τ))
    (cause : ε) (r : Run τ ε Unit) : Prop where
  outcome_eq : r.outcome = .error (.inTransformer (Transformer.name h.call.state) cause)
  chain_eq : ∀ f describe, r.outcome = .error f →
    f.chain describe = ["in transformer " ++ Transformer.name h.call.state, describe cause]
  transformers_eq : r.transformers =
    (done ++ [h]).map (fun d => d.call.state) ++ rest.map Handover.transformer
  program_eq : r.program = h.call.program
  log_eq : r.log = (done ++ [h]).flatMap Handover.log
  /-- Transformers that announce nothing themselves are announced by the run, one for each call. -/
  announced_eq : (∀ d ∈ done ++ [h], announced d.call.log = []) →
    announced r.log = (done ++ [h]).map fun d => Transformer.name d.transformer

section Calls
variable {t : τ} {ts : List τ} {program : Node}

theorem run_cons_of_ok (h : (Transformer.transform t program).outcome = .ok ()) :
    run (t :: ts) program =
      (run ts (Transformer.transform t program).program).behind ⟨t, program⟩ := by
  rw [run]
  simp only [h]
  rfl

theorem run_cons_of_error {cause : ε}
    (h : (Transformer.transform t program).outcome = .error cause) :
    run (t :: ts) program =
      ⟨.error (.inTransformer (Transformer.name (Transformer.transform t program).state) cause),
        (Transformer.transform t program).state :: ts, (Transformer.transform t program).program,
        (Handover.mk t program).log⟩ := by
  rw [run]
  simp only [h]
  rfl

theorem handovers_cons (t : τ) (ts : List τ) (program : Node) :
    handovers (t :: ts) program =
      ⟨t, program⟩ :: handovers ts (Transformer.transform t program).program := rfl

/-- No transformer is passed over, and none comes twice. -/
theorem map_transformer_handovers (ts : List τ) (program : Node) :
    (handovers ts program).map Handover.transformer = ts := by
  induction ts generalizing program with
  | nil => rfl
  | cons t ts ih => rw [handovers_cons, List.map_cons, ih]

theorem outcome_run_eq_ok :
    (run ts program).outcome = .ok () ↔ ∀ h ∈ handovers ts program, h.Succeeds := by
  induction ts generalizing program with
  | nil => exact iff_of_true rfl nofun
  | cons t ts ih =>
      rw [handovers_cons, List.forall_mem_cons]
      cases hout : (Transformer.transform t program).outcome with
      | ok =>
          have hfirst : (Handover.mk t program).Succeeds := hout
          rw [run_cons_of_ok hout]
          exact ih.trans (iff_and_self.mpr fun _ => hfirst)
      | error cause =>
          have hfirst : ¬ (Handover.mk t program).Succeeds := by
            unfold Handover.Succeeds Handover.call
            rw [hout]
            nofun
          rw [run_cons_of_error hout]
          exact iff_of_false nofun fun h => hfirst h.1

theorem run_of_succeeds (h : ∀ h ∈ handovers ts program, h.Succeeds) :
    run ts program =
      ⟨.ok (), (handovers ts program).map fun h => h.call.state,
        programAfter program (handovers ts program),
        (handovers ts program).flatMap Handover.log⟩ := by
  induction ts generalizing program with
  | nil => rfl
  | cons t ts ih =>
      rw [handovers_cons, List.forall_mem_cons] at h
      have hout : (Transformer.transform t program).outcome = .ok () := h.1
      rw [run_cons_of_ok hout, ih h.2]
      rfl

/-- The calls before the first that fails, this one, and nothing else. -/
theorem run_of_first_error {done : List (Handover τ)} {h : Handover τ}
    {rest : List (Handover τ)} {cause : ε} (hsplit : handovers ts program = done ++ h :: rest)
    (hdone : ∀ d ∈ done, d.Succeeds) (hfail : h.call.outcome = .error cause) :
    run ts program =
      ⟨.error (.inTransformer (Transformer.name h.call.state) cause),
        (done ++ [h]).map (fun d => d.call.state) ++ rest.map Handover.transformer,
        h.call.program, (done ++ [h]).flatMap Handover.log⟩ := by
  induction ts generalizing program done with
  | nil => simp [handovers] at hsplit
  | cons t ts ih =>
      rw [handovers_cons] at hsplit
      cases done with
      | nil =>
          rw [List.nil_append, List.cons.injEq] at hsplit
          rcases hsplit with ⟨rfl, rfl⟩
          rw [run_cons_of_error hfail, map_transformer_handovers]
          simp [Handover.log, Handover.call]
      | cons d done =>
          rw [List.cons_append, List.cons.injEq] at hsplit
          rcases hsplit with ⟨rfl, hsplit⟩
          rw [List.forall_mem_cons] at hdone
          have hout : (Transformer.transform t program).outcome = .ok () := hdone.1
          rw [run_cons_of_ok hout, ih hsplit hdone.2]
          rfl

theorem behind_andThen (h : Handover τ) (first : Run τ ε Unit) (us : List τ) :
    (first.andThen us).behind h = (first.behind h).andThen us := by
  unfold Run.andThen Run.behind
  dsimp only
  split <;> simp only [List.cons_append, List.append_assoc]

theorem run_append (ts us : List τ) (program : Node) :
    run (ts ++ us) program = (run ts program).andThen us := by
  induction ts generalizing program with
  | nil => rfl
  | cons t ts ih =>
      rw [List.cons_append]
      cases hout : (Transformer.transform t program).outcome with
      | ok =>
          rw [run_cons_of_ok hout, run_cons_of_ok hout, ih, behind_andThen]
      | error cause =>
          rw [run_cons_of_error hout, run_cons_of_error hout]
          rfl

end Calls

theorem announced_flatMap_log {calls : List (Handover τ)}
    (h : ∀ d ∈ calls, announced d.call.log = []) :
    announced (calls.flatMap Handover.log) =
      calls.map fun d => Transformer.name d.transformer := by
  induction calls with
  | nil => rfl
  | cons d calls ih =>
      rw [List.forall_mem_cons] at h
      have hcall : announced d.log = [Transformer.name d.transformer] := by
        change Transformer.name d.transformer :: announced d.call.log = _
        rw [h.1]
      have hrest := ih h.2
      unfold announced at hcall hrest ⊢
      rw [List.flatMap_cons, List.filterMap_append, hcall, hrest]
      rfl

/-- A run succeeds if all its calls do; if not it ends with the first that fails, whose effect
stays. A pipeline in two parts runs the second if the first succeeds. -/
theorem run_stops_at_first_error (ts : List τ) (program : Node) :
    (handovers ts program).map Handover.transformer = ts ∧
      ((run ts program).outcome = .ok () ↔ ∀ h ∈ handovers ts program, h.Succeeds) ∧
      ((∀ h ∈ handovers ts program, h.Succeeds) →
        run ts program =
          ⟨.ok (), (handovers ts program).map fun h => h.call.state,
            programAfter program (handovers ts program),
            (handovers ts program).flatMap Handover.log⟩) ∧
      (∀ done h rest cause, handovers ts program = done ++ h :: rest →
        (∀ d ∈ done, d.Succeeds) → h.call.outcome = .error cause →
          StoppedBy done h rest cause (run ts program)) ∧
      ∀ us, run (ts ++ us) program = (run ts program).andThen us := by
  refine ⟨map_transformer_handovers ts program, outcome_run_eq_ok, run_of_succeeds, ?_,
    fun us => run_append ts us program⟩
  intro done h rest cause hsplit hdone hfail
  rw [run_of_first_error hsplit hdone hfail]
  refine ⟨rfl, ?_, rfl, rfl, rfl, announced_flatMap_log⟩
  intro f describe hf
  cases hf
  rfl

def widen : Stage := .ofEdit "widen" .touch none

/-- Refuses its first call. -/
def refuse : Stage := .ofEdit "strict" (.fail "refused" (some 1)) none

def extend : Stage := .ofEdit "extend" .append none

def widenedModule : Node := .ofParts .moduleProgram [.span ⟨1, 2⟩, .list [], .absent]

/-- The edit in the middle fails when the program has been changed already; without it both other
edits are made. -/
theorem run_stops_at_first_error_refused :
    (handovers [widen, refuse, extend] emptyModule =
          [⟨widen, emptyModule⟩] ++ ⟨refuse, widenedModule⟩ :: [⟨extend, widenedModule⟩] ∧
        (∀ d ∈ [Handover.mk widen emptyModule], d.Succeeds) ∧
        (Handover.mk refuse widenedModule).call.outcome = .error "refused" ∧
        StoppedBy [⟨widen, emptyModule⟩] ⟨refuse, widenedModule⟩ [⟨extend, widenedModule⟩] "refused"
          (run [widen, refuse, extend] emptyModule)) ∧
      (∀ h ∈ handovers [widen, extend] emptyModule, h.Succeeds) ∧
        run [widen, extend] emptyModule =
          ⟨.ok (), (handovers [widen, extend] emptyModule).map fun h => h.call.state,
            programAfter emptyModule (handovers [widen, extend] emptyModule),
            (handovers [widen, extend] emptyModule).flatMap Handover.log⟩ := by
  have hdone : ∀ d ∈ [Handover.mk widen emptyModule], d.Succeeds :=
    List.forall_mem_singleton.mpr rfl
  have hboth : ∀ h ∈ handovers [widen, extend] emptyModule, h.Succeeds :=
    List.forall_mem_cons.mpr ⟨rfl, List.forall_mem_singleton.mpr rfl⟩
  refine ⟨⟨rfl, hdone, rfl, ?_⟩, hboth, ?_⟩
  · exact (run_stops_at_first_error [widen, refuse, extend] emptyModule).2.2.2.1
      [⟨widen, emptyModule⟩] ⟨refuse, widenedModule⟩ [⟨extend, widenedModule⟩] "refused"
      rfl hdone rfl
  · exact (run_stops_at_first_error [widen, extend] emptyModule).2.2.1 hboth

end DeadBranch.Pipeline
