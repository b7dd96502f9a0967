import DeadBranch.Proofs.Pipeline.FirstFailure
import DeadBranch.Proofs.Pipeline.Passes

/-!
# Positions decide nothing

A relabelling puts other spans into a tree, by any function of the old ones: all spans
may become the same. Rules, runs of the pass and pipelines of passes do to a relabelled
tree what they do to the tree itself, as often, and log it at the new spans. A pipeline
compares whole programs, spans included, to find out whether a round has changed
anything. That round counts its rewrites, and what it counts a relabelling does not
touch; so spans that have become the same do not make it stop early.
-/
namespace DeadBranch

variable (f : Span → Span)

def Datum.relabel : Datum → Datum
  | .span s => .span (f s)
  | d => d

def Slot.relabel : Slot → Slot
  | .datum d => .datum (d.relabel f)
  | s => s

def Label.relabel (l : Label) : Label := { l with slots := l.slots.map (Slot.relabel f) }

def Event.relabel : Event → Event
  | .chainContinues s => .chainContinues (f s)
  | .flipped s => .flipped (f s)
  | .removed s => .removed (f s)
  | .inlined s length => .inlined (f s) length
  | e => e

namespace Node

mutual

/-- The tree with `f` applied to every span in it. -/
def relabel : Node → Node
  | .ifThen s t c => .ifThen (f s) (relabel t) (relabel c)
  | .ifElse s t c a => .ifElse (f s) (relabel t) (relabel c) (relabel a)
  | .block s k stmts => .block (f s) k (relabelAll stmts)
  | .staticBlock s b k stmts => .staticBlock (f s) (f b) k (relabelAll stmts)
  | .paren s e => .paren (f s) (relabel e)
  | .bool s v => .bool (f s) v
  | .other l cs => .other (l.relabel f) (relabelAll cs)

def relabelAll : List Node → List Node
  | [] => []
  | n :: ns => relabel n :: relabelAll ns

end

theorem relabelAll_eq_map (ns : List Node) : relabelAll f ns = ns.map (relabel f) := by
  induction ns with
  | nil => rfl
  | cons n ns ih => rw [relabelAll, ih, List.map_cons]

end Node

/-- The rewrites of a tree, at other spans. -/
def Traced.relabel (x : Traced Node) : Traced Node :=
  ⟨x.value.relabel f, x.count, x.log.map (Event.relabel f)⟩

/-- The rewrites of a list of trees, at other spans. -/
def Traced.relabelAll (x : Traced (List Node)) : Traced (List Node) :=
  ⟨Node.relabelAll f x.value, x.count, x.log.map (Event.relabel f)⟩

/-- The stats stay as they are. -/
def DeadCode.Outcome.relabel (o : DeadCode.Outcome) : DeadCode.Outcome :=
  ⟨o.program.relabel f, o.stats, o.log.map (Event.relabel f)⟩

/-- The answer or failure and the transformers stay as they are. -/
def Pipeline.Run.relabel {τ ε α : Type} (r : Pipeline.Run τ ε α) : Pipeline.Run τ ε α :=
  ⟨r.outcome, r.transformers, r.program.relabel f, r.log.map (Event.relabel f)⟩

variable {f}

namespace Node

@[simp] theorem relabel_ifThen (s : Span) (t c : Node) :
    (Node.ifThen s t c).relabel f = .ifThen (f s) (t.relabel f) (c.relabel f) := rfl

@[simp] theorem relabel_ifElse (s : Span) (t c a : Node) :
    (Node.ifElse s t c a).relabel f =
      .ifElse (f s) (t.relabel f) (c.relabel f) (a.relabel f) := rfl

@[simp] theorem relabel_block (s : Span) (k : Nat) (stmts : List Node) :
    (Node.block s k stmts).relabel f = .block (f s) k (stmts.map (relabel f)) :=
  congrArg (Node.block (f s) k) (relabelAll_eq_map f stmts)

@[simp] theorem relabel_staticBlock (s b : Span) (k : Nat) (stmts : List Node) :
    (Node.staticBlock s b k stmts).relabel f =
      .staticBlock (f s) (f b) k (stmts.map (relabel f)) :=
  congrArg (Node.staticBlock (f s) (f b) k) (relabelAll_eq_map f stmts)

@[simp] theorem relabel_paren (s : Span) (e : Node) :
    (Node.paren s e).relabel f = .paren (f s) (e.relabel f) := rfl

@[simp] theorem relabel_bool (s : Span) (v : Bool) :
    (Node.bool s v).relabel f = .bool (f s) v := rfl

@[simp] theorem relabel_other (l : Label) (cs : List Node) :
    (Node.other l cs).relabel f = .other (l.relabel f) (cs.map (relabel f)) :=
  congrArg (Node.other (l.relabel f)) (relabelAll_eq_map f cs)

theorem children_relabel (n : Node) : (n.relabel f).children = n.children.map (relabel f) := by
  cases n <;> simp [children]

/-- What is done to children whose spans are not looked at may be done before or after. -/
theorem mapChildren_relabel {g : Node → Node} {n : Node}
    (h : ∀ c ∈ n.children, g (c.relabel f) = (g c).relabel f) :
    (n.relabel f).mapChildren g = (n.mapChildren g).relabel f := by
  cases n <;> simp_all [mapChildren, children]

theorem isIf_relabel (n : Node) : (n.relabel f).isIf = n.isIf := by
  cases n <;> rfl

theorem literalBoolean_relabel (t : Node) : (t.relabel f).literalBoolean = t.literalBoolean := by
  induction t using childInduction with
  | step t ih => cases t <;> simp_all [literalBoolean, children]

theorem withLiteral_relabel (v : Bool) (t : Node) :
    (t.relabel f).withLiteral v = (t.withLiteral v).relabel f := by
  induction t using childInduction with
  | step t ih => cases t <;> simp_all [withLiteral, children]

theorem fallThrough?_relabel (a : Node) :
    (a.relabel f).fallThrough? = a.fallThrough?.map (relabel f) := by
  cases a with
  | ifThen s t c =>
      simp only [relabel_ifThen, fallThrough?, literalBoolean_relabel]
      split <;> rfl
  | _ => rfl

theorem flipStep_relabel (n : Node) : flipStep (n.relabel f) = (flipStep n).relabel f := by
  cases n with
  | ifElse s t c a =>
      simp only [relabel_ifElse, flipStep, literalBoolean_relabel, fallThrough?_relabel]
      split
      · cases a.fallThrough? with
        | some b =>
            simp only [Option.map_some, withLiteral_relabel]
            rfl
        | none => rfl
      · rfl
  | _ => rfl

theorem pruneStep_relabel (n : Node) : pruneStep (n.relabel f) = (pruneStep n).relabel f := by
  cases n with
  | ifElse s t c a =>
      simp only [relabel_ifElse, pruneStep, literalBoolean_relabel, isIf_relabel]
      split <;> rfl
  | _ => rfl

theorem inlineEntry_relabel (e : Node) :
    inlineEntry (e.relabel f) = (inlineEntry e).relabelAll f := by
  cases e with
  | ifThen s t c =>
      cases c with
      | block s' k stmts =>
          simp only [relabel_ifThen, relabel_block, inlineEntry, inlinable?, literalBoolean_relabel]
          by_cases ht : t.literalBoolean = some true
          · simp only [if_pos ht, List.length_map]
            simp [Traced.rewrite, Traced.relabelAll, relabelAll_eq_map, Event.relabel]
          · simp only [if_neg ht]
            simp [Traced.ext_iff, Traced.relabelAll, relabelAll_eq_map]
      | _ => rfl
  | _ => rfl

theorem inlineEntries_relabelAll (ns : List Node) :
    inlineEntries (relabelAll f ns) = (inlineEntries ns).relabelAll f := by
  induction ns with
  | nil => rfl
  | cons n ns ih =>
      rw [relabelAll, inlineEntries, ih, inlineEntry_relabel, inlineEntries]
      simp [Traced.ext_iff, Traced.relabelAll, relabelAll_eq_map]

end Node

namespace Rule

open Node

theorem step_relabel (r : Rule) (n : Node) : r.step (n.relabel f) = (r.step n).relabel f := by
  cases r with
  | flip => exact flipStep_relabel n
  | prune => exact pruneStep_relabel n
  | inline =>
      cases n with
      | block s k stmts =>
          rw [relabel_block, ← relabelAll_eq_map]
          simp only [step, inlineStep, inlineEntries_relabelAll]
          simp [Traced.ext_iff, Traced.relabel, Traced.relabelAll, relabelAll_eq_map]
      | _ => rfl

theorem rewrite_relabel (r : Rule) (n : Node) :
    r.rewrite (n.relabel f) = (r.rewrite n).relabel f := by
  induction n using childInduction with
  | step n ih =>
      have hbelow : (n.relabel f).mapChildren (fun c => (r.rewrite c).value) =
          (n.mapChildren fun c => (r.rewrite c).value).relabel f :=
        mapChildren_relabel fun c hc => congrArg Traced.value (ih c hc)
      have hcount : ∀ c ∈ n.children, (r.rewrite (c.relabel f)).count = (r.rewrite c).count := by
        intro c hc
        rw [ih c hc, Traced.relabel]
      have hlog : ∀ c ∈ n.children,
          (r.rewrite (c.relabel f)).log = (r.rewrite c).log.map (Event.relabel f) := by
        intro c hc
        rw [ih c hc, Traced.relabel]
      unfold Traced.relabel
      apply Traced.ext
      · rw [value_rewrite, hbelow, step_relabel, value_rewrite r n, Traced.relabel]
      · rw [count_rewrite, hbelow, step_relabel, children_relabel, List.map_map,
          count_rewrite r n, ← List.map_congr_left hcount]
        rfl
      · rw [log_rewrite, hbelow, step_relabel, children_relabel, List.flatMap_map,
          List.flatMap_congr hlog, log_rewrite r n, List.map_append, List.map_flatMap]
        rfl

theorem rewriteAll_relabelAll (r : Rule) (ns : List Node) :
    r.rewriteAll (relabelAll f ns) = (r.rewriteAll ns).relabelAll f := by
  induction ns with
  | nil => rfl
  | cons n ns ih =>
      have hfirst := rewrite_relabel (f := f) r n
      unfold rewriteAll at ih ⊢
      unfold rewrite at hfirst
      rw [relabelAll, bottomUpAll, bottomUpAll, hfirst, ih]
      simp [Traced.ext_iff, Traced.relabel, Traced.relabelAll, relabelAll]

end Rule

theorem RuleSet.rewrite_relabel (rules : RuleSet) (r : Rule) (n : Node) :
    rules.rewrite r (n.relabel f) = (rules.rewrite r n).relabel f := by
  unfold rewrite
  split
  · exact Rule.rewrite_relabel r n
  · rfl

theorem DeadCode.run_relabel (rules : RuleSet) (n : Node) :
    run rules (n.relabel f) = (run rules n).relabel f := by
  simp only [run, RuleSet.rewrite_relabel, Traced.relabel, Outcome.relabel, List.map_append]

theorem DeadCode.transform_relabel (pass : DeadCode) (n : Node) :
    transform pass (n.relabel f) =
      { transform pass n with
        program := (transform pass n).program.relabel f
        log := (transform pass n).log.map (Event.relabel f) } := by
  unfold transform
  rw [run_relabel, List.map_append]
  rfl

namespace Pipeline

theorem behind_relabel (t : DeadCode) (program : Node) (rest : Run DeadCode Empty Unit) :
    (rest.relabel f).behind ⟨t, program.relabel f⟩ = (rest.behind ⟨t, program⟩).relabel f := by
  have hcall : Handover.call ⟨t, program.relabel f⟩ = _ := t.transform_relabel program
  unfold Run.behind Run.relabel Handover.log
  rw [hcall]
  simp only [List.map_append, List.map_cons, List.cons_append]
  rfl

theorem run_relabel (ts : List DeadCode) (program : Node) :
    run ts (program.relabel f) = (run ts program).relabel f := by
  induction ts generalizing program with
  | nil => rfl
  | cons t ts ih =>
      have hfirst : (DeadCode.transform t (program.relabel f)).program =
          (DeadCode.transform t program).program.relabel f := by
        rw [DeadCode.transform_relabel]
      rw [run_cons_of_ok rfl, run_cons_of_ok rfl, ← behind_relabel, ← ih]
      exact congrArg (fun rest => (run ts rest).behind ⟨t, program.relabel f⟩) hfirst

/-- A round that rewrites something shows it, whatever spans have become the same. -/
theorem program_run_relabel_eq_iff (f : Span → Span) (ts : List DeadCode) (program : Node) :
    (run ts (program.relabel f)).program = program.relabel f ↔
      (run ts program).program = program := by
  constructor
  · intro h
    have hcounted := counted_eq_zero_of_program_run_eq h
    rw [run_relabel] at hcounted
    exact program_run_of_not_appliesAt (idle_of_counted_eq_zero hcounted).2
  · intro h
    rw [run_relabel, Run.relabel, h]

theorem runRounds_relabel (left done : Nat) (ts : List DeadCode) (program : Node) :
    runRounds left done ts (program.relabel f) = (runRounds left done ts program).relabel f := by
  induction left generalizing done ts program with
  | zero => rfl
  | succ left ih =>
      have hsame := program_run_relabel_eq_iff f ts program
      rw [runRounds, runRounds]
      simp only [outcome_run]
      by_cases h : (run ts program).program = program
      · rw [if_pos h, if_pos (hsame.mpr h), run_relabel]
        simp [Run.relabel, Event.relabel]
      · rw [if_neg h, if_neg (mt hsame.mp h), run_relabel]
        simp [Run.relabel, ih]

end Pipeline

/-- Whatever spans a tree has, and whichever of them are the same, rules rewrite it alike, and so do
runs of the pass and pipelines that repeat their passes until the program rests. -/
theorem relabel_unnoticed (f : Span → Span) (n : Node) :
    (∀ r : Rule, r.rewrite (n.relabel f) = (r.rewrite n).relabel f) ∧
      (∀ (r : Rule) (ns : List Node),
        r.rewriteAll (Node.relabelAll f ns) = (r.rewriteAll ns).relabelAll f) ∧
      (∀ rules : RuleSet, DeadCode.run rules (n.relabel f) = (DeadCode.run rules n).relabel f) ∧
      ∀ (ts : List DeadCode) (maxRounds : Nat),
        Pipeline.runUntilStable maxRounds ts (n.relabel f) =
          (Pipeline.runUntilStable maxRounds ts n).relabel f :=
  ⟨fun r => r.rewrite_relabel n, fun r ns => r.rewriteAll_relabelAll ns,
    fun rules => DeadCode.run_relabel rules n,
    fun ts maxRounds => Pipeline.runRounds_relabel maxRounds 0 ts n⟩

/-- Two entries that cannot be told apart are both inlined. -/
example (s t : Span) :
    let entry (s : Span) : Node := .ifThen s (.bool s true) (.block s 0 [])
    ((Node.block s 0 [entry s, .bool s false, entry t]).relabel fun _ => ⟨0, 0⟩).inline.value =
      .block ⟨0, 0⟩ 0 [.bool ⟨0, 0⟩ false] := rfl

end DeadBranch
