import DeadBranch.Pipeline.DeadCode
import DeadBranch.Proofs.Flattening

/-!
# The log as an audit trail

The log of a run can be told from the trees that its rules were given, without following
what the rules do to them. Every rule reports on the nodes of the tree that it is given in
post-order: on conditionals that it turns round or would turn round if their chain went no
further, on conditionals that lose their alternate, on the entries of blocks that give way
to their bodies. Places that come up while the tree is being rewritten do not show, neither
are places left out that an outer rewrite drops later on. What the log reports of a rule is
also what the counts say of it.
-/
namespace DeadBranch

/-- The rule that made the rewrite which an event reports. -/
def Event.rule? : Event → Option Rule
  | .flipped _ => some .flip
  | .removed _ => some .prune
  | .inlined _ _ => some .inline
  | .chainContinues _ | .passFinished _ | .running _ | .stable _ => none

/-- How many rewrites of a rule the counts stand for. -/
def Stats.of (s : Stats) : Rule → Nat
  | .flip => s.flipped
  | .prune => s.removed
  | .inline => s.inlined

namespace Traced

variable {α β : Type} {r : Rule} {x : Traced α}

/-- The log reports every rewrite that is counted, as one of the rule's, and no other. -/
def Reports (r : Rule) (x : Traced α) : Prop :=
  ∀ q, (x.log.countP fun e => e.rule? = some q) = if q = r then x.count else 0

theorem Reports.pure (r : Rule) (a : α) : (pure a : Traced α).Reports r := by
  intro q
  simp

theorem Reports.note {e : Event} (h : e.rule? = none) (a : α) : (note e a).Reports r := by
  intro q
  simp [h]

theorem Reports.rewrite {e : Event} (h : e.rule? = some r) (a : α) : (rewrite e a).Reports r := by
  intro q
  simp [h, List.countP_cons, eq_comm]

theorem Reports.bind {f : α → Traced β} (hx : x.Reports r) (hf : (f x.value).Reports r) :
    (x >>= f).Reports r := by
  intro q
  rw [log_bind, count_bind, List.countP_append, hx q, hf q]
  split
  · rfl
  · rfl

end Traced

namespace Node

mutual

/-- The nodes of a tree, each behind everything below it. -/
def postOrder : Node → List Node
  | .ifThen s t c => postOrder t ++ (postOrder c ++ [.ifThen s t c])
  | .ifElse s t c a => postOrder t ++ (postOrder c ++ (postOrder a ++ [.ifElse s t c a]))
  | .block s k stmts => postOrderAll stmts ++ [.block s k stmts]
  | .staticBlock s b k stmts => postOrderAll stmts ++ [.staticBlock s b k stmts]
  | .paren s e => postOrder e ++ [.paren s e]
  | .bool s v => [.bool s v]
  | .other l cs => postOrderAll cs ++ [.other l cs]

def postOrderAll : List Node → List Node
  | [] => []
  | n :: ns => postOrder n ++ postOrderAll ns

end

theorem postOrderAll_eq_flatMap (ns : List Node) : postOrderAll ns = ns.flatMap postOrder := by
  induction ns with
  | nil => rfl
  | cons n ns ih => rw [postOrderAll, ih, List.flatMap_cons]

theorem postOrder_eq (n : Node) : n.postOrder = n.children.flatMap postOrder ++ [n] := by
  cases n <;> simp [postOrder, children, postOrderAll_eq_flatMap]

/-- On an `if (false)` with an alternate: that it is turned round, or that its chain goes on. -/
def flipEvents : Node → List Event
  | .ifElse s t c a =>
      if t.literalBoolean = some false then
        if (Node.ifElse s t c a).Flippable then [.flipped s] else [.chainContinues s]
      else []
  | _ => []

/-- On a conditional that loses its alternate. -/
def pruneEvents : Node → List Event
  | .ifElse s t c a => if (Node.ifElse s t c a).Prunable then [.removed s] else []
  | _ => []

/-- On an entry that gives way to its body, with the number of statements that the body has when
entries of its own have given way. -/
def entryEvents : Node → List Event
  | .ifThen s t (.block _ _ body) =>
      if t.literalBoolean = some true then [.inlined s (flattenedBody body).length] else []
  | _ => []

theorem entryEvents_of_not_inlinable {e : Node} (h : ¬ e.Inlinable) : e.entryEvents = [] := by
  cases e with
  | ifThen s t c =>
      cases c with
      | block s' k body =>
          have ht : ¬ t.literalBoolean = some true := fun ht => h ⟨ht, rfl⟩
          rw [entryEvents, if_neg ht]
      | _ => rfl
  | _ => rfl

end Node

namespace Rule

open Node

/-- What a rule has to report on a node of the tree that it is given. -/
def eventsAt : Rule → Node → List Event
  | .flip, n => n.flipEvents
  | .prune, n => n.pruneEvents
  | .inline, n => n.blockEntries.flatMap entryEvents

/-- What a rule has to report on a tree. -/
def trail (r : Rule) (n : Node) : List Event := n.postOrder.flatMap r.eventsAt

theorem log_flipStep (n : Node) :
    (flipStep (n.mapChildren fun c => (flip.rewrite c).value)).log = n.flipEvents := by
  have hr : flip ≠ prune := by decide
  cases n with
  | ifElse s t c a =>
      have hfalls := fallThrough?_rewrite hr a
      have hflips := flippable_iff (s := s) (t := t) (c := c) (a := a)
      by_cases ht : t.literalBoolean = some false
      · rw [mapChildren, flipStep, flipEvents, if_pos ht, literalBoolean_rewrite, if_pos ht]
        cases ha : a.fallThrough? with
        | some b =>
            rw [ha, Option.map_some] at hfalls
            rw [hfalls, if_pos (hflips.mpr ⟨ht, b, ha⟩)]
            rfl
        | none =>
            have hnot : ¬ (Node.ifElse s t c a).Flippable := by simp [hflips, ha]
            rw [ha, Option.map_none] at hfalls
            rw [hfalls, if_neg hnot]
            rfl
      · rw [mapChildren, flipStep, flipEvents, if_neg ht, literalBoolean_rewrite, if_neg ht]
        rfl
  | _ => rfl

theorem log_pruneStep (n : Node) :
    (pruneStep (n.mapChildren fun c => (prune.rewrite c).value)).log = n.pruneEvents := by
  cases n with
  | ifElse s t c a =>
      rw [mapChildren, pruneStep, pruneEvents, literalBoolean_rewrite, isIf_rewrite]
      by_cases h : t.literalBoolean = some true ∧ ¬ a.isIf
      · have hcut : (Node.ifElse s t c a).Prunable := h
        rw [if_pos h, if_pos hcut, Traced.log_rewrite]
      · have hkeep : ¬ (Node.ifElse s t c a).Prunable := h
        rw [if_neg h, if_neg hkeep, Traced.log_pure]
  | _ => rfl

/-- A body that gives way has been flattened before. -/
theorem log_inlineEntry_rewrite (e : Node) :
    (inlineEntry (inline.rewrite e).value).log = e.entryEvents := by
  have hkeeps := inlinable_rewrite (r := inline) nofun e
  by_cases h : e.Inlinable
  · rcases h.exists_block with ⟨s, t, s', k, body, rfl, ht⟩
    have ht' : (inline.rewrite t).value.literalBoolean = some true := by
      rw [literalBoolean_rewrite, ht]
    rw [rewrite_ifThen, inline_rewrite_eq_flattened (.block s' k body), flattened,
      inlineEntry_ifThen ht', Traced.log_rewrite, entryEvents, if_pos ht]
  · rw [inlineEntry_of_not_inlinable (mt hkeeps.mp h), entryEvents_of_not_inlinable h,
      Traced.log_pure]

theorem log_inlineStep (n : Node) :
    (inlineStep (n.mapChildren fun c => (inline.rewrite c).value)).log =
      n.blockEntries.flatMap entryEvents := by
  cases n with
  | block s k stmts =>
      rw [mapChildren, inlineStep, Traced.log_bind, Traced.log_pure, List.append_nil,
        log_inlineEntries, List.flatMap_map, blockEntries]
      exact List.flatMap_congr fun e _ => log_inlineEntry_rewrite e
  | _ => rfl

/-- What is reported on a node when all below it is done could be told before. -/
theorem log_step_mapChildren_rewrite (r : Rule) (n : Node) :
    (r.step (n.mapChildren fun c => (r.rewrite c).value)).log = r.eventsAt n := by
  cases r with
  | flip => exact log_flipStep n
  | prune => exact log_pruneStep n
  | inline => exact log_inlineStep n

theorem log_rewrite_eq_trail (r : Rule) (n : Node) : (r.rewrite n).log = r.trail n := by
  induction n using childInduction with
  | step n ih =>
      rw [log_rewrite, log_step_mapChildren_rewrite, List.flatMap_congr ih, trail, postOrder_eq,
        List.flatMap_append, List.flatMap_assoc, List.flatMap_singleton]
      rfl

theorem reports_inlineEntries (ns : List Node) : (inlineEntries ns).Reports .inline := by
  have hentry (n : Node) : (inlineEntry n).Reports .inline := by
    unfold inlineEntry
    split
    · exact .rewrite rfl _
    · exact .pure _ _
  induction ns with
  | nil => exact .pure _ _
  | cons n ns ih => exact (hentry n).bind (ih.bind (.pure _ _))

theorem reports_step (r : Rule) (n : Node) : (r.step n).Reports r := by
  cases r with
  | flip =>
      cases n with
      | ifElse s t c a =>
          simp only [step, flipStep]
          split
          · split
            · exact .rewrite rfl _
            · exact .note rfl _
          · exact .pure _ _
      | _ => exact .pure _ _
  | prune =>
      cases n with
      | ifElse s t c a =>
          simp only [step, pruneStep]
          split
          · exact .rewrite rfl _
          · exact .pure _ _
      | _ => exact .pure _ _
  | inline =>
      cases n with
      | block s k stmts => exact (reports_inlineEntries stmts).bind (.pure _ _)
      | _ => exact .pure _ _

theorem reports_rewrite (r : Rule) (n : Node) : (r.rewrite n).Reports r := by
  intro q
  induction n using childInduction with
  | step n ih =>
      have hhere := reports_step r (n.mapChildren fun c => (r.rewrite c).value) q
      have hbelow := List.map_congr_left ih
      rw [log_rewrite, count_rewrite, List.countP_append, List.countP_flatMap, hhere,
        Function.comp_def, hbelow]
      split
      · rfl
      · simp

end Rule

namespace RuleSet

theorem log_rewrite (rules : RuleSet) (r : Rule) (n : Node) :
    (rules.rewrite r n).log = if rules.enables r then r.trail n else [] := by
  unfold rewrite
  split
  · exact r.log_rewrite_eq_trail n
  · rfl

theorem reports_rewrite (rules : RuleSet) (r : Rule) (n : Node) : (rules.rewrite r n).Reports r := by
  unfold rewrite
  split
  · exact r.reports_rewrite n
  · exact .pure r n

end RuleSet

namespace DeadCode

/-- The tree that a rule is given in a run of the pass. -/
def given (rules : RuleSet) (n : Node) : Rule → Node
  | .flip => n
  | .prune => (rules.rewrite .flip n).value
  | .inline => (rules.rewrite .prune (rules.rewrite .flip n).value).value

theorem log_run (rules : RuleSet) (n : Node) :
    (run rules n).log = (Rule.all.filter rules.enables).flatMap fun r => r.trail (given rules n r) := by
  have hskip (rs : List Rule) (f : Rule → List Event) :
      (rs.filter rules.enables).flatMap f =
        rs.flatMap fun r => if rules.enables r then f r else [] := by
    induction rs with
    | nil => rfl
    | cons r rs ih =>
        rw [List.filter_cons, List.flatMap_cons, ← ih]
        split
        · exact List.flatMap_cons
        · rfl
  rw [hskip]
  simp only [run, RuleSet.log_rewrite, Rule.all, given, List.flatMap_cons, List.flatMap_nil,
    List.append_nil, List.append_assoc]

/-- The log of a run reports of each rule as many rewrites as the counts do. -/
theorem countP_log_run (rules : RuleSet) (n : Node) (r : Rule) :
    ((run rules n).log.countP fun e => e.rule? = some r) = (run rules n).stats.of r := by
  have hflip := rules.reports_rewrite .flip n r
  have hprune := rules.reports_rewrite .prune (given rules n .prune) r
  have hinline := rules.reports_rewrite .inline (given rules n .inline) r
  simp only [given] at hprune hinline
  rw [run, List.countP_append, List.countP_append, hflip, hprune, hinline]
  cases r <;> simp [Stats.of]

/-- The pass puts on record what the rules that it enables have to report on the trees that they are
given, one rule after the other, and at the end its counts. Of each rule it reports as many
rewrites as are counted; all that it logs is for debugging, but for chains that go on. -/
theorem log_transform (pass : DeadCode) (n : Node) :
    (pass.transform n).log =
        ((Rule.all.filter pass.rules.enables).flatMap fun r => r.trail (given pass.rules n r)) ++
          [.passFinished (pass.transform n).state.stats] ∧
      (∀ r, ((pass.transform n).log.countP fun e => e.rule? = some r) =
        (pass.transform n).state.stats.of r) ∧
      ∀ e ∈ (pass.transform n).log, e.level = .trace ↔ ∃ s, e = .chainContinues s := by
  refine ⟨?_, fun r => ?_, fun e _ => ?_⟩
  · rw [← log_run]
    rfl
  · have hcounts := countP_log_run pass.rules n r
    rw [transform, List.countP_append, hcounts]
    simp [Event.rule?]
  · cases e <;> simp [Event.level]

/-- The inner entry is reported first, and of the outer one the length when the inner is gone. -/
example (outer inner : Span) :
    let body (stmts : List Node) : Node := .block ⟨0, 0⟩ 0 stmts
    let entry (s : Span) (stmts : List Node) : Node := .ifThen s (.bool ⟨0, 0⟩ true) (body stmts)
    Rule.inline.trail (body [entry outer [entry inner [.bool ⟨0, 0⟩ true, .bool ⟨0, 0⟩ false],
        .paren ⟨0, 0⟩ (.bool ⟨0, 0⟩ true)]]) = [.inlined inner 2, .inlined outer 3] := rfl

end DeadCode
end DeadBranch
