import DeadBranch.Proofs.Pipeline.Passes
import DeadBranch.Proofs.Rewrite.KeptPlaces
import DeadBranch.Source.Program

/-!
# Runs that have nothing to do

A run counts every rewrite it makes, and its rewrites do not undo each other. So the
counts of a run are zero exactly if it leaves the tree as it was, and exactly if no
rule that it enables has a place in the tree. After a run with all rules only one
shape of conditional is left for the next: a literal false in front of a bare
`else if (true)`, which is there if that else-if has just lost its own alternate.
-/
namespace DeadBranch

theorem Stats.isEmpty_iff {s : Stats} : s.isEmpty ↔ s.total = 0 := by
  simp only [Stats.isEmpty, decide_eq_true_eq]
  constructor
  · rintro rfl
    rfl
  · exact Stats.eq_of_total_eq_zero

namespace Node

/-- An `if (false)` with a plain alternate. -/
def FalseOverPlain : Node → Prop
  | .ifElse _ t _ a => t.literalBoolean = some false ∧ ¬ a.isIf
  | _ => False

/-- An `if (false)` with a bare `else if (true)`. -/
def FalseOverTrue : Node → Prop
  | .ifElse _ t _ (.ifThen _ t' _) =>
      t.literalBoolean = some false ∧ t'.literalBoolean = some true
  | _ => False

instance : DecidablePred FalseOverTrue
  | .ifElse _ t _ (.ifThen _ t' _) =>
      inferInstanceAs (Decidable (t.literalBoolean = some false ∧ t'.literalBoolean = some true))
  | .ifElse _ _ _ (.ifElse ..) | .ifElse _ _ _ (.block ..) | .ifElse _ _ _ (.staticBlock ..)
  | .ifElse _ _ _ (.paren ..) | .ifElse _ _ _ (.bool ..) | .ifElse _ _ _ (.other ..)
  | .ifThen .. | .block .. | .staticBlock .. | .paren .. | .bool .. | .other .. => isFalse id

theorem flippable_iff_over {n : Node} : n.Flippable ↔ n.FalseOverPlain ∨ n.FalseOverTrue := by
  cases n with
  | ifElse s t c a =>
      cases a <;> simp [Flippable, FalseOverPlain, FalseOverTrue, isIf]
  | _ => simp [Flippable, FalseOverPlain, FalseOverTrue]

/-- A conditional on a literal boolean with a plain alternate. -/
def DecidedOverPlain : Node → Prop
  | .ifElse _ t _ a => t.literalBoolean.isSome ∧ ¬ a.isIf
  | _ => False

theorem Prunable.decidedOverPlain {n : Node} (h : n.Prunable) : n.DecidedOverPlain := by
  rcases h.exists_ifElse with ⟨s, t, c, a, rfl, ht, ha⟩
  exact ⟨by rw [ht]; rfl, ha⟩

theorem FalseOverPlain.decidedOverPlain {n : Node} (h : n.FalseOverPlain) :
    n.DecidedOverPlain := by
  cases n with
  | ifElse s t c a => exact ⟨by rw [h.1]; rfl, h.2⟩
  | _ => exact h.elim

theorem DecidedOverPlain.hasAlternate {n : Node} (h : n.DecidedOverPlain) : n.hasAlternate := by
  cases n <;> first | rfl | exact h.elim

theorem not_decidedOverPlain_of_literalBoolean (t : Node) (h : t.literalBoolean.isSome) :
    ¬ t.DecidedOverPlain := by
  cases t <;> first | exact id | cases h

end Node

namespace DeadCode

open Node

variable {rules : RuleSet} {n : Node}

theorem total_eq_zero_iff_program_run_eq :
    (run rules n).stats.total = 0 ↔ (run rules n).program = n := by
  constructor
  · exact program_run_of_total_eq_zero
  · intro h
    have hweight := weight_run_add_total_le rules n
    rw [h] at hweight
    omega

theorem total_eq_zero_iff_not_appliesAt :
    (run rules n).stats.total = 0 ↔
      ∀ r, rules.enables r → ∀ m ∈ n.subtrees, ¬ r.AppliesAt m := by
  constructor
  · intro h r hr
    exact not_appliesAt_of_total_eq_zero h hr
  · intro h
    rw [total_eq_zero_iff_program_run_eq]
    apply run_preserves (P := (· = n)) _ rfl
    intro r hr m hm
    rw [hm]
    exact Rule.value_rewrite_of_forall_not_appliesAt (h r hr)

/-- The counts of a run are zero if it changes nothing and only then, and if none of its rules has
a place in the tree and only then. -/
theorem isEmpty_stats_iff (rules : RuleSet) (n : Node) :
    ((run rules n).stats.isEmpty ↔ (run rules n).program = n) ∧
      ((run rules n).stats.isEmpty ↔
        ∀ r, rules.enables r → ∀ m ∈ n.subtrees, ¬ r.AppliesAt m) := by
  rw [Stats.isEmpty_iff]
  exact ⟨total_eq_zero_iff_program_run_eq, total_eq_zero_iff_not_appliesAt⟩

/-- A run with all rules keeps no plain alternate of a conditional that is decided. -/
theorem not_decidedOverPlain_simplified (n : Node) : ¬ (simplified n).DecidedOverPlain := by
  intro h
  have halt := hasAlternate_of_simplified h.hasAlternate
  cases n with
  | ifElse s t c a =>
      obtain ⟨t', ht', hleft⟩ := simplified_ifElse s t c a
      rw [hleft] at h
      cases hb : (branchesLeft t c a).2 with
      | none =>
          rw [hb] at h
          exact h
      | some b =>
          rw [hb] at h
          obtain ⟨hsome, hplain⟩ := h
          have ht : t.literalBoolean.isSome := by
            obtain rfl | ⟨ht, -⟩ := ht'
            · rwa [literalBoolean_simplified] at hsome
            · rw [ht]
              rfl
          exact hplain (by rw [isIf_simplified]; exact isIf_of_branchesLeft_snd ht hb)
  | _ => cases halt

theorem not_decidedOverPlain_of_mem_subtrees_simplified {m : Node}
    (hm : m ∈ (simplified n).subtrees) : ¬ m.DecidedOverPlain := by
  intro h
  obtain ⟨k, -, hk⟩ := (exists_mem_subtrees_simplified not_decidedOverPlain_of_literalBoolean
    (fun _ _ _ => id) (fun _ _ _ => id) n).mp ⟨m, hm, h⟩
  exact not_decidedOverPlain_simplified k hk

/-- What a run with all rules leaves of the places of the rules: none to prune, none to inline and
none to flip but those that pruning has made. The next run does nothing if there are none of these,
and only then. -/
theorem places_left_by_run (program : Node) :
    (∀ m ∈ (run .all program).program.subtrees,
        ¬ m.Prunable ∧ ¬ Rule.inline.AppliesAt m ∧ ¬ m.FalseOverPlain) ∧
      ((run .all (run .all program).program).stats = {} ∧
          (run .all (run .all program).program).program = (run .all program).program ↔
        ∀ m ∈ (run .all program).program.subtrees, ¬ m.FalseOverTrue) := by
  have hplaces : ∀ m ∈ (run .all program).program.subtrees,
      ¬ m.Prunable ∧ ¬ Rule.inline.AppliesAt m ∧ ¬ m.FalseOverPlain := by
    intro m hm
    have hplain := not_decidedOverPlain_of_mem_subtrees_simplified hm
    exact ⟨fun h => hplain h.decidedOverPlain,
      not_inline_appliesAt_of_mem_subtrees_simplified program m hm,
      fun h => hplain h.decidedOverPlain⟩
  refine ⟨hplaces, ?_⟩
  generalize (run .all program).program = left at hplaces
  constructor
  · rintro ⟨hstats, -⟩ m hm h
    have htotal : (run .all left).stats.total = 0 := by rw [hstats]; rfl
    exact total_eq_zero_iff_not_appliesAt.mp htotal .flip (RuleSet.enables_all .flip) m hm
      (flippable_iff_over.mpr (.inr h))
  · intro h
    have htotal : (run .all left).stats.total = 0 := by
      apply total_eq_zero_iff_not_appliesAt.mpr
      intro r _ m hm
      cases r with
      | flip =>
          intro hflip
          obtain hplain | hover := flippable_iff_over.mp hflip
          · exact (hplaces m hm).2.2 hplain
          · exact h m hm hover
      | prune => exact (hplaces m hm).1
      | inline => exact (hplaces m hm).2.1
    exact ⟨Stats.eq_of_total_eq_zero htotal, total_eq_zero_iff_program_run_eq.mp htotal⟩

/-- The else-if loses its alternate in the first run, and the second turns the whole round. -/
example :
    (Source.readModule
      "\x7bif(false)\x7ba();\x7delse if(true)\x7bb();\x7delse\x7bc();\x7d\x7d").toOption.map
      (fun n => (decide (∃ m ∈ (run .all n).program.subtrees, m.FalseOverTrue),
        (run .all (run .all n).program).stats)) = some (true, ⟨1, 1, 1⟩) := by
  decide +kernel

end DeadCode
end DeadBranch
