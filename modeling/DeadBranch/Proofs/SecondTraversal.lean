import DeadBranch.Proofs.AuditTrail
import DeadBranch.Proofs.Rewrite.Exhaustion

/-!
# A second traversal does nothing

Each rule finishes its own work in one traversal, whatever the tree stands for and however
deep its places are nested. If the same rule goes through the result again, it finds no
place, counts nothing, reports no rewrite and gives the tree back as it is. That a chain
goes on it will say again, for that is still so.
-/
namespace DeadBranch

/-- `a` is given back as it is; nothing is counted and no rewrite is reported. -/
structure Traced.Idle {α : Type} (x : Traced α) (a : α) : Prop where
  value_eq : x.value = a
  count_eq : x.count = 0
  rule?_eq : ∀ e ∈ x.log, e.rule? = none

/-- Where nothing is counted, no rewrite is reported of any rule. -/
theorem Traced.Reports.rule?_eq_none {α : Type} {r : Rule} {x : Traced α} (h : x.Reports r)
    (hcount : x.count = 0) : ∀ e ∈ x.log, e.rule? = none := by
  intro e he
  cases hq : e.rule? with
  | none => rfl
  | some q =>
      have hzero := h q
      rw [hcount, ite_self, List.countP_eq_zero] at hzero
      have hne := hzero e he
      simp [hq] at hne

namespace Rule

open Node

/-- A rule without a place in a tree is idle there. -/
theorem idle_rewrite {r : Rule} {n : Node} (h : ∀ m ∈ n.subtrees, ¬ r.AppliesAt m) :
    (r.rewrite n).Idle n := by
  have hcount : (r.rewrite n).count = 0 := count_rewrite_eq_zero.mpr h
  constructor
  · exact value_rewrite_of_count_eq_zero hcount
  · exact hcount
  · exact (reports_rewrite r n).rule?_eq_none hcount

theorem idle_rewriteAll {r : Rule} {ns : List Node} (h : ∀ m ∈ subtreesAll ns, ¬ r.AppliesAt m) :
    (r.rewriteAll ns).Idle ns := by
  have hidle : ∀ n ∈ ns, (r.rewrite n).Idle n := by
    intro n hn
    apply idle_rewrite
    intro m hm
    apply h m
    rw [subtreesAll_eq_flatMap]
    exact List.mem_flatMap_of_mem hn hm
  constructor
  · have hsame := List.map_congr_left fun n hn => (hidle n hn).value_eq
    rw [value_rewriteAll, hsame, List.map_id']
  · rw [count_rewriteAll, List.sum_eq_zero_iff_forall_eq_nat]
    exact List.forall_mem_map.mpr fun n hn => (hidle n hn).count_eq
  · intro e he
    rw [log_rewriteAll] at he
    rcases List.mem_flatMap.mp he with ⟨n, hn, hen⟩
    exact (hidle n hn).rule?_eq e hen

/-- One traversal leaves a rule without a place, in a tree and in a list of trees, and the next one
is idle. -/
theorem idle_after_rewrite (r : Rule) :
    (∀ n : Node, (∀ m ∈ (r.rewrite n).value.subtrees, ¬ r.AppliesAt m) ∧
        (r.rewrite (r.rewrite n).value).Idle (r.rewrite n).value) ∧
      ∀ ns : List Node, (∀ m ∈ subtreesAll (r.rewriteAll ns).value, ¬ r.AppliesAt m) ∧
        (r.rewriteAll (r.rewriteAll ns).value).Idle (r.rewriteAll ns).value := by
  have hall (ns : List Node) : ∀ m ∈ subtreesAll (r.rewriteAll ns).value, ¬ r.AppliesAt m := by
    intro m hm
    rw [value_rewriteAll, subtreesAll_eq_flatMap, List.flatMap_map] at hm
    rcases List.mem_flatMap.mp hm with ⟨n, -, hmn⟩
    exact not_appliesAt_of_mem_subtrees_rewrite r n m hmn
  refine ⟨fun n => ?_, fun ns => ⟨hall ns, idle_rewriteAll (hall ns)⟩⟩
  have hplaces := not_appliesAt_of_mem_subtrees_rewrite r n
  exact ⟨hplaces, idle_rewrite hplaces⟩

/-- Turning the else-if round does not end the chain: both traversals say that it goes on. -/
example (s s' : Span) :
    let chain : Node := .ifElse s (.bool s false) (.block s 0 [])
      (.ifElse s' (.bool s false) (.block s 1 []) (.block s 2 []))
    (flip.rewrite chain).log = [.flipped s', .chainContinues s] ∧
      (flip.rewrite (flip.rewrite chain).value).log = [.chainContinues s] := ⟨rfl, rfl⟩

end Rule
end DeadBranch
