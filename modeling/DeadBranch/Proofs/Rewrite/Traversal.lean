import DeadBranch.Proofs.Tree.Subtrees
import DeadBranch.Rewrite.DeadCode

/-!
# The bottom-up traversal

What a traversal gives at a node, from what it gives at the children: the tree,
the count and the log, each on its own.
-/
namespace DeadBranch

namespace Node

variable (step : Node → Traced Node)

/-- The trees of a list are rewritten one after the other, each by itself. -/
theorem bottomUpAll_eq (ns : List Node) :
    bottomUpAll step ns =
      ⟨ns.map fun n => (bottomUp step n).value, (ns.map fun n => (bottomUp step n).count).sum,
        ns.flatMap fun n => (bottomUp step n).log⟩ := by
  induction ns with
  | nil => rfl
  | cons n ns ih => simp [Traced.ext_iff, bottomUpAll, ih]

/-- The children are rewritten first, and the step is taken at the node that holds them then. -/
theorem bottomUp_eq (n : Node) :
    bottomUp step n =
      let here := step (n.mapChildren fun c => (bottomUp step c).value)
      ⟨here.value, (n.children.map fun c => (bottomUp step c).count).sum + here.count,
        (n.children.flatMap fun c => (bottomUp step c).log) ++ here.log⟩ := by
  cases n <;>
    simp [Traced.ext_iff, bottomUp, bottomUpAll_eq, mapChildren, children, Nat.add_assoc]

theorem value_bottomUpAll (ns : List Node) :
    (bottomUpAll step ns).value = ns.map fun n => (bottomUp step n).value := by
  rw [bottomUpAll_eq]

theorem count_bottomUpAll (ns : List Node) :
    (bottomUpAll step ns).count = (ns.map fun n => (bottomUp step n).count).sum := by
  rw [bottomUpAll_eq]

theorem log_bottomUpAll (ns : List Node) :
    (bottomUpAll step ns).log = ns.flatMap fun n => (bottomUp step n).log := by
  rw [bottomUpAll_eq]

theorem value_bottomUp (n : Node) :
    (bottomUp step n).value =
      (step (n.mapChildren fun c => (bottomUp step c).value)).value := by
  rw [bottomUp_eq]

theorem count_bottomUp (n : Node) :
    (bottomUp step n).count = (n.children.map fun c => (bottomUp step c).count).sum +
      (step (n.mapChildren fun c => (bottomUp step c).value)).count := by
  rw [bottomUp_eq]

theorem log_bottomUp (n : Node) :
    (bottomUp step n).log = (n.children.flatMap fun c => (bottomUp step c).log) ++
      (step (n.mapChildren fun c => (bottomUp step c).value)).log := by
  rw [bottomUp_eq]

theorem value_inlineEntries (ns : List Node) :
    (inlineEntries ns).value = ns.flatMap fun n => (inlineEntry n).value := by
  induction ns with
  | nil => rfl
  | cons n ns ih => simp [inlineEntries, ih]

theorem log_inlineEntries (ns : List Node) :
    (inlineEntries ns).log = ns.flatMap fun n => (inlineEntry n).log := by
  induction ns with
  | nil => rfl
  | cons n ns ih => simp [inlineEntries, ih]

end Node

namespace Rule

theorem value_rewrite (r : Rule) (n : Node) :
    (r.rewrite n).value = (r.step (n.mapChildren fun c => (r.rewrite c).value)).value :=
  Node.value_bottomUp r.step n

theorem count_rewrite (r : Rule) (n : Node) :
    (r.rewrite n).count = (n.children.map fun c => (r.rewrite c).count).sum +
      (r.step (n.mapChildren fun c => (r.rewrite c).value)).count :=
  Node.count_bottomUp r.step n

theorem log_rewrite (r : Rule) (n : Node) :
    (r.rewrite n).log = (n.children.flatMap fun c => (r.rewrite c).log) ++
      (r.step (n.mapChildren fun c => (r.rewrite c).value)).log :=
  Node.log_bottomUp r.step n

theorem value_rewriteAll (r : Rule) (ns : List Node) :
    (r.rewriteAll ns).value = ns.map fun n => (r.rewrite n).value :=
  Node.value_bottomUpAll r.step ns

theorem count_rewriteAll (r : Rule) (ns : List Node) :
    (r.rewriteAll ns).count = (ns.map fun n => (r.rewrite n).count).sum :=
  Node.count_bottomUpAll r.step ns

theorem log_rewriteAll (r : Rule) (ns : List Node) :
    (r.rewriteAll ns).log = ns.flatMap fun n => (r.rewrite n).log :=
  Node.log_bottomUpAll r.step ns

end Rule
end DeadBranch
