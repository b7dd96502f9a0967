import DeadBranch.Tree.Node
import Mathlib.Algebra.Order.BigOperators.Group.List
import Mathlib.Algebra.Order.Ring.Nat

/-!
# Children and subtrees

The children of a node in visiting order, the node with its children replaced
one by one, and all subtrees of a tree. Induction over trees and the equations
of recursive functions on them are stated once over `children`, so that a proof
has one case for each kind of node only where the kinds differ.

`total` adds up a number given for each node on its own; it is how the later
modules count conditionals and places that a rule rewrites.
-/
namespace DeadBranch.Node

/-- The children in visiting order. -/
def children : Node → List Node
  | .ifThen _ t c => [t, c]
  | .ifElse _ t c a => [t, c, a]
  | .block _ _ stmts => stmts
  | .staticBlock _ _ _ stmts => stmts
  | .paren _ e => [e]
  | .bool _ _ => []
  | .other _ cs => cs

/-- The node with `f` applied to each child; the node's own data stays. -/
def mapChildren (f : Node → Node) : Node → Node
  | .ifThen s t c => .ifThen s (f t) (f c)
  | .ifElse s t c a => .ifElse s (f t) (f c) (f a)
  | .block s k stmts => .block s k (stmts.map f)
  | .staticBlock s b k stmts => .staticBlock s b k (stmts.map f)
  | .paren s e => .paren s (f e)
  | .bool s v => .bool s v
  | .other l cs => .other l (cs.map f)

@[simp] theorem children_mapChildren (f : Node → Node) (n : Node) :
    (n.mapChildren f).children = n.children.map f := by
  cases n <;> rfl

theorem mapChildren_congr {f g : Node → Node} {n : Node}
    (h : ∀ c ∈ n.children, f c = g c) : n.mapChildren f = n.mapChildren g := by
  cases n <;> simp_all [mapChildren, children]

theorem mapChildren_id {f : Node → Node} {n : Node} (h : ∀ c ∈ n.children, f c = c) :
    n.mapChildren f = n := by
  have hmap {ns : List Node} (hns : ∀ c ∈ ns, f c = c) : ns.map f = ns :=
    (List.map_congr_left hns).trans (List.map_id ns)
  cases n <;> simp_all [mapChildren, children]

theorem mapChildren_mapChildren (f g : Node → Node) (n : Node) :
    (n.mapChildren f).mapChildren g = n.mapChildren fun c => g (f c) := by
  cases n <;> simp [mapChildren, Function.comp_def]

mutual

/-- Induction over trees: a property of all children carries over to the node. -/
@[elab_as_elim]
theorem childInduction {P : Node → Prop} (step : ∀ n, (∀ c ∈ n.children, P c) → P n) :
    (n : Node) → P n
  | .ifThen _ t c =>
      step _ (by simp [children, childInduction step t, childInduction step c])
  | .ifElse _ t c a =>
      step _ (by simp [children, childInduction step t, childInduction step c,
        childInduction step a])
  | .block _ _ stmts => step _ (childInductionAll step stmts)
  | .staticBlock _ _ _ stmts => step _ (childInductionAll step stmts)
  | .paren _ e => step _ (by simp [children, childInduction step e])
  | .bool _ _ => step _ (by simp [children])
  | .other _ cs => step _ (childInductionAll step cs)

theorem childInductionAll {P : Node → Prop} (step : ∀ n, (∀ c ∈ n.children, P c) → P n) :
    (ns : List Node) → ∀ c ∈ ns, P c
  | [] => by simp
  | n :: ns => List.forall_mem_cons.mpr ⟨childInduction step n, childInductionAll step ns⟩

end

mutual

/-- The node and everything below it, each node before its children. -/
def subtrees : Node → List Node
  | .ifThen s t c => .ifThen s t c :: (subtrees t ++ subtrees c)
  | .ifElse s t c a => .ifElse s t c a :: (subtrees t ++ (subtrees c ++ subtrees a))
  | .block s k stmts => .block s k stmts :: subtreesAll stmts
  | .staticBlock s b k stmts => .staticBlock s b k stmts :: subtreesAll stmts
  | .paren s e => .paren s e :: subtrees e
  | .bool s v => [.bool s v]
  | .other l cs => .other l cs :: subtreesAll cs

def subtreesAll : List Node → List Node
  | [] => []
  | n :: ns => subtrees n ++ subtreesAll ns

end

theorem subtreesAll_eq_flatMap (ns : List Node) : subtreesAll ns = ns.flatMap subtrees := by
  induction ns with
  | nil => rfl
  | cons n ns ih => simp [subtreesAll, ih]

theorem subtrees_eq (n : Node) : n.subtrees = n :: n.children.flatMap subtrees := by
  cases n <;> simp [subtrees, children, subtreesAll_eq_flatMap]

theorem self_mem_subtrees (n : Node) : n ∈ n.subtrees := by
  simp [subtrees_eq n]

theorem mem_subtrees {m n : Node} :
    m ∈ n.subtrees ↔ m = n ∨ ∃ c ∈ n.children, m ∈ c.subtrees := by
  rw [subtrees_eq n, List.mem_cons, List.mem_flatMap]

theorem mem_subtrees_of_mem_children {m c n : Node} (hc : c ∈ n.children) (hm : m ∈ c.subtrees) :
    m ∈ n.subtrees := by
  rw [mem_subtrees]
  exact .inr ⟨c, hc, hm⟩

theorem mem_subtrees_trans {k m n : Node} (hk : k ∈ m.subtrees) (hm : m ∈ n.subtrees) :
    k ∈ n.subtrees := by
  induction n using childInduction with
  | step n ih =>
      obtain rfl | ⟨c, hc, hm⟩ := mem_subtrees.mp hm
      · exact hk
      · exact mem_subtrees_of_mem_children hc (ih c hc hm)

/-- Some subtree has the property: the node itself, or one in a child. -/
theorem exists_mem_subtrees {P : Node → Prop} {n : Node} :
    (∃ m ∈ n.subtrees, P m) ↔ P n ∨ ∃ c ∈ n.children, ∃ m ∈ c.subtrees, P m := by
  constructor
  · rintro ⟨m, hm, h⟩
    obtain rfl | ⟨c, hc, hm⟩ := mem_subtrees.mp hm
    · exact .inl h
    · exact .inr ⟨c, hc, m, hm, h⟩
  · rintro (h | ⟨c, hc, m, hm, h⟩)
    · exact ⟨n, n.self_mem_subtrees, h⟩
    · exact ⟨m, mem_subtrees_of_mem_children hc hm, h⟩

/-- The sum over all subtrees of a number that each node has on its own. -/
def total (f : Node → Nat) (n : Node) : Nat := (n.subtrees.map f).sum

theorem total_eq (f : Node → Nat) (n : Node) :
    n.total f = f n + (n.children.map (total f)).sum := by
  have hsum (ns : List Node) :
      ((ns.flatMap subtrees).map f).sum = (ns.map (total f)).sum := by
    induction ns with
    | nil => rfl
    | cons c ns ih => simp [total, ih]
  rw [total, subtrees_eq n, List.map_cons, List.sum_cons, hsum]

theorem total_eq_zero {f : Node → Nat} {n : Node} :
    n.total f = 0 ↔ ∀ m ∈ n.subtrees, f m = 0 := by
  simp [total, List.sum_eq_zero_iff_forall_eq_nat]

end DeadBranch.Node
