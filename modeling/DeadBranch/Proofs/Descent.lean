import DeadBranch.Proofs.Rewrite.Progress

/-!
# Traversals from the top

The rules go through a tree from below and decide at a node when everything in it has
been rewritten. A traversal from the top decides first, on the tree as it was given, and
then goes on in what it has put there. Turning conditionals round comes to the same both
ways: what is rewritten in a conditional, be it the else-if that it is to swallow, shows
neither in whether the conditional is to be turned nor in which branch comes first.

Pruning comes to the same tree both ways too, but not to the same work. From the top a dead
alternate is gone before anything in it is looked at; from below it has been pruned itself,
and what was cut in there is counted.
-/
namespace DeadBranch

namespace Node

/-- How many nodes a tree has. -/
def size (n : Node) : Nat := n.total fun _ => 1

theorem size_eq (n : Node) : n.size = 1 + (n.children.map size).sum := total_eq _ n

theorem size_lt_of_mem_children {c n : Node} (h : c ∈ n.children) : c.size < n.size := by
  have hle := List.single_le_sum (fun _ _ => Nat.zero_le _) c.size (List.mem_map_of_mem h)
  rw [size_eq n]
  omega

theorem size_withLiteral (v : Bool) (t : Node) : (t.withLiteral v).size = t.size := by
  induction t using childInduction with
  | step t ih =>
      cases t with
      | paren s e =>
          have he := ih e (by simp [children])
          rw [withLiteral, size_eq, size_eq (.paren s e)]
          simp only [children, List.map_cons, List.map_nil, he]
      | bool s w => rw [withLiteral, size_eq, size_eq (.bool s w)]; rfl
      | _ => rfl

/-- As `mapChildren`, for a function that needs to know that it is given a child. -/
def mapChildrenMem : (n : Node) → ((c : Node) → c ∈ n.children → Node) → Node
  | .ifThen s t c, f => .ifThen s (f t (by simp [children])) (f c (by simp [children]))
  | .ifElse s t c a, f =>
      .ifElse s (f t (by simp [children])) (f c (by simp [children])) (f a (by simp [children]))
  | .block s k stmts, f => .block s k (stmts.attach.map fun c => f c.1 c.2)
  | .staticBlock s b k stmts, f => .staticBlock s b k (stmts.attach.map fun c => f c.1 c.2)
  | .paren s e, f => .paren s (f e (by simp [children]))
  | .bool s v, _ => .bool s v
  | .other l cs, f => .other l (cs.attach.map fun c => f c.1 c.2)

theorem mapChildrenMem_eq_mapChildren (n : Node) (f : Node → Node) :
    (n.mapChildrenMem fun c _ => f c) = n.mapChildren f := by
  cases n <;> simp [mapChildrenMem, mapChildren]

end Node

/-- What a traversal from the top puts in the place of each node before it goes on in the
children of that: something whose children are smaller than the node. -/
structure Descent where
  here : Node → Node
  size_lt : ∀ {n c : Node}, c ∈ (here n).children → c.size < n.size

namespace Descent

/-- Rewrite here, then below. -/
def run (d : Descent) (n : Node) : Node := (d.here n).mapChildrenMem fun c _ => d.run c
termination_by n.size
decreasing_by exact d.size_lt ‹_›

theorem run_eq (d : Descent) (n : Node) : d.run n = (d.here n).mapChildren d.run := by
  rw [run, Node.mapChildrenMem_eq_mapChildren]

/-- A function that does the same at every node is the same. -/
theorem eq_run {d : Descent} {g : Node → Node} (h : ∀ n, g n = (d.here n).mapChildren g)
    (n : Node) : g n = d.run n := by
  induction hsize : n.size using Nat.strong_induction_on generalizing n with
  | _ k ih =>
      rw [h, run_eq]
      apply Node.mapChildren_congr
      intro c hc
      exact ih c.size (hsize ▸ d.size_lt hc) c rfl

end Descent

namespace Node

/-- What comes first when a conditional with this alternate is turned round. -/
def lifted : Node → Node
  | .ifThen _ _ c => c
  | a => a

theorem lifted_of_fallThrough? {a b : Node} (h : a.fallThrough? = some b) : a.lifted = b := by
  rcases fallThrough?_eq_some h with ⟨hif, rfl⟩ | ⟨s, t, rfl, -⟩
  · cases b with
    | ifThen => exact absurd rfl hif
    | _ => rfl
  · rfl

theorem size_lifted_le (a : Node) : a.lifted.size ≤ a.size := by
  cases a with
  | ifThen s t c => exact (size_lt_of_mem_children (by simp [children, lifted])).le
  | _ => exact Nat.le_refl _

/-- Turn the node round if it is flippable: the branch that runs before the one that does not,
the literal of the test true, and nothing else of the test changed. -/
def turnHere : Node → Node
  | .ifElse s t c a =>
      if (Node.ifElse s t c a).Flippable then .ifElse s (t.withLiteral true) a.lifted c
      else .ifElse s t c a
  | n => n

theorem turnHere_of_not_flippable {n : Node} (h : ¬ n.Flippable) : n.turnHere = n := by
  cases n with
  | ifElse s t c a => rw [turnHere, if_neg h]
  | _ => rfl

theorem size_lt_of_mem_children_turnHere {n c : Node} (hc : c ∈ n.turnHere.children) :
    c.size < n.size := by
  by_cases h : n.Flippable
  · rcases h.exists_ifElse with ⟨s, t, b, a, -, rfl, -⟩
    have hsize : (Node.ifElse s t b a).size = 1 + (t.size + (b.size + a.size)) := by
      rw [size_eq]
      rfl
    have hlifted := a.size_lifted_le
    rw [turnHere, if_pos h] at hc
    simp only [children, List.mem_cons, List.not_mem_nil, or_false] at hc
    rcases hc with rfl | rfl | rfl
    · rw [size_withLiteral]
      omega
    · omega
    · omega
  · rw [turnHere_of_not_flippable h] at hc
    exact size_lt_of_mem_children hc

/-- Turning conditionals round from the top. -/
def turning : Descent := ⟨turnHere, size_lt_of_mem_children_turnHere⟩

/-- Take the alternate of the node away if the node is prunable. -/
def cutHere : Node → Node
  | .ifElse s t c a =>
      if (Node.ifElse s t c a).Prunable then .ifThen s t c else .ifElse s t c a
  | n => n

theorem cutHere_of_not_prunable {n : Node} (h : ¬ n.Prunable) : n.cutHere = n := by
  cases n with
  | ifElse s t c a => rw [cutHere, if_neg h]
  | _ => rfl

theorem mem_children_of_mem_children_cutHere {n c : Node} (hc : c ∈ n.cutHere.children) :
    c ∈ n.children := by
  by_cases h : n.Prunable
  · rcases h.exists_ifElse with ⟨s, t, b, a, rfl, -⟩
    rw [cutHere, if_pos h] at hc
    exact List.mem_append_left [a] hc
  · rwa [cutHere_of_not_prunable h] at hc

/-- Cutting dead alternates off from the top. -/
def cutting : Descent :=
  ⟨cutHere, fun hc => size_lt_of_mem_children (mem_children_of_mem_children_cutHere hc)⟩

end Node

namespace Rule

open Node

theorem flip_rewrite_eq (n : Node) :
    (flip.rewrite n).value = n.turnHere.mapChildren fun c => (flip.rewrite c).value := by
  by_cases h : n.Flippable
  · rcases h.exists_ifElse with ⟨s, t, c, a, b, rfl, ht, hb⟩
    rw [flip_of_fallThrough? ht hb, turnHere, if_pos h, mapChildren,
      rewrite_withLiteral flip true (by rw [ht]; rfl), lifted_of_fallThrough? hb]
  · rw [turnHere_of_not_flippable h]
    exact value_rewrite_of_not_appliesAt (r := flip) h

/-- A rule that has at most one place at a node counts the nodes with a place. -/
theorem count_rewrite_eq_count {r : Rule} {P : Node → Prop} [DecidablePred P]
    (h : ∀ n, r.places n = if P n then 1 else 0) (n : Node) :
    (r.rewrite n).count = n.count fun m => P m := by
  have hplaces : r.places = fun m => (decide (P m)).toNat := by
    funext m
    by_cases hm : P m <;> simp [h, hm]
  rw [count_rewrite_eq_total, hplaces, Node.count]

theorem flip_count_eq (n : Node) : (flip.rewrite n).count = n.count fun m => m.Flippable :=
  count_rewrite_eq_count (fun _ => rfl) n

/-- Going through a tree from below, the rule turns what would be turned from the top, and it
counts the conditionals that were flippable before it began. -/
theorem flip_from_the_top :
    (∀ n : Node, (flip.rewrite n).value = turning.run n ∧
        (flip.rewrite n).count = n.count fun m => m.Flippable) ∧
      ∀ ns : List Node, (flip.rewriteAll ns).value = ns.map turning.run ∧
        (flip.rewriteAll ns).count = (ns.map fun n => n.count fun m => m.Flippable).sum := by
  have hvalue : (fun n => (flip.rewrite n).value) = turning.run :=
    funext (Descent.eq_run flip_rewrite_eq)
  refine ⟨fun n => ⟨congrFun hvalue n, flip_count_eq n⟩, fun ns => ⟨?_, ?_⟩⟩
  · rw [← hvalue]
    exact value_bottomUpAll flip.step ns
  · rw [← List.map_congr_left fun n _ => flip_count_eq n]
    exact count_bottomUpAll flip.step ns

/-- The else-if is turned round and with that still no bare `else if (true)`: the conditional that
it belongs to stays. -/
example (s : Span) :
    (Node.ifElse s (.bool s false) (.block s 0 [])
        (.ifElse s (.bool s false) (.block s 1 []) (.block s 2 []))).flip.value =
      .ifElse s (.bool s false) (.block s 0 [])
        (.ifElse s (.bool s true) (.block s 2 []) (.block s 1 [])) := rfl

theorem prune_rewrite_eq (n : Node) :
    (prune.rewrite n).value = n.cutHere.mapChildren fun c => (prune.rewrite c).value := by
  by_cases h : n.Prunable
  · rcases h.exists_ifElse with ⟨s, t, c, a, rfl, ht, ha⟩
    rw [prune_of_prunable ht ha, cutHere, if_pos h, mapChildren]
  · rw [cutHere_of_not_prunable h]
    exact value_rewrite_of_not_appliesAt (r := prune) h

theorem prune_count_eq (n : Node) : (prune.rewrite n).count = n.count fun m => m.Prunable :=
  count_rewrite_eq_count (fun _ => rfl) n

/-- Going through a tree from below, the rule leaves what is left if dead alternates are cut off from
the top, and it counts all conditionals that were prunable before it began, also those that went
with a dead alternate. -/
theorem prune_from_the_top :
    (∀ n : Node, (prune.rewrite n).value = cutting.run n ∧
        (prune.rewrite n).count = n.count fun m => m.Prunable) ∧
      ∀ ns : List Node, (prune.rewriteAll ns).value = ns.map cutting.run ∧
        (prune.rewriteAll ns).count = (ns.map fun n => n.count fun m => m.Prunable).sum := by
  have hvalue : (fun n => (prune.rewrite n).value) = cutting.run :=
    funext (Descent.eq_run prune_rewrite_eq)
  refine ⟨fun n => ⟨congrFun hvalue n, prune_count_eq n⟩, fun ns => ⟨?_, ?_⟩⟩
  · rw [value_rewriteAll, hvalue]
  · rw [count_rewriteAll, List.map_congr_left fun n _ => prune_count_eq n]

/-- The alternate goes, and the one that was cut off inside it is counted. -/
example (s : Span) :
    (Node.ifElse s (.bool s true) (.block s 0 [])
        (.block s 1 [.ifElse s (.bool s true) (.block s 2 []) (.block s 3 [])])).prune =
      ⟨.ifThen s (.bool s true) (.block s 0 []), 2, [.removed s, .removed s]⟩ := rfl

end Rule
end DeadBranch
