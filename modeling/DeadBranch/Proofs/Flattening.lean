import DeadBranch.Proofs.Rewrite.TopDown

/-!
# Inlining is flattening

Inlining works its way up: when a block is reached, the bodies of its entries have been
spliced into already. Seen from the top it is a flattening: an entry that is a true
conditional over a block stands for the statements in there, each of which may stand for
more, and so on down. Nothing else changes its place, and the statements of a static
block stay entries of their own, whatever is flattened inside them.
-/
namespace DeadBranch

namespace Node

mutual

/-- The tree with the statements of all its blocks flattened. -/
def flattened : Node → Node
  | .ifThen s t c => .ifThen s (flattened t) (flattened c)
  | .ifElse s t c a => .ifElse s (flattened t) (flattened c) (flattened a)
  | .block s k stmts => .block s k (flattenedBody stmts)
  | .staticBlock s b k stmts => .staticBlock s b k (flattenedAll stmts)
  | .paren s e => .paren s (flattened e)
  | .bool s v => .bool s v
  | .other l cs => .other l (flattenedAll cs)

/-- What the entries of a block stand for, one after the other. -/
def flattenedBody : List Node → List Node
  | [] => []
  | .ifThen s t (.block s' k stmts) :: es =>
      if t.literalBoolean = some true then flattenedBody stmts ++ flattenedBody es
      else flattened (.ifThen s t (.block s' k stmts)) :: flattenedBody es
  | e :: es => flattened e :: flattenedBody es

/-- The trees of a list, each flattened by itself. -/
def flattenedAll : List Node → List Node
  | [] => []
  | n :: ns => flattened n :: flattenedAll ns

end

theorem flattenedAll_eq_map (ns : List Node) : flattenedAll ns = ns.map flattened := by
  induction ns with
  | nil => rfl
  | cons n ns ih => rw [flattenedAll, ih, List.map_cons]

theorem flattenedBody_ifThen {s s' : Span} {t : Node} {k : Nat} {stmts : List Node}
    (ht : t.literalBoolean = some true) (es : List Node) :
    flattenedBody (.ifThen s t (.block s' k stmts) :: es) =
      flattenedBody stmts ++ flattenedBody es := if_pos ht

theorem flattenedBody_cons_of_not_inlinable {e : Node} (h : ¬ e.Inlinable) (es : List Node) :
    flattenedBody (e :: es) = e.flattened :: flattenedBody es := by
  cases e with
  | ifThen s t c =>
      cases c with
      | block s' k stmts =>
          have ht : ¬ t.literalBoolean = some true := fun ht => h ⟨ht, rfl⟩
          exact if_neg ht
      | _ => rfl
  | _ => rfl

theorem flattenedBody_cons (e : Node) (es : List Node) :
    flattenedBody (e :: es) = flattenedBody [e] ++ flattenedBody es := by
  by_cases h : e.Inlinable
  · obtain ⟨s, t, s', k, stmts, rfl, ht⟩ := h.exists_block
    have hnil : flattenedBody [] = [] := rfl
    rw [flattenedBody_ifThen ht, flattenedBody_ifThen ht, hnil, List.append_nil]
  · rw [flattenedBody_cons_of_not_inlinable h, flattenedBody_cons_of_not_inlinable h]
    rfl

/-- The direct entries of a block. The statements of a static block are none. -/
def blockEntries : Node → List Node
  | .block _ _ stmts => stmts
  | _ => []

end Node

namespace Rule

open Node

/-- Entries that have been flattened one by one give way to the flattened body. -/
theorem flatMap_inlineEntry_eq_flattenedBody {es : List Node}
    (h : ∀ e ∈ es, (inline.rewrite e).value = e.flattened) :
    ((es.map fun e => (inline.rewrite e).value).flatMap fun e => (inlineEntry e).value) =
      flattenedBody es := by
  induction es with
  | nil => rfl
  | cons e es ih =>
      rw [List.forall_mem_cons] at h
      have hkeeps := inlinable_rewrite (r := inline) nofun e
      rw [List.map_cons, List.flatMap_cons, ih h.2]
      rw [h.1] at hkeeps ⊢
      by_cases he : e.Inlinable
      · rcases he.exists_block with ⟨s, t, s', k, stmts, rfl, ht⟩
        have hentry : inlineEntry (Node.ifThen s t (.block s' k stmts)).flattened =
            .rewrite (.inlined s (flattenedBody stmts).length) (flattenedBody stmts) :=
          inlineEntry_ifThen (hkeeps.mpr he).1
        rw [hentry, Traced.value_rewrite, flattenedBody_ifThen ht]
      · rw [flattenedBody_cons_of_not_inlinable he,
          inlineEntry_of_not_inlinable (mt hkeeps.mp he), Traced.value_pure, List.singleton_append]

theorem inline_rewrite_eq_flattened (n : Node) : (inline.rewrite n).value = n.flattened := by
  induction n using childInduction with
  | step n ih =>
      cases n with
      | block s k stmts =>
          have hbody := flatMap_inlineEntry_eq_flattenedBody ih
          rw [children] at hbody
          rw [inline_block, hbody, flattened]
      | _ =>
          rw [value_rewrite_of_not_appliesAt (r := inline) id, mapChildren_congr ih]
          simp [mapChildren, flattened, flattenedAll_eq_map]

theorem inline_count_eq (n : Node) :
    (inline.rewrite n).count =
      (n.subtrees.flatMap blockEntries).countP fun e => e.Inlinable := by
  have hplaces : inline.places = List.countP (fun e => e.Inlinable) ∘ blockEntries := by
    funext m
    cases m <;> rfl
  rw [count_rewrite_eq_total, hplaces, List.countP_flatMap, total]

/-- Inlining flattens the statements of every block but a static block's, and it counts the entries
of blocks that were inlinable before it began. -/
theorem inline_flattens :
    (∀ n : Node, (inline.rewrite n).value = n.flattened ∧
        (inline.rewrite n).count =
          (n.subtrees.flatMap blockEntries).countP fun e => e.Inlinable) ∧
      ∀ ns : List Node, (inline.rewriteAll ns).value = flattenedAll ns ∧
        (inline.rewriteAll ns).count =
          ((subtreesAll ns).flatMap blockEntries).countP fun e => e.Inlinable := by
  refine ⟨fun n => ⟨inline_rewrite_eq_flattened n, inline_count_eq n⟩, fun ns => ⟨?_, ?_⟩⟩
  · rw [flattenedAll_eq_map, ← List.map_congr_left fun n _ => inline_rewrite_eq_flattened n]
    exact value_bottomUpAll inline.step ns
  · have hcounts := List.map_congr_left fun n (_ : n ∈ ns) => inline_count_eq n
    rw [subtreesAll_eq_flatMap, List.flatMap_assoc, List.countP_flatMap]
    exact (count_bottomUpAll inline.step ns).trans (congrArg List.sum hcounts)

/-- The statement of a static block stays its entry, and the block in there is flattened. -/
example (s : Span) :
    let entry (body : List Node) : Node := .ifThen s (.bool s true) (.block s 0 body)
    (Node.staticBlock s s 0 [entry [entry []]]).inline.value = .staticBlock s s 0 [entry []] := rfl

end Rule
end DeadBranch
