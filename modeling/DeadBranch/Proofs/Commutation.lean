import DeadBranch.Proofs.Rewrite.Exhaustion

/-!
# Flipping and inlining commute

A flip makes tests true, and true conditionals are what inlining is after. But the
conditional that a flip has turned round keeps an alternate, so it does not give way to its
body, and the bare `else if (true)` that a flip dissolves was an alternate, never an entry
of a block. Inlining for its part dissolves nothing that a flip looks at, and carries
flippable conditionals along as they are. So each of the two finds the same places before
and after the other, and they end in the same tree in either order.
-/
namespace DeadBranch.Rule

open Node

variable {n m : Node} {k : Nat}

theorem total_places_of_literalBoolean (r : Rule) {t : Node} (h : t.literalBoolean.isSome) :
    t.total r.places = 0 :=
  total_of_literalBoolean (fun _ ht => places_eq_zero.mpr (not_appliesAt_of_literalBoolean r ht)) h

theorem total_places_ifThen (r : Rule) {s : Span} {t c : Node} (ht : t.literalBoolean.isSome) :
    (Node.ifThen s t c).total r.places = c.total r.places := by
  have hhere : r.places (.ifThen s t c) = 0 := by cases r <;> rfl
  have htest := r.total_places_of_literalBoolean ht
  rw [total_eq, hhere]
  simp [children, htest]

/-- No entry of a block is lost or made where a conditional is turned round. -/
theorem total_inline_places_of_flip (h : Step .flip n m k) :
    m.total inline.places = n.total inline.places := by
  cases h with
  | skip => rfl
  | @flip s t c a b ht ha =>
      have htest : t.total inline.places = 0 :=
        inline.total_places_of_literalBoolean (by simp [ht])
      have htest' : (t.withLiteral true).total inline.places = 0 :=
        inline.total_places_of_literalBoolean (by simp [ht])
      have hfalls : a.total inline.places = b.total inline.places := by
        rcases fallThrough?_eq_some ha with ⟨-, rfl⟩ | ⟨s', t', rfl, ht'⟩
        · rfl
        · exact inline.total_places_ifThen (by rw [ht']; rfl)
      have hsum (t c a : Node) : (Node.ifElse s t c a).total inline.places =
          t.total inline.places + (c.total inline.places + a.total inline.places) := by
        rw [total_eq]
        simp [children, places]
      rw [hsum, hsum, htest, htest', hfalls]
      omega

theorem sum_total_flip_places_inlineEntry (e : Node) :
    ((inlineEntry e).value.map (total flip.places)).sum = e.total flip.places := by
  by_cases h : e.Inlinable
  · rcases h.exists_block with ⟨s, t, s', k, stmts, rfl, ht⟩
    have hsome : t.literalBoolean.isSome := by rw [ht]; rfl
    rw [inlineEntry_ifThen ht, Traced.value_rewrite, flip.total_places_ifThen hsome, total_eq]
    exact (Nat.zero_add _).symm
  · rw [inlineEntry_of_not_inlinable h, Traced.value_pure, List.map_singleton, List.sum_singleton]

/-- No flippable conditional is lost or made where entries give way to their bodies. -/
theorem total_flip_places_of_inline (h : Step .inline n m k) :
    m.total flip.places = n.total flip.places := by
  cases h with
  | skip => rfl
  | @inline s k stmts =>
      have hsum (es : List Node) : (Node.block s k es).total flip.places =
          (es.map (total flip.places)).sum := by
        rw [total_eq]
        exact Nat.zero_add _
      rw [hsum, hsum]
      induction stmts with
      | nil => rfl
      | cons e es ih =>
          rw [List.flatMap_cons, List.map_append, List.sum_append, ih, List.map_cons, List.sum_cons,
            sum_total_flip_places_inlineEntry]

/-- What neither a step nor the work below it changes at a node adds up to the same. -/
theorem total_rewrite (r : Rule) {f : Node → Nat}
    (hbelow : ∀ n : Node, f (n.mapChildren fun c => (r.rewrite c).value) = f n)
    (hstep : ∀ {n m k}, Step r n m k → m.total f = n.total f) (n : Node) :
    (r.rewrite n).value.total f = n.total f := by
  induction n using childInduction with
  | step n ih =>
      rw [value_rewrite, hstep (r.step_spec _), total_eq, hbelow, children_mapChildren,
        List.map_map, Function.comp_def, List.map_congr_left ih, ← total_eq]

theorem count_flip_inline (n : Node) :
    (flip.rewrite (inline.rewrite n).value).count = (flip.rewrite n).count := by
  rw [count_rewrite_eq_total, count_rewrite_eq_total]
  exact inline.total_rewrite (places_mapChildren_rewrite nofun) total_flip_places_of_inline n

theorem count_inline_flip (n : Node) :
    (inline.rewrite (flip.rewrite n).value).count = (inline.rewrite n).count := by
  rw [count_rewrite_eq_total, count_rewrite_eq_total]
  exact flip.total_rewrite (places_mapChildren_rewrite nofun) total_inline_places_of_flip n

/-- Statements may be turned round before or after they take the place of an entry. -/
theorem map_flip_inlineEntry (e : Node) :
    (inlineEntry e).value.map (fun d => (flip.rewrite d).value) =
      (inlineEntry (flip.rewrite e).value).value := by
  have hkeeps := inlinable_rewrite (r := flip) nofun e
  by_cases h : e.Inlinable
  · rcases h.exists_block with ⟨s, t, s', k, stmts, rfl, ht⟩
    have ht' : (flip.rewrite t).value.literalBoolean = some true := by
      rw [literalBoolean_rewrite, ht]
    have hblock : (flip.rewrite (.block s' k stmts)).value =
        .block s' k (stmts.map fun d => (flip.rewrite d).value) :=
      value_rewrite_of_not_appliesAt (r := flip) id
    rw [rewrite_ifThen, hblock, inlineEntry_ifThen ht, inlineEntry_ifThen ht',
      Traced.value_rewrite, Traced.value_rewrite]
  · rw [inlineEntry_of_not_inlinable h, inlineEntry_of_not_inlinable (mt hkeeps.mp h),
      Traced.value_pure, Traced.value_pure, List.map_singleton]

/-- The order of flipping and inlining does not show in what they leave of the tree. -/
def OrderFree (n : Node) : Prop :=
  (inline.rewrite (flip.rewrite n).value).value = (flip.rewrite (inline.rewrite n).value).value

theorem orderFree_block {s : Span} {k : Nat} {stmts : List Node}
    (h : ∀ e ∈ stmts, OrderFree e) : OrderFree (.block s k stmts) := by
  have hflip (es : List Node) : (flip.rewrite (.block s k es)).value =
      .block s k (es.map fun e => (flip.rewrite e).value) :=
    value_rewrite_of_not_appliesAt (r := flip) id
  rw [OrderFree, hflip, inline_block, inline_block, hflip, List.map_map, Function.comp_def,
    List.map_congr_left h, List.map_flatMap, List.flatMap_map, List.flatMap_map]
  exact congrArg (Node.block s k)
    (List.flatMap_congr fun e _ => (map_flip_inlineEntry (inline.rewrite e).value).symm)

/-- What falls through an else-if takes this over from it. -/
theorem OrderFree.of_fallThrough? {a b : Node} (ha : a.fallThrough? = some b) (h : OrderFree a) :
    OrderFree b := by
  have hf : flip ≠ prune := by decide
  have hi : inline ≠ prune := by decide
  have hfalls := congrArg fallThrough? h
  rw [fallThrough?_rewrite hi, fallThrough?_rewrite hf, fallThrough?_rewrite hf,
    fallThrough?_rewrite hi, ha] at hfalls
  exact Option.some.inj hfalls

theorem orderFree_of_flippable {n : Node} (hflip : n.Flippable)
    (h : ∀ d ∈ n.children, OrderFree d) : OrderFree n := by
  have hi : inline ≠ prune := by decide
  rcases hflip.exists_ifElse with ⟨s, t, c, a, b, rfl, ht, hb⟩
  have ht' : (inline.rewrite t).value.literalBoolean = some false := by
    rw [literalBoolean_rewrite, ht]
  have hb' : (inline.rewrite a).value.fallThrough? = some (inline.rewrite b).value := by
    rw [fallThrough?_rewrite hi, hb, Option.map_some]
  have htest : (flip.rewrite t).value.literalBoolean.isSome := by
    rw [literalBoolean_rewrite, ht]
    rfl
  have htest' : OrderFree t := h t (by simp [children])
  have hcons : OrderFree c := h c (by simp [children])
  have hbody : OrderFree b := (h a (by simp [children])).of_fallThrough? hb
  rw [OrderFree] at htest' hcons hbody
  rw [OrderFree, flip_of_fallThrough? ht hb, inline_ifElse, rewrite_withLiteral inline true htest,
    inline_ifElse, flip_of_fallThrough? ht' hb', htest', hcons, hbody]

/-- Where neither rule has a place of its own, it has none when the other has been below. -/
theorem orderFree_of_not_flippable {n : Node} (hflip : ¬ n.Flippable) (hblock : ¬ n.isBlock)
    (h : ∀ d ∈ n.children, OrderFree d) : OrderFree n := by
  have hi : inline ≠ prune := by decide
  have hkeeps : ¬ (n.mapChildren fun c => (inline.rewrite c).value).Flippable := by
    rwa [flippable_mapChildren_rewrite hi]
  rw [OrderFree, inline_of_not_isBlock hblock, value_rewrite_of_not_appliesAt (r := flip) hkeeps,
    value_rewrite_of_not_appliesAt (r := flip) hflip,
    inline_of_not_isBlock (by rwa [isBlock_mapChildren]), mapChildren_mapChildren,
    mapChildren_mapChildren]
  exact mapChildren_congr h

theorem orderFree (n : Node) : OrderFree n := by
  induction n using childInduction with
  | step n ih =>
      by_cases hflip : n.Flippable
      · exact orderFree_of_flippable hflip ih
      by_cases hblock : n.isBlock
      · cases n with
        | block s k stmts => exact orderFree_block ih
        | _ => cases hblock
      · exact orderFree_of_not_flippable hflip hblock ih

/-- Flipping and inlining end in the same tree in either order, and each counts as much behind the
other as before it; and so they do in a list of trees. -/
theorem flip_inline_commute :
    (∀ n : Node,
        (inline.rewrite (flip.rewrite n).value).value =
            (flip.rewrite (inline.rewrite n).value).value ∧
          (flip.rewrite (inline.rewrite n).value).count = (flip.rewrite n).count ∧
          (inline.rewrite (flip.rewrite n).value).count = (inline.rewrite n).count) ∧
      ∀ ns : List Node,
        (inline.rewriteAll (flip.rewriteAll ns).value).value =
            (flip.rewriteAll (inline.rewriteAll ns).value).value ∧
          (flip.rewriteAll (inline.rewriteAll ns).value).count = (flip.rewriteAll ns).count ∧
          (inline.rewriteAll (flip.rewriteAll ns).value).count = (inline.rewriteAll ns).count := by
  refine ⟨fun n => ⟨orderFree n, count_flip_inline n, count_inline_flip n⟩, fun ns => ?_⟩
  simp only [value_rewriteAll, count_rewriteAll, List.map_map, Function.comp_def]
  have hvalue := List.map_congr_left fun n (_ : n ∈ ns) => orderFree n
  have hflip := List.map_congr_left fun n (_ : n ∈ ns) => count_flip_inline n
  have hinline := List.map_congr_left fun n (_ : n ∈ ns) => count_inline_flip n
  exact ⟨hvalue, congrArg List.sum hflip, congrArg List.sum hinline⟩

/-- The turned conditional keeps an alternate, so its braces stay; those in its branch go. -/
example (s : Span) :
    let entry : Node := .ifThen s (.bool s true) (.block s 1 [])
    let tree (t first second : Node) : Node := .block s 0 [.ifElse s t first second]
    (tree (.bool s false) (.block s 2 [entry]) entry).flip.value.inline.value =
      tree (.bool s true) (.block s 1 []) (.block s 2 []) := rfl

end DeadBranch.Rule
