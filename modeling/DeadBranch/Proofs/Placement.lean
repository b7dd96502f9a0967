import DeadBranch.Proofs.Pipeline.Passes
import DeadBranch.Source.Program
import Mathlib.Data.List.Perm.Subperm

/-!
# What stands where

The rules take conditionals, braces and literal tests apart and put them together
again; all other nodes they only carry along. The listing of a tree names every node
that they carry, in the order in which a traversal leaves them, with all data of its
own and with what it stands in: loops, labels, switch cases, functions and whatever
else encloses it. Inlining keeps this listing, flipping reorders it, pruning leaves
entries out. So no rule makes a node up, doubles one, or moves one into or out of a
loop, a function or anything else that is not a conditional or braces.
-/
namespace DeadBranch

/-- A node without its children, if it is neither a conditional nor a block. -/
inductive Shell where
  | staticBlock (span bodySpan : Span) (scope : Nat)
  | paren (span : Span)
  | bool (span : Span) (value : Bool)
  | other (label : Label)
deriving Repr, DecidableEq

/-- An entry of a listing: a node and what it stands in, from the inside out. -/
structure Placed where
  node : Shell
  context : List Shell
deriving Repr, DecidableEq

namespace Node

mutual

/-- The nodes of a tree that stands in `context`, each behind its children. Conditionals,
blocks and the literals that conditionals test are left out. -/
def listing (context : List Shell) : Node → List Placed
  | .ifThen _ t c =>
      (if t.literalBoolean.isSome then [] else listing context t) ++ listing context c
  | .ifElse _ t c a =>
      (if t.literalBoolean.isSome then [] else listing context t) ++
        (listing context c ++ listing context a)
  | .block _ _ stmts => listingAll context stmts
  | .staticBlock s b k stmts =>
      listingAll (.staticBlock s b k :: context) stmts ++ [⟨.staticBlock s b k, context⟩]
  | .paren s e => listing (.paren s :: context) e ++ [⟨.paren s, context⟩]
  | .bool s v => [⟨.bool s v, context⟩]
  | .other l cs => listingAll (.other l :: context) cs ++ [⟨.other l, context⟩]

def listingAll (context : List Shell) : List Node → List Placed
  | [] => []
  | n :: ns => listing context n ++ listingAll context ns

end

/-- The listing of a whole tree. -/
def carried (n : Node) : List Placed := n.listing []

theorem listingAll_eq_flatMap (context : List Shell) (ns : List Node) :
    listingAll context ns = ns.flatMap (listing context) := by
  induction ns with
  | nil => rfl
  | cons n ns ih => rw [listingAll, ih, List.flatMap_cons]

/-- The statements of a block stand where the block stands. -/
theorem listing_block (context : List Shell) (s : Span) (k : Nat) (stmts : List Node) :
    listing context (.block s k stmts) = stmts.flatMap (listing context) :=
  listingAll_eq_flatMap context stmts

theorem listing_ifThen_of_literalBoolean (context : List Shell) {s : Span} {t c : Node}
    (ht : t.literalBoolean.isSome) : listing context (.ifThen s t c) = listing context c := by
  change (if t.literalBoolean.isSome then [] else listing context t) ++ listing context c = _
  rw [if_pos ht, List.nil_append]

theorem listing_ifElse_of_literalBoolean (context : List Shell) {s : Span} {t c a : Node}
    (ht : t.literalBoolean.isSome) :
    listing context (.ifElse s t c a) = listing context c ++ listing context a := by
  change (if t.literalBoolean.isSome then [] else listing context t) ++
    (listing context c ++ listing context a) = _
  rw [if_pos ht, List.nil_append]

/-- A branch that falls through an alternate is all of it that is listed. -/
theorem listing_fallThrough? (context : List Shell) {a b : Node} (h : a.fallThrough? = some b) :
    listing context a = listing context b := by
  obtain ⟨-, rfl⟩ | ⟨s, t, rfl, ht⟩ := fallThrough?_eq_some h
  · rfl
  · exact listing_ifThen_of_literalBoolean context (by rw [ht]; rfl)

theorem flatMap_listing_inlineEntry (context : List Shell) (e : Node) :
    (inlineEntry e).value.flatMap (listing context) = listing context e := by
  by_cases h : e.Inlinable
  · obtain ⟨s, t, s', k, stmts, rfl, ht⟩ := h.exists_block
    rw [inlineEntry_ifThen ht, Traced.value_rewrite,
      listing_ifThen_of_literalBoolean context (by rw [ht]; rfl), listing_block]
  · rw [inlineEntry_of_not_inlinable h, Traced.value_pure, List.flatMap_singleton]

end Node

open Node

namespace Rule

/-- What a rule may do to a listing: reorder it, leave entries out, or nothing. -/
def Rearranges {α : Type} : Rule → List α → List α → Prop
  | .flip, after, before => after.Perm before
  | .prune, after, before => after.Sublist before
  | .inline, after, before => after = before

namespace Rearranges

variable {α : Type} {r : Rule} {xs ys zs : List α}

theorem refl (r : Rule) (xs : List α) : r.Rearranges xs xs := by
  cases r with
  | flip => exact List.Perm.refl xs
  | prune => exact List.Sublist.refl xs
  | inline => rfl

theorem trans (h : r.Rearranges xs ys) (h' : r.Rearranges ys zs) : r.Rearranges xs zs := by
  cases r with
  | flip => exact List.Perm.trans h h'
  | prune => exact List.Sublist.trans h h'
  | inline => exact Eq.trans h h'

theorem append {xs' ys' : List α} (h : r.Rearranges xs ys) (h' : r.Rearranges xs' ys') :
    r.Rearranges (xs ++ xs') (ys ++ ys') := by
  cases r with
  | flip => exact List.Perm.append h h'
  | prune => exact List.Sublist.append h h'
  | inline => exact congrArg₂ List.append h h'

theorem flatMap {β : Type} {f g : β → List α} {bs : List β}
    (h : ∀ b ∈ bs, r.Rearranges (f b) (g b)) : r.Rearranges (bs.flatMap f) (bs.flatMap g) := by
  induction bs with
  | nil => exact refl r []
  | cons b bs ih =>
      rw [List.forall_mem_cons] at h
      rw [List.flatMap_cons, List.flatMap_cons]
      exact h.1.append (ih h.2)

/-- No rule adds an entry or doubles one. -/
theorem subperm (h : r.Rearranges xs ys) : xs.Subperm ys := by
  cases r with
  | flip => exact List.Perm.subperm h
  | prune => exact List.Sublist.subperm h
  | inline => exact List.Perm.subperm (List.Perm.of_eq h)

/-- Only pruning leaves entries out. -/
theorem perm (hr : r ≠ .prune) (h : r.Rearranges xs ys) : xs.Perm ys := by
  cases r with
  | flip => exact h
  | prune => exact absurd rfl hr
  | inline => exact List.Perm.of_eq h

end Rearranges

variable {r : Rule} {n m : Node} {k : Nat}

/-- A step rearranges the listing of the node it is taken at, wherever that stands. -/
theorem Step.listing_rearranges (h : Step r n m k) (context : List Shell) :
    r.Rearranges (m.listing context) (n.listing context) := by
  cases h with
  | skip => exact .refl r _
  | @flip s t c a b ht ha =>
      -- The test is a literal before and after, and so not listed: the branches change places.
      have hsome : t.literalBoolean.isSome := by rw [ht]; rfl
      have hsome' : (t.withLiteral true).literalBoolean.isSome := by simp [ht]
      rw [listing_ifElse_of_literalBoolean context hsome',
        listing_ifElse_of_literalBoolean context hsome, listing_fallThrough? context ha]
      exact List.perm_append_comm
  | @prune s t c a ht ha =>
      have hsome : t.literalBoolean.isSome := by rw [ht]; rfl
      rw [listing_ifThen_of_literalBoolean context hsome,
        listing_ifElse_of_literalBoolean context hsome]
      exact List.sublist_append_left _ _
  | @inline s k stmts =>
      rw [listing_block, listing_block, List.flatMap_assoc]
      exact List.flatMap_congr fun e _ => flatMap_listing_inlineEntry context e

/-- What is done to the listing of each child is done to that of the node. -/
theorem listing_mapChildren_rearranges {f : Node → Node}
    (hlit : ∀ c ∈ n.children, (f c).literalBoolean = c.literalBoolean)
    (h : ∀ c ∈ n.children, ∀ context,
      r.Rearranges ((f c).listing context) (c.listing context)) (context : List Shell) :
    r.Rearranges ((n.mapChildren f).listing context) (n.listing context) := by
  have htest {t : Node} (ht : t ∈ n.children) :
      r.Rearranges (if (f t).literalBoolean.isSome then [] else (f t).listing context)
        (if t.literalBoolean.isSome then [] else t.listing context) := by
    rw [hlit t ht]
    split
    · exact .refl r []
    · exact h t ht context
  have hall {ns : List Node} (context : List Shell) (hns : ∀ c ∈ ns, c ∈ n.children) :
      r.Rearranges (listingAll context (ns.map f)) (listingAll context ns) := by
    rw [listingAll_eq_flatMap, listingAll_eq_flatMap, List.flatMap_map]
    exact .flatMap fun c hc => h c (hns c hc) context
  cases n with
  | ifThen s t c =>
      exact (htest (by simp [children])).append (h c (by simp [children]) context)
  | ifElse s t c a =>
      exact (htest (by simp [children])).append
        ((h c (by simp [children]) context).append (h a (by simp [children]) context))
  | block s k stmts => exact hall context fun c hc => hc
  | staticBlock s b k stmts => exact (hall _ fun c hc => hc).append (.refl r _)
  | paren s e => exact (h e (by simp [children]) _).append (.refl r _)
  | bool s v => exact .refl r _
  | other l cs => exact (hall _ fun c hc => hc).append (.refl r _)

theorem listing_rewrite_rearranges (r : Rule) (n : Node) (context : List Shell) :
    r.Rearranges ((r.rewrite n).value.listing context) (n.listing context) := by
  induction n using childInduction generalizing context with
  | step n ih =>
      rw [value_rewrite]
      have hbelow := listing_mapChildren_rearranges (fun c _ => r.literalBoolean_rewrite c) ih
      exact ((step_spec r _).listing_rearranges context).trans (hbelow context)

end Rule

namespace DeadCode

/-- Inlining carries every node along in its order, flipping in another order, and pruning drops
some; so a run of the pass makes up and doubles none, and without pruning loses none. -/
theorem carried_of_rewrites (n : Node) :
    (Rule.inline.rewrite n).value.carried = n.carried ∧
      List.Perm (Rule.flip.rewrite n).value.carried n.carried ∧
      List.Sublist (Rule.prune.rewrite n).value.carried n.carried ∧
      ∀ rules : RuleSet,
        List.Subperm (run rules n).program.carried n.carried ∧
          (¬ rules.enables .prune → List.Perm (run rules n).program.carried n.carried) := by
  have hrule (r : Rule) (m : Node) : r.Rearranges (r.rewrite m).value.carried m.carried :=
    r.listing_rewrite_rearranges m []
  refine ⟨hrule .inline n, hrule .flip n, hrule .prune n, fun rules => ⟨?_, fun hprune => ?_⟩⟩
  · apply run_preserves (P := fun m => List.Subperm m.carried n.carried) _ (List.Subperm.refl _)
    intro r _ m hm
    exact (hrule r m).subperm.trans hm
  · apply run_preserves (P := fun m => List.Perm m.carried n.carried) _ (List.Perm.refl _)
    intro r hr m hm
    have hne : r ≠ .prune := fun h => hprune (h ▸ hr)
    exact ((hrule r m).perm hne).trans hm

/-- In a loop two calls that change places and one that loses the braces around it. -/
def turnedInLoop : Node :=
  (Source.readModule
    "for(;;)\x7bif((false))a();else if(true)b();if(true)\x7bc();\x7d\x7d").toOption.getD default

/-- Flip and inline are enabled, and the bits that stand for no rule. -/
theorem carried_of_rewrites_turnedInLoop :
    ¬ (RuleSet.mk 245).enables .prune ∧
      (run ⟨245⟩ turnedInLoop).program.carried ≠ turnedInLoop.carried ∧
      List.Perm (run ⟨245⟩ turnedInLoop).program.carried turnedInLoop.carried := by
  have hprune : ¬ (RuleSet.mk 245).enables .prune := by decide
  refine ⟨hprune, by decide +kernel, ?_⟩
  exact ((carried_of_rewrites turnedInLoop).2.2.2 ⟨245⟩).2 hprune

end DeadCode
end DeadBranch
