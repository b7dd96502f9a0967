import DeadBranch.Proofs.Declarations
import DeadBranch.Proofs.Flattening
import DeadBranch.Source.Program
import DeadBranch.Tree.Directive

/-!
# What inlining does to directives

A string at the head of a function's body is a directive, and inside braces it is not. When
the first entry behind the directives of a body is a true conditional over a block, the
statements in there come to stand at the head, and if they begin with a string it joins the
directives. No directive is lost, and the functions stay the same; but whether a body has
the directives that it had hangs on the first statement that its other entries stand for.
-/
namespace DeadBranch

namespace Node

/-- The literal of a directive with its span, its value and its spelling. -/
def directiveLiteral? (e : Node) : Option Label := e.directive?.bind label?

/-- The literals of the directives at the head of a list of statements. -/
def directives (stmts : List Node) : List Label := (prologue stmts).filterMap label?

/-- The statements behind the directives. -/
def behindDirectives (stmts : List Node) : List Node := stmts.dropWhile (·.directive?.isSome)

mutual

/-- The first statement that an entry of a block stands for. A true conditional over a block stands
for the statements in there, and for none if there are none. -/
def foremost? : Node → Option Node
  | .ifThen s t (.block s' k stmts) =>
      if t.literalBoolean = some true then foremostIn? stmts
      else some (.ifThen s t (.block s' k stmts))
  | e => some e

/-- The first statement that the entries of a block stand for. -/
def foremostIn? : List Node → Option Node
  | [] => none
  | e :: es => e.foremost?.or (foremostIn? es)

end

/-- The first statement that the entries stand for is a string. -/
def OpensWithString (es : List Node) : Prop := ∃ e, foremostIn? es = some e ∧ e.directive?.isSome

theorem foremost?_of_not_inlinable {e : Node} (h : ¬ e.Inlinable) : e.foremost? = some e := by
  cases e with
  | ifThen s t c =>
      cases c with
      | block s' k stmts =>
          have ht : ¬ t.literalBoolean = some true := fun ht => h ⟨ht, rfl⟩
          rw [foremost?, if_neg ht]
      | _ => rfl
  | _ => rfl

/-- The labels of a statement and of its child tell whether it is a directive. -/
theorem directiveLiteral?_eq (e : Node) :
    e.directiveLiteral? =
      match e.label?, e.children.map label? with
      | some label, [some literal] =>
          if label.kind = .expressionStatement ∧ literal.kind = .stringLiteral then some literal
          else none
      | _, _ => none := by
  cases e with
  | other label cs =>
      match cs with
      | [] => rfl
      | [c] =>
          cases c with
          | other literal ds =>
              simp only [directiveLiteral?, directive?, label?, face, Face.label?, children,
                List.map_cons, List.map_nil]
              split <;> rfl
          | _ => rfl
      | _ :: _ :: _ => simp [directiveLiteral?, directive?, children]
  | _ => rfl

theorem directiveLiteral?_isSome (e : Node) : e.directiveLiteral?.isSome = e.directive?.isSome := by
  unfold directiveLiteral? directive?
  split
  · split <;> rfl
  · rfl

theorem directiveLiteral?_eq_none_iff {e : Node} :
    e.directiveLiteral? = none ↔ ¬ e.directive?.isSome := by
  rw [← directiveLiteral?_isSome, Option.not_isSome_iff_eq_none]

theorem not_inlinable_of_directive? {e : Node} (h : e.directive?.isSome) : ¬ e.Inlinable := by
  cases e with
  | other => exact id
  | _ => cases h

theorem directives_cons_of_some {e : Node} {l : Label} (h : e.directiveLiteral? = some l)
    (es : List Node) : directives (e :: es) = l :: directives es := by
  obtain ⟨d, hd, hl⟩ := Option.bind_eq_some_iff.mp h
  have hsome : e.directive?.isSome := by rw [hd]; rfl
  rw [directives, prologue, List.takeWhile_cons, if_pos hsome, List.filterMap_cons_some hd,
    List.filterMap_cons_some hl, directives, prologue]

theorem directives_cons_of_none {e : Node} (h : e.directiveLiteral? = none) (es : List Node) :
    directives (e :: es) = [] := by
  rw [directives, prologue, List.takeWhile_cons, if_neg (directiveLiteral?_eq_none_iff.mp h)]
  rfl

theorem directives_eq_nil_iff {es : List Node} :
    directives es = [] ↔ ∀ e ∈ es.head?, e.directiveLiteral? = none := by
  cases es with
  | nil => simp [directives, prologue]
  | cons e es =>
      cases h : e.directiveLiteral? with
      | none => simp [directives_cons_of_none h, h]
      | some l => simp [directives_cons_of_some h, h]

theorem functionBodies_of_literalBoolean {t : Node} (h : t.literalBoolean.isSome) :
    t.functionBodies = [] := by
  rw [functionBodies, List.filterMap_eq_nil_iff]
  intro m hm
  have hlit := literalBoolean_of_mem_subtrees h hm
  cases m with
  | other => cases hlit
  | _ => exact functionBody?_of_not_hasLabel (by simp [hasLabel])

theorem functionBodies_of_not_hasLabel {n : Node} (h : ¬ n.hasLabel Label.isFunction) :
    n.functionBodies = n.children.flatMap functionBodies := by
  rw [functionBodies_eq, functionBody?_of_not_hasLabel h, Option.toList_none, List.nil_append]

/-- No function is lost where an entry gives way to its body, and none is made. -/
theorem flatMap_functionBodies_inlineEntry (e : Node) :
    (inlineEntry e).value.flatMap functionBodies = e.functionBodies := by
  by_cases h : e.Inlinable
  · obtain ⟨s, t, s', k, stmts, rfl, ht⟩ := h.exists_block
    have htest : t.functionBodies = [] := functionBodies_of_literalBoolean (by rw [ht]; rfl)
    rw [inlineEntry_ifThen ht, Traced.value_rewrite,
      functionBodies_of_not_hasLabel (by simp [hasLabel]), children, List.flatMap_cons,
      List.flatMap_singleton, htest, List.nil_append,
      functionBodies_of_not_hasLabel (by simp [hasLabel]), children]
  · rw [inlineEntry_of_not_inlinable h, Traced.value_pure, List.flatMap_singleton]

end Node

namespace Rule

open Node

/-- A statement is the same directive after inlining, or none as before. -/
theorem directiveLiteral?_flattened (e : Node) :
    e.flattened.directiveLiteral? = e.directiveLiteral? := by
  rw [← inline_rewrite_eq_flattened]
  by_cases h : e.isBlock
  · cases e with
    | block s k stmts => rw [inline_block]; rfl
    | _ => cases h
  · have hlabels : (e.children.map fun c => (inline.rewrite c).value).map label? =
        e.children.map label? := by
      rw [List.map_map]
      exact List.map_congr_left fun c _ => inline.label?_rewrite c
    rw [directiveLiteral?_eq, inline.label?_rewrite, inline_of_not_isBlock h, children_mapChildren,
      hlabels, ← directiveLiteral?_eq]

/-- The directives that stood at the head stay there, and those that the other entries open with
join them. -/
theorem directives_flattenedBody (es : List Node) :
    directives (flattenedBody es) =
      directives es ++ directives (flattenedBody (behindDirectives es)) := by
  induction es with
  | nil => rfl
  | cons e es ih =>
      cases h : e.directiveLiteral? with
      | none =>
          have hnone : ¬ e.directive?.isSome := directiveLiteral?_eq_none_iff.mp h
          rw [directives_cons_of_none h, List.nil_append, behindDirectives,
            List.dropWhile_cons, if_neg hnone]
      | some l =>
          have hsome : e.directive?.isSome := by rw [← directiveLiteral?_isSome, h]; rfl
          have hflat : e.flattened.directiveLiteral? = some l := by
            rw [directiveLiteral?_flattened, h]
          rw [flattenedBody_cons_of_not_inlinable (not_inlinable_of_directive? hsome),
            directives_cons_of_some hflat, ih, directives_cons_of_some h, List.cons_append,
            behindDirectives, behindDirectives, List.dropWhile_cons, if_pos hsome]

theorem head?_flattenedBody (es : List Node) :
    (flattenedBody es).head? = (foremostIn? es).map flattened := by
  refine foremostIn?.induct (fun e => (flattenedBody [e]).head? = e.foremost?.map flattened)
    (fun es => (flattenedBody es).head? = (foremostIn? es).map flattened) ?_ ?_ ?_ ?_ ?_ es
  · intro s t s' k stmts ht ih
    have hnil : flattenedBody [] = [] := rfl
    rw [flattenedBody_ifThen ht, hnil, List.append_nil, foremost?, if_pos ht, ih]
  · intro s t s' k stmts ht
    rw [flattenedBody, if_neg ht, foremost?, if_neg ht]
    rfl
  · intro e hne
    have hnot : ¬ e.Inlinable := by
      intro h
      obtain ⟨s, t, s', k, stmts, rfl, -⟩ := h.exists_block
      exact hne s t s' k stmts rfl
    rw [flattenedBody_cons_of_not_inlinable hnot, foremost?_of_not_inlinable hnot]
    rfl
  · rfl
  · intro e es ihe ihes
    rw [flattenedBody_cons, List.head?_append, ihe, ihes, foremostIn?, Option.map_or]

theorem directives_flattenedBody_eq_nil_iff {es : List Node} :
    directives (flattenedBody es) = [] ↔ ¬ OpensWithString es := by
  rw [directives_eq_nil_iff, head?_flattenedBody, OpensWithString]
  cases foremostIn? es with
  | none => simp
  | some e =>
      simp only [Option.map_some, Option.mem_some_iff, Option.some.injEq, forall_eq',
        exists_eq_left', directiveLiteral?_flattened]
      exact directiveLiteral?_eq_none_iff

theorem functionBodies_inline (n : Node) :
    (inline.rewrite n).value.functionBodies =
      n.functionBodies.map fun b => (inline.rewrite b).value := by
  induction n using childInduction with
  | step n ih =>
      have hbelow : (n.children.map fun c => (inline.rewrite c).value).flatMap functionBodies =
          (n.children.flatMap functionBodies).map fun b => (inline.rewrite b).value := by
        rw [List.flatMap_map, List.map_flatMap]
        exact List.flatMap_congr ih
      by_cases h : n.isBlock
      · cases n with
        | block s k stmts =>
            have hnot (es : List Node) : ¬ (Node.block s k es).hasLabel Label.isFunction := by
              simp [hasLabel]
            rw [children] at hbelow
            rw [inline_block, functionBodies_of_not_hasLabel (hnot _),
              functionBodies_of_not_hasLabel (hnot _), children, children, List.flatMap_assoc,
              List.flatMap_congr fun e _ => flatMap_functionBodies_inlineEntry e, hbelow]
        | _ => cases h
      · rw [inline_of_not_isBlock h, functionBodies_eq, children_mapChildren, hbelow,
          functionBody?_mapChildren inline.isBlock_rewrite, functionBodies_eq n, List.map_append]
        cases n.functionBody? <;> rfl

/-- Inlining keeps the functions of a tree in their order, and the directives of each. Those that
the entries behind them open with when they have given way to their bodies become directives too;
there are none exactly if the first statement that these entries stand for is no string. -/
theorem directives_after_inlining :
    (∀ n : Node, (inline.rewrite n).value.functionBodies =
        n.functionBodies.map fun b => (inline.rewrite b).value) ∧
      ∀ body : Node,
        directives (inline.rewrite body).value.blockEntries =
            directives body.blockEntries ++
              directives (flattenedBody (behindDirectives body.blockEntries)) ∧
          (directives (inline.rewrite body).value.blockEntries = directives body.blockEntries ↔
            ¬ OpensWithString (behindDirectives body.blockEntries)) := by
  refine ⟨functionBodies_inline, fun body => ?_⟩
  have hentries : directives (inline.rewrite body).value.blockEntries =
      directives (flattenedBody body.blockEntries) := by
    rw [inline_rewrite_eq_flattened]
    cases body <;> rfl
  rw [hentries, directives_flattenedBody]
  refine ⟨rfl, ?_⟩
  rw [List.append_right_eq_self, directives_flattenedBody_eq_nil_iff]

/-- A string that stands in the braces of a true conditional, at the head of a body. -/
def stringInBranch : Node :=
  (Source.readModule
    "function f()\x7bif(true)\x7b\"use strict\";\x7da();\x7d").toOption.getD default

/-- The body had no directive, and has one when the braces are gone. -/
theorem directives_stringInBranch :
    stringInBranch.functionBodies.map (fun b => directives b.blockEntries) = [[]] ∧
      (inline.rewrite stringInBranch).value.functionBodies.map
          (fun b => directives b.blockEntries) =
        [[⟨.stringLiteral, [.datum (.span ⟨23, 35⟩), .datum (.text "use strict"),
          .datum (.text "\"use strict\"")]⟩]] := by
  decide +kernel

end Rule
end DeadBranch
