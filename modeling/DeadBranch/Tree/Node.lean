import DeadBranch.Tree.Label

/-!
# Syntax trees

The tree type tells apart what the branch rules read: conditionals with and
without an alternate, blocks, parentheses and boolean literals. Everything else
is a label over its children. A static block owns the list of its statements:
its braces are written in a document as a block, but they are not a block that
statements may be spliced into, so they are not a node here.

Equality of trees is decided structurally, spans included.
-/
namespace DeadBranch

/-- A syntax tree of any sort: statement, expression, pattern, type or program. -/
inductive Node where
  /-- A conditional without alternate. -/
  | ifThen (span : Span) (test consequent : Node)
  | ifElse (span : Span) (test consequent alternate : Node)
  | block (span : Span) (scope : Nat) (stmts : List Node)
  /-- A class initialiser; `bodySpan` and `scope` describe its braces. -/
  | staticBlock (span bodySpan : Span) (scope : Nat) (stmts : List Node)
  | paren (span : Span) (inner : Node)
  | bool (span : Span) (value : Bool)
  | other (label : Label) (children : List Node)
deriving Repr

namespace Node

instance : Inhabited Node := ⟨.bool ⟨0, 0⟩ false⟩

mutual

/-- Structural equality, decided. -/
def decEq : (a b : Node) → Decidable (a = b)
  | .ifThen s t c, .ifThen s' t' c' =>
      match decEq t t', decEq c c' with
      | isTrue ht, isTrue hc =>
          if hs : s = s' then isTrue (by rw [hs, ht, hc]) else isFalse (by simp [hs])
      | isFalse h, _ => isFalse (by simp [h])
      | _, isFalse h => isFalse (by simp [h])
  | .ifElse s t c a, .ifElse s' t' c' a' =>
      match decEq t t', decEq c c', decEq a a' with
      | isTrue ht, isTrue hc, isTrue ha =>
          if hs : s = s' then isTrue (by rw [hs, ht, hc, ha]) else isFalse (by simp [hs])
      | isFalse h, _, _ => isFalse (by simp [h])
      | _, isFalse h, _ => isFalse (by simp [h])
      | _, _, isFalse h => isFalse (by simp [h])
  | .block s k xs, .block s' k' xs' =>
      match decEqAll xs xs' with
      | isTrue hx =>
          if hs : s = s' ∧ k = k' then isTrue (by rw [hs.1, hs.2, hx])
          else isFalse (by simp_all)
      | isFalse h => isFalse (by simp [h])
  | .staticBlock s b k xs, .staticBlock s' b' k' xs' =>
      match decEqAll xs xs' with
      | isTrue hx =>
          if hs : s = s' ∧ b = b' ∧ k = k' then isTrue (by rw [hs.1, hs.2.1, hs.2.2, hx])
          else isFalse (by simp_all)
      | isFalse h => isFalse (by simp [h])
  | .paren s e, .paren s' e' =>
      match decEq e e' with
      | isTrue he => if hs : s = s' then isTrue (by rw [hs, he]) else isFalse (by simp [hs])
      | isFalse h => isFalse (by simp [h])
  | .bool s v, .bool s' v' =>
      if h : s = s' ∧ v = v' then isTrue (by rw [h.1, h.2]) else isFalse (by simp_all)
  | .other l xs, .other l' xs' =>
      match decEqAll xs xs' with
      | isTrue hx => if hl : l = l' then isTrue (by rw [hl, hx]) else isFalse (by simp [hl])
      | isFalse h => isFalse (by simp [h])
  | .ifThen .., .ifElse .. | .ifThen .., .block .. | .ifThen .., .staticBlock ..
  | .ifThen .., .paren .. | .ifThen .., .bool .. | .ifThen .., .other ..
  | .ifElse .., .ifThen .. | .ifElse .., .block .. | .ifElse .., .staticBlock ..
  | .ifElse .., .paren .. | .ifElse .., .bool .. | .ifElse .., .other ..
  | .block .., .ifThen .. | .block .., .ifElse .. | .block .., .staticBlock ..
  | .block .., .paren .. | .block .., .bool .. | .block .., .other ..
  | .staticBlock .., .ifThen .. | .staticBlock .., .ifElse .. | .staticBlock .., .block ..
  | .staticBlock .., .paren .. | .staticBlock .., .bool .. | .staticBlock .., .other ..
  | .paren .., .ifThen .. | .paren .., .ifElse .. | .paren .., .block ..
  | .paren .., .staticBlock .. | .paren .., .bool .. | .paren .., .other ..
  | .bool .., .ifThen .. | .bool .., .ifElse .. | .bool .., .block ..
  | .bool .., .staticBlock .. | .bool .., .paren .. | .bool .., .other ..
  | .other .., .ifThen .. | .other .., .ifElse .. | .other .., .block ..
  | .other .., .staticBlock .. | .other .., .paren .. | .other .., .bool .. =>
      isFalse nofun

def decEqAll : (xs ys : List Node) → Decidable (xs = ys)
  | [], [] => isTrue rfl
  | x :: xs, y :: ys =>
      match decEq x y, decEqAll xs ys with
      | isTrue h, isTrue hs => isTrue (by rw [h, hs])
      | isFalse h, _ => isFalse (by simp [h])
      | _, isFalse h => isFalse (by simp [h])
  | [], _ :: _ | _ :: _, [] => isFalse nofun

end

instance : DecidableEq Node := decEq

/-- A node of a passed-through kind from its fields in visiting order. -/
def ofParts (kind : Kind) (parts : List (Part Node)) : Node :=
  .other ⟨kind, parts.map Part.slot⟩ (parts.flatMap Part.children)

/-- The first span among a node's own fields; a few kinds have none. -/
def span? : Node → Option Span
  | .ifThen s .. | .ifElse s .. | .block s .. | .staticBlock s .. | .paren s _ | .bool s _ => some s
  | .other label _ => label.slots.findSome? fun
      | .datum (.span s) => some s
      | _ => none

end Node
end DeadBranch
