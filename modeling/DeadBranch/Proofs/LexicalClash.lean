import DeadBranch.Proofs.Declarations
import DeadBranch.Source.Minified
import DeadBranch.Source.Program
import Mathlib.Data.List.Flatten

/-!
# Clashing declarations

Braces around statements are a scope, and inlining takes them away: the `let`,
`const`, class and function declarations of a body come to stand beside those of
the block around it. So two scopes that each declare a name can become one that
declares it twice. This happens exactly where a block and the bodies that are
spliced into it, bodies within bodies included, declare a name more than once
between them. Nothing is renamed and no scope is looked at.
-/
namespace DeadBranch

namespace Node

/-- The statements directly between the braces of a block or a static block. -/
def entries : Node → List Node
  | .block _ _ stmts => stmts
  | .staticBlock _ _ _ stmts => stmts
  | _ => []

/-- The entries declare a name more than once. -/
def Clashes (n : Node) : Prop := ¬ (n.entries.flatMap lexicalNames).Nodup

instance : DecidablePred Clashes := fun n =>
  inferInstanceAs (Decidable (¬ (n.entries.flatMap lexicalNames).Nodup))

def HasClash (n : Node) : Prop := ∃ m ∈ n.subtrees, m.Clashes

instance : DecidablePred HasClash := fun n =>
  inferInstanceAs (Decidable (∃ m ∈ n.subtrees, m.Clashes))

theorem not_clashes_of_entries_eq_nil {n : Node} (h : n.entries = []) : ¬ n.Clashes := by
  rw [Clashes, h, List.flatMap_nil, not_not]
  exact List.nodup_nil

theorem not_clashes_of_literalBoolean (n : Node) (h : n.literalBoolean.isSome) : ¬ n.Clashes := by
  cases n with
  | paren | bool => exact not_clashes_of_entries_eq_nil rfl
  | _ => cases h

theorem not_clashes_of_isIf {n : Node} (h : n.isIf) : ¬ n.Clashes := by
  cases n with
  | ifThen | ifElse => exact not_clashes_of_entries_eq_nil rfl
  | _ => cases h

/-- What the entries of a block declare; nothing if the node is no block. -/
def blockNames : Node → List String
  | .block _ _ stmts => stmts.flatMap lexicalNames
  | _ => []

theorem blockNames_of_not_isBlock {n : Node} (h : ¬ n.isBlock) : n.blockNames = [] := by
  cases n with
  | block s k stmts => exact absurd rfl h
  | _ => rfl

/-- The entries declare a name more than once if each counts for the names given for it. A static
block keeps its entries, so there they count for their own. -/
def ClashesCounting (names : Node → List String) : Node → Prop
  | .block _ _ stmts => ¬ (stmts.flatMap names).Nodup
  | .staticBlock _ _ _ stmts => ¬ (stmts.flatMap lexicalNames).Nodup
  | _ => False

mutual

/-- The names that inlining leaves in a block in the place of one of its entries. -/
def inlinedNames : Node → List String
  | .ifThen _ t c => if t.literalBoolean = some true then inlinedBodyNames c else []
  | n => n.lexicalNames

/-- The names that inlining leaves between the braces of a block. -/
def inlinedBodyNames : Node → List String
  | .block _ _ stmts => inlinedNamesAll stmts
  | _ => []

def inlinedNamesAll : List Node → List String
  | [] => []
  | n :: ns => inlinedNames n ++ inlinedNamesAll ns

end

mutual

/-- The names that a run with all rules leaves in a block in the place of one of its entries. -/
def leftNames : Node → List String
  | .ifThen _ t c => if t.literalBoolean = some true then leftBodyNames c else []
  | .ifElse _ t c a =>
      match t.literalBoolean with
      | some true => if a.isIf then [] else leftBodyNames c
      | some false => if c.isIf then [] else fallenNames a
      | none => []
  | n => n.lexicalNames

/-- The names that a run leaves between the braces of a block. -/
def leftBodyNames : Node → List String
  | .block _ _ stmts => leftNamesAll stmts
  | _ => []

/-- The names that a run leaves of the body that falls through an alternate. -/
def fallenNames : Node → List String
  | .ifThen _ t c => if t.literalBoolean = some true then leftBodyNames c else []
  | .block _ _ stmts => leftNamesAll stmts
  | _ => []

def leftNamesAll : List Node → List String
  | [] => []
  | n :: ns => leftNames n ++ leftNamesAll ns

end

theorem inlinedNamesAll_eq_flatMap (ns : List Node) :
    inlinedNamesAll ns = ns.flatMap inlinedNames := by
  induction ns with
  | nil => rfl
  | cons n ns ih => rw [inlinedNamesAll, ih, List.flatMap_cons]

theorem leftNamesAll_eq_flatMap (ns : List Node) : leftNamesAll ns = ns.flatMap leftNames := by
  induction ns with
  | nil => rfl
  | cons n ns ih => rw [leftNamesAll, ih, List.flatMap_cons]

theorem fallenNames_of_fallThrough? {a b : Node} (h : a.fallThrough? = some b) :
    a.fallenNames = b.leftBodyNames := by
  obtain ⟨hif, rfl⟩ | ⟨s, t, rfl, ht⟩ := fallThrough?_eq_some h
  · cases b with
    | ifThen | ifElse => exact absurd rfl hif
    | _ => rfl
  · rw [fallenNames, if_pos ht]

theorem fallenNames_of_fallThrough?_eq_none {a : Node} (h : a.fallThrough? = none) :
    a.fallenNames = [] := by
  cases a with
  | ifThen s t c =>
      have ht : t.literalBoolean ≠ some true := by
        intro ht
        rw [fallThrough?, if_pos ht] at h
        cases h
      rw [fallenNames, if_neg ht]
  | ifElse => rfl
  | _ => cases h

end Node

open Node

/-- A rewriting that splices into every block and leaves declarations as they are; conditionals
with an alternate are its own affair. -/
structure Splices (f : Node → Node) : Prop where
  block (s : Span) (k : Nat) (stmts : List Node) :
    f (.block s k stmts) =
      .block s k ((stmts.map f).flatMap fun e => (inlineEntry e).value)
  mapChildren {n : Node} : ¬ n.hasAlternate → ¬ n.isBlock → f n = n.mapChildren f
  literalBoolean_eq (n : Node) : (f n).literalBoolean = n.literalBoolean
  isIf_eq (n : Node) : (f n).isIf = n.isIf
  isBlock_eq (n : Node) : (f n).isBlock = n.isBlock
  lexicalNames_eq (n : Node) : (f n).lexicalNames = n.lexicalNames

/-- The names declared by the statements that `f` leaves in a block for one of its entries. -/
def entryNames (f : Node → Node) (e : Node) : List String :=
  (inlineEntry (f e)).value.flatMap lexicalNames

theorem flatMap_lexicalNames_of_not_inlinable {e : Node} (h : ¬ e.Inlinable) :
    (inlineEntry e).value.flatMap lexicalNames = e.lexicalNames := by
  rw [inlineEntry_of_not_inlinable h, Traced.value_pure, List.flatMap_singleton]

theorem flatMap_lexicalNames_ifThen {s : Span} {t c : Node} (ht : t.literalBoolean = some true) :
    (inlineEntry (.ifThen s t c)).value.flatMap lexicalNames = c.blockNames := by
  by_cases hc : c.isBlock
  · cases c with
    | block s' k stmts => rw [inlineEntry_ifThen ht, Traced.value_rewrite, blockNames]
    | _ => cases hc
  · have hnot : ¬ (Node.ifThen s t c).Inlinable := fun h => hc h.2
    rw [flatMap_lexicalNames_of_not_inlinable hnot, blockNames_of_not_isBlock hc]
    exact lexicalNames_of_isIf rfl

/-- A clash in an entry stays one of the block: if the entry's braces go, in the block itself. -/
theorem hasClash_block_of_mem {s : Span} {k : Nat} {es : List Node} {e : Node} (he : e ∈ es)
    (h : e.HasClash) :
    (Node.block s k (es.flatMap fun e => (inlineEntry e).value)).HasClash := by
  obtain ⟨m, hm, hclash⟩ := h
  obtain ⟨d, hd, hm⟩ | hif | hlit | ⟨hblock, hchildren⟩ := mem_subtrees_inlineEntry hm
  · have hmem : d ∈ es.flatMap fun e => (inlineEntry e).value :=
      List.mem_flatMap.mpr ⟨e, he, hd⟩
    exact ⟨m, mem_subtrees_of_mem_children hmem hm, hclash⟩
  · exact absurd hclash (not_clashes_of_isIf hif)
  · exact absurd hclash (not_clashes_of_literalBoolean m hlit)
  · cases m with
    | block s' k' stmts =>
        rw [children] at hchildren
        refine ⟨_, self_mem_subtrees _, fun hnodup => hclash ?_⟩
        rw [entries] at hnodup ⊢
        rw [hchildren]
        have hentry : [e].Sublist es := List.singleton_sublist.mpr he
        have hsub : (inlineEntry e).value.Sublist (es.flatMap fun e => (inlineEntry e).value) := by
          rw [← List.flatMap_singleton (fun e => (inlineEntry e).value) e]
          exact hentry.flatMap _
        exact hnodup.sublist (hsub.flatMap _)
    | _ => cases hblock

namespace Splices

variable {f : Node → Node} (hf : Splices f)
include hf

theorem entryNames_of_not_isIf {e : Node} (h : ¬ e.isIf) : entryNames f e = e.lexicalNames := by
  have hnot : ¬ (f e).Inlinable := by
    intro hinl
    have hif := hinl.isIf
    rw [hf.isIf_eq] at hif
    exact h hif
  rw [entryNames, flatMap_lexicalNames_of_not_inlinable hnot, hf.lexicalNames_eq]

theorem entryNames_ifThen (s : Span) (t c : Node) :
    entryNames f (.ifThen s t c) =
      if t.literalBoolean = some true then (f c).blockNames else [] := by
  have himage : f (.ifThen s t c) = .ifThen s (f t) (f c) :=
    hf.mapChildren (by simp [hasAlternate]) (by simp [isBlock])
  rw [entryNames, himage]
  split
  next ht => exact flatMap_lexicalNames_ifThen (by rw [hf.literalBoolean_eq, ht])
  next ht =>
    have hnot : ¬ (Node.ifThen s (f t) (f c)).Inlinable := by
      intro h
      exact ht (by rw [← hf.literalBoolean_eq, h.1])
    rw [flatMap_lexicalNames_of_not_inlinable hnot, lexicalNames_of_isIf rfl]

theorem blockNames_of_not_isBlock {n : Node} (h : ¬ n.isBlock) : (f n).blockNames = [] :=
  Node.blockNames_of_not_isBlock (by rwa [hf.isBlock_eq])

theorem blockNames_block (s : Span) (k : Nat) (stmts : List Node) :
    (f (.block s k stmts)).blockNames = stmts.flatMap (entryNames f) := by
  rw [hf.block, blockNames, List.flatMap_assoc, List.flatMap_map]
  rfl

theorem clashes_iff (n : Node) : (f n).Clashes ↔ n.ClashesCounting (entryNames f) := by
  by_cases hif : n.isIf
  · refine iff_of_false (not_clashes_of_isIf (by rwa [hf.isIf_eq])) ?_
    cases n with
    | ifThen | ifElse => exact id
    | _ => cases hif
  cases n with
  | block s k stmts =>
      have hnames := hf.blockNames_block s k stmts
      rw [hf.block] at hnames ⊢
      rw [Clashes, ClashesCounting, ← hnames]
      rfl
  | staticBlock s b k stmts =>
      have hnames : (stmts.map f).flatMap lexicalNames = stmts.flatMap lexicalNames := by
        rw [List.flatMap_map]
        exact List.flatMap_congr fun e _ => hf.lexicalNames_eq e
      rw [hf.mapChildren (by simp [hasAlternate]) (by simp [isBlock]), ClashesCounting, ← hnames]
      rfl
  | ifThen | ifElse => exact absurd rfl hif
  | paren | bool | other =>
      rw [hf.mapChildren (by simp [hasAlternate]) (by simp [isBlock])]
      exact iff_of_false (not_clashes_of_entries_eq_nil rfl) id

/-- A block clashes within if its entries clash once the bodies are in, or an entry does. -/
theorem hasClash_block (s : Span) (k : Nat) (stmts : List Node) :
    (f (.block s k stmts)).HasClash ↔
      (Node.block s k stmts).ClashesCounting (entryNames f) ∨
        ∃ e ∈ stmts, (f e).HasClash := by
  constructor
  · intro h
    obtain hclash | ⟨d, hd, m, hm, hclash⟩ := exists_mem_subtrees.mp h
    · exact .inl ((hf.clashes_iff _).mp hclash)
    · rw [hf.block] at hd
      obtain ⟨e', he', hd⟩ := List.mem_flatMap.mp hd
      obtain ⟨e, he, rfl⟩ := List.mem_map.mp he'
      exact .inr ⟨e, he, m, mem_subtrees_trans hm (mem_subtrees_of_mem_inlineEntry hd), hclash⟩
  · rintro (h | ⟨e, he, h⟩)
    · exact ⟨_, self_mem_subtrees _, (hf.clashes_iff _).mpr h⟩
    · rw [hf.block]
      exact hasClash_block_of_mem (List.mem_map_of_mem he) h

end Splices

/-- Inlining in every block of the tree. -/
def inlined (n : Node) : Node := (Rule.inline.rewrite n).value

theorem splices_inlined : Splices inlined where
  block := Rule.inline_block
  mapChildren := fun _ hblock => Rule.inline_of_not_isBlock hblock
  literalBoolean_eq := Rule.literalBoolean_rewrite .inline
  isIf_eq := Rule.isIf_rewrite .inline
  isBlock_eq := Rule.isBlock_rewrite .inline
  lexicalNames_eq := Rule.lexicalNames_rewrite .inline

theorem DeadCode.splices_simplified : Splices DeadCode.simplified where
  block := simplified_block
  mapChildren := simplified_mapChildren
  literalBoolean_eq := literalBoolean_simplified
  isIf_eq := isIf_simplified
  isBlock_eq := isBlock_simplified
  lexicalNames_eq := lexicalNames_simplified

theorem entryNames_inlined_and_blockNames (n : Node) :
    entryNames inlined n = n.inlinedNames ∧ (inlined n).blockNames = n.inlinedBodyNames := by
  induction n using childInduction with
  | step n ih =>
      have hf := splices_inlined
      cases n with
      | ifThen s t c =>
          rw [hf.entryNames_ifThen, (ih c (by simp [children])).2]
          exact ⟨rfl, hf.blockNames_of_not_isBlock (by simp [isBlock])⟩
      | ifElse s t c a =>
          have hnot : ¬ (inlined (.ifElse s t c a)).Inlinable := by
            rw [inlined, Rule.inline_ifElse]
            exact id
          rw [entryNames, flatMap_lexicalNames_of_not_inlinable hnot]
          refine ⟨?_, hf.blockNames_of_not_isBlock (by simp [isBlock])⟩
          exact (hf.lexicalNames_eq _).trans rfl
      | block s k stmts =>
          refine ⟨hf.entryNames_of_not_isIf (by simp [isIf]), ?_⟩
          rw [hf.blockNames_block, inlinedBodyNames, inlinedNamesAll_eq_flatMap]
          exact List.flatMap_congr fun e he => (ih e he).1
      | _ =>
          exact ⟨hf.entryNames_of_not_isIf (by simp [isIf]),
            hf.blockNames_of_not_isBlock (by simp [isBlock])⟩

theorem entryNames_inlined : entryNames inlined = inlinedNames :=
  funext fun n => (entryNames_inlined_and_blockNames n).1

namespace DeadCode

/-- Braces go only from a conditional that has no alternate left. -/
theorem flatMap_lexicalNames_conditional {s : Span} {t c : Node} (o : Option Node)
    (ht : t.literalBoolean = some true) :
    (inlineEntry (conditional s t c o)).value.flatMap lexicalNames =
      if o.isSome then [] else c.blockNames := by
  cases o with
  | some a =>
      rw [conditional, flatMap_lexicalNames_of_not_inlinable id]
      exact lexicalNames_of_isIf rfl
  | none => exact flatMap_lexicalNames_ifThen ht

theorem entryNames_simplified_ifElse {s : Span} {t c a : Node}
    (ih : ∀ b ∈ (Node.ifElse s t c a).childrenLeft,
      (simplified b).blockNames = b.leftBodyNames) :
    entryNames simplified (.ifElse s t c a) = (Node.ifElse s t c a).leftNames := by
  rw [entryNames, leftNames]
  by_cases htrue : t.literalBoolean = some true
  · have hbody : (simplified c).blockNames = c.leftBodyNames :=
      ih c (by simp [childrenLeft, branchesLeft, htrue])
    rw [simplified_ifElse_of_true htrue,
      flatMap_lexicalNames_conditional _ (by rw [literalBoolean_simplified, htrue]), htrue, hbody]
    by_cases ha : a.isIf <;> simp [ha]
  by_cases hflip : (Node.ifElse s t c a).Flippable
  · obtain ⟨ht, b, hb⟩ := flippable_iff.mp hflip
    have hbody : (simplified b).blockNames = b.leftBodyNames :=
      ih b (by simp [childrenLeft, branchesLeft, ht, hb])
    have hlit : ((simplified t).withLiteral true).literalBoolean = some true := by
      rw [literalBoolean_withLiteral, literalBoolean_simplified, ht, Option.map_some]
    rw [simplified_ifElse_of_fallThrough? ht hb, flatMap_lexicalNames_conditional _ hlit, hbody, ht,
      fallenNames_of_fallThrough? hb]
    by_cases hc : c.isIf <;> simp [hc]
  · rw [simplified_ifElse_of_not_flippable htrue hflip, flatMap_lexicalNames_of_not_inlinable id,
      lexicalNames_of_isIf rfl]
    split
    next ht => exact absurd ht htrue
    next ht =>
      have hnone : a.fallThrough? = none := by
        rw [Option.eq_none_iff_forall_ne_some]
        intro b hb
        exact hflip (flippable_iff.mpr ⟨ht, b, hb⟩)
      rw [fallenNames_of_fallThrough?_eq_none hnone, ite_self]
    next => rfl

theorem entryNames_simplified_and_blockNames (n : Node) :
    entryNames simplified n = n.leftNames ∧ (simplified n).blockNames = n.leftBodyNames := by
  induction n using keptInduction with
  | step n ih =>
      have hf := splices_simplified
      cases n with
      | ifThen s t c =>
          rw [hf.entryNames_ifThen, (ih c (by simp [childrenLeft, children])).2]
          exact ⟨rfl, hf.blockNames_of_not_isBlock (by simp [isBlock])⟩
      | ifElse s t c a =>
          exact ⟨entryNames_simplified_ifElse fun b hb => (ih b hb).2,
            hf.blockNames_of_not_isBlock (by simp [isBlock])⟩
      | block s k stmts =>
          refine ⟨hf.entryNames_of_not_isIf (by simp [isIf]), ?_⟩
          rw [hf.blockNames_block, leftBodyNames, leftNamesAll_eq_flatMap]
          exact List.flatMap_congr fun e he => (ih e he).1
      | _ =>
          exact ⟨hf.entryNames_of_not_isIf (by simp [isIf]),
            hf.blockNames_of_not_isBlock (by simp [isBlock])⟩

theorem entryNames_simplified : entryNames simplified = leftNames :=
  funext fun n => (entryNames_simplified_and_blockNames n).1

end DeadCode

theorem hasClash_inlined (n : Node) :
    (inlined n).HasClash ↔ ∃ m ∈ n.subtrees, m.ClashesCounting inlinedNames := by
  induction n using childInduction with
  | step n ih =>
      have hbelow : (∃ c ∈ n.children, (inlined c).HasClash) ↔
          ∃ c ∈ n.children, ∃ m ∈ c.subtrees, m.ClashesCounting inlinedNames :=
        exists_congr fun c => and_congr_right fun hc => ih c hc
      rw [exists_mem_subtrees, ← hbelow, ← entryNames_inlined]
      by_cases hblock : n.isBlock
      · cases n with
        | block s k stmts => exact splices_inlined.hasClash_block s k stmts
        | _ => cases hblock
      · rw [← splices_inlined.clashes_iff, HasClash, exists_mem_subtrees, inlined,
          Rule.inline_of_not_isBlock hblock, children_mapChildren]
        simp only [List.mem_map, exists_exists_and_eq_and]
        rfl

namespace DeadCode

theorem hasClash_simplified (n : Node) :
    (simplified n).HasClash ↔ ∃ m, KeptIn m n ∧ m.ClashesCounting leftNames := by
  induction n using keptInduction with
  | step n ih =>
      have hbelow : (∃ c ∈ n.childrenLeft, (simplified c).HasClash) ↔
          ∃ c ∈ n.childrenLeft, ∃ m, KeptIn m c ∧ m.ClashesCounting leftNames :=
        exists_congr fun c => and_congr_right fun hc => ih c hc
      rw [exists_keptIn_iff, ← hbelow, ← entryNames_simplified]
      by_cases hblock : n.isBlock
      · cases n with
        | block s k stmts => exact splices_simplified.hasClash_block s k stmts
        | _ => cases hblock
      · rw [← splices_simplified.clashes_iff]
        rw [HasClash, exists_mem_subtrees]
        refine or_congr_right (exists_mem_children_simplified ?_ fun h => absurd h hblock)
        exact not_exists_mem_subtrees_of_literalBoolean not_clashes_of_literalBoolean

/-- Where two scopes that are put together declare the same name, and only there, does a block
come to declare a name twice: by inlining alone, and in a run with all rules. -/
theorem hasClash_iff_of_spliced (n : Node) :
    ((Rule.inline.rewrite n).value.HasClash ↔
        ∃ m ∈ n.subtrees, m.ClashesCounting inlinedNames) ∧
      ((run .all n).program.HasClash ↔
        ∃ m, KeptIn m n ∧ m.ClashesCounting leftNames) := by
  constructor
  · exact hasClash_inlined n
  · exact hasClash_simplified n

/-- A name declared around a true conditional and again in its body. -/
def shadowedName : Node :=
  (Source.readModule "\x7blet x=a;if(true)\x7blet x=b;\x7d\x7d").toOption.getD default

theorem hasClash_shadowedName :
    ¬ shadowedName.HasClash ∧ (Rule.inline.rewrite shadowedName).value.HasClash ∧
      (run .all shadowedName).program.HasClash := by
  decide +kernel

end DeadCode
end DeadBranch
