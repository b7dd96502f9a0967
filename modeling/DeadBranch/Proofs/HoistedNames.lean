import DeadBranch.Proofs.Declarations
import DeadBranch.Source.Program

/-!
# Variables of a function

A `var` declares its name for the whole body of the function around it, also from
within a branch that never runs. A run with all rules drops such branches with
everything in them and looks for no declarations there: it adds no name to a
body, and keeps those that are declared at a place that it keeps. It does the
same in every function it comes to.
-/
namespace DeadBranch

namespace Node

/-- A variable declared inside holds no further out: functions and static blocks. -/
def opensScope : Node → Bool
  | .staticBlock .. => true
  | .other l _ => l.isFunction
  | _ => false

theorem not_opensScope_of_isIf {n : Node} (h : n.isIf) : ¬ n.opensScope := by
  cases n with
  | ifThen | ifElse => simp [opensScope]
  | _ => cases h

theorem opensScope_mapChildren (f : Node → Node) (n : Node) :
    (n.mapChildren f).opensScope = n.opensScope := by
  cases n <;> rfl

mutual

/-- The names of the `var` declarations in the tree, heads of loops included, functions and
static blocks left out. -/
def hoistedNames : Node → List String
  | .ifThen _ t c => hoistedNames t ++ hoistedNames c
  | .ifElse _ t c a => hoistedNames t ++ (hoistedNames c ++ hoistedNames a)
  | .block _ _ stmts => hoistedNamesAll stmts
  | .staticBlock .. => []
  | .paren _ e => hoistedNames e
  | .bool .. => []
  | .other l cs =>
      if l.isFunction then [] else (Node.other l cs).varNames ++ hoistedNamesAll cs

def hoistedNamesAll : List Node → List String
  | [] => []
  | n :: ns => hoistedNames n ++ hoistedNamesAll ns

end

theorem hoistedNamesAll_eq_flatMap (ns : List Node) :
    hoistedNamesAll ns = ns.flatMap hoistedNames := by
  induction ns with
  | nil => rfl
  | cons n ns ih => rw [hoistedNamesAll, ih, List.flatMap_cons]

theorem hoistedNames_eq (n : Node) :
    n.hoistedNames =
      if n.opensScope then [] else n.varNames ++ n.children.flatMap hoistedNames := by
  cases n with
  | other l cs =>
      rw [hoistedNames, hoistedNamesAll_eq_flatMap]
      rfl
  | _ =>
      simp [hoistedNames, hoistedNamesAll_eq_flatMap, opensScope, children, varNames, hasLabel]

theorem mem_hoistedNames {x : String} {n : Node} :
    x ∈ n.hoistedNames ↔
      ¬ n.opensScope ∧ (x ∈ n.varNames ∨ ∃ c ∈ n.children, x ∈ c.hoistedNames) := by
  rw [hoistedNames_eq]
  split
  next h => simp [h]
  next h => simp [h, List.mem_flatMap]

/-- The head of a loop counts, the inside of a function does not. -/
example :
    (Source.readModule "for(var i=0,j;;)a();function f()\x7bvar g;\x7dlet k;").toOption.map
      hoistedNames = some ["i", "j"] := by
  decide +kernel

theorem not_mem_hoistedNames_of_literalBoolean (x : String) (t : Node)
    (h : t.literalBoolean.isSome) : x ∉ t.hoistedNames := by
  fun_induction literalBoolean t with
  | case1 s e ih =>
      rw [hoistedNames]
      exact ih h
  | case2 => exact List.not_mem_nil
  | case3 => cases h

/-- Braces hide no `var`. -/
theorem mem_hoistedNames_inlineEntry (x : String) (e : Node) :
    (∃ d ∈ (inlineEntry e).value, x ∈ d.hoistedNames) ↔ x ∈ e.hoistedNames := by
  apply exists_mem_inlineEntry (not_mem_hoistedNames_of_literalBoolean x)
  · intro s t c
    rw [hoistedNames, List.mem_append]
  · intro s k stmts
    rw [hoistedNames, hoistedNamesAll_eq_flatMap, List.mem_flatMap]

/-- `m` stands in the tree where a run does not drop it, in no function or static block. -/
inductive KeptInScope (m : Node) : Node → Prop where
  | root : ¬ m.opensScope → KeptInScope m m
  | child {n c : Node} : ¬ n.opensScope → c ∈ n.childrenLeft → KeptInScope m c →
      KeptInScope m n

theorem KeptInScope.mem_hoistedNames {m n : Node} {x : String} (h : KeptInScope m n)
    (hx : x ∈ m.varNames) : x ∈ n.hoistedNames := by
  induction h with
  | root hscope => exact Node.mem_hoistedNames.mpr ⟨hscope, .inl hx⟩
  | @child n c hscope hc _ ih =>
      obtain hc | ⟨d, hd, hif, hc⟩ := mem_childrenLeft hc
      · exact Node.mem_hoistedNames.mpr ⟨hscope, .inr ⟨c, hc, ih⟩⟩
      · have hmem : x ∈ d.hoistedNames :=
          Node.mem_hoistedNames.mpr ⟨not_opensScope_of_isIf hif, .inr ⟨c, hc, ih⟩⟩
        exact Node.mem_hoistedNames.mpr ⟨hscope, .inr ⟨d, hd, hmem⟩⟩

theorem exists_keptInScope_iff {P : Node → Prop} {n : Node} :
    (∃ m, KeptInScope m n ∧ P m) ↔
      ¬ n.opensScope ∧ (P n ∨ ∃ c ∈ n.childrenLeft, ∃ m, KeptInScope m c ∧ P m) := by
  constructor
  · rintro ⟨m, hm, h⟩
    cases hm with
    | root hscope => exact ⟨hscope, .inl h⟩
    | child hscope hc hm => exact ⟨hscope, .inr ⟨_, hc, m, hm, h⟩⟩
  · rintro ⟨hscope, h | ⟨c, hc, m, hm, h⟩⟩
    · exact ⟨n, .root hscope, h⟩
    · exact ⟨m, .child hscope hc hm, h⟩

end Node

namespace DeadCode

open Node

theorem opensScope_simplified (n : Node) : (simplified n).opensScope = n.opensScope := by
  by_cases hif : n.isIf
  · have hif' : (simplified n).isIf := by rwa [isIf_simplified]
    rw [eq_false_of_ne_true (not_opensScope_of_isIf hif),
      eq_false_of_ne_true (not_opensScope_of_isIf hif')]
  by_cases hblock : n.isBlock
  · cases n with
    | block s k stmts =>
        rw [simplified_block]
        rfl
    | _ => cases hblock
  · have halt : ¬ n.hasAlternate := by
      cases n <;> first | exact absurd rfl hif | simp [hasAlternate]
    rw [simplified_mapChildren halt hblock, opensScope_mapChildren]

/-- The names that a run leaves: those of the node, and those that it leaves in a kept child. -/
theorem mem_hoistedNames_simplified {x : String} {n : Node} :
    x ∈ (simplified n).hoistedNames ↔
      ¬ n.opensScope ∧
        (x ∈ n.varNames ∨ ∃ c ∈ n.childrenLeft, x ∈ (simplified c).hoistedNames) := by
  rw [mem_hoistedNames, opensScope_simplified, varNames_simplified,
    exists_mem_children_simplified (not_mem_hoistedNames_of_literalBoolean x)
      fun _ => mem_hoistedNames_inlineEntry x]

theorem mem_hoistedNames_simplified_iff_kept {x : String} {n : Node} :
    x ∈ (simplified n).hoistedNames ↔ ∃ m, KeptInScope m n ∧ x ∈ m.varNames := by
  induction n using keptInduction with
  | step n ih =>
      have hbelow : (∃ c ∈ n.childrenLeft, x ∈ (simplified c).hoistedNames) ↔
          ∃ c ∈ n.childrenLeft, ∃ m, KeptInScope m c ∧ x ∈ m.varNames :=
        exists_congr fun c => and_congr_right fun hc => ih c hc
      rw [mem_hoistedNames_simplified, exists_keptInScope_iff, hbelow]

theorem functionBody?_simplified (n : Node) :
    (simplified n).functionBody? = n.functionBody?.map simplified := by
  by_cases hfun : n.hasLabel Label.isFunction
  · have himage : simplified n = n.mapChildren simplified := by
      cases n with
      | other l cs => exact simplified_mapChildren (by simp [hasAlternate]) (by simp [isBlock])
      | _ => cases hfun
    rw [himage, functionBody?_mapChildren isBlock_simplified]
  · rw [functionBody?_of_not_hasLabel hfun,
      functionBody?_of_not_hasLabel (by rwa [hasLabel_simplified]), Option.map_none]

/-- The functions of the tree that a run leaves are those that it keeps, and in the body of each
it does what it does to the body on its own. -/
theorem mem_functionBodies_simplified {b n : Node} :
    b ∈ (simplified n).functionBodies ↔
      ∃ f body, KeptIn f n ∧ f.functionBody? = some body ∧ b = simplified body := by
  have hnone {m : Node} (hm : ¬ m.hasLabel Label.isFunction) : m.functionBody? ≠ some b := by
    simp [functionBody?_of_not_hasLabel hm]
  have hlit (t : Node) (ht : t.literalBoolean.isSome) : t.functionBody? ≠ some b := by
    apply hnone
    cases t with
    | other => cases ht
    | _ => simp [hasLabel]
  rw [functionBodies, List.mem_filterMap, exists_mem_subtrees_simplified hlit
    (fun _ _ _ => hnone (by simp [hasLabel])) (fun _ _ _ => hnone (by simp [hasLabel]))]
  simp only [functionBody?_simplified, Option.map_eq_some_iff]
  constructor
  · rintro ⟨f, hf, body, hbody, rfl⟩
    exact ⟨f, body, hf, hbody, rfl⟩
  · rintro ⟨f, body, hf, hbody, rfl⟩
    exact ⟨f, hf, body, hbody, rfl⟩

/-- A run treats the body of each function that it keeps as it treats the body alone, and what it
makes of a body has the variables that are declared at a place it keeps. No variable is added; one
is lost if all its declarations are in branches that are dropped. -/
theorem hoistedNames_functionBodies_run (program : Node) :
    (∀ b, b ∈ (run .all program).program.functionBodies ↔
        ∃ f body, KeptIn f program ∧ f.functionBody? = some body ∧ b = (run .all body).program) ∧
      ∀ body, (run .all body).program.hoistedNames ⊆ body.hoistedNames ∧
        ∀ x, x ∈ (run .all body).program.hoistedNames ↔
          ∃ m, KeptInScope m body ∧ x ∈ m.varNames := by
  constructor
  · intro b
    exact mem_functionBodies_simplified
  intro body
  constructor
  · intro x hx
    obtain ⟨m, hm, hxm⟩ := mem_hoistedNames_simplified_iff_kept.mp hx
    exact hm.mem_hoistedNames hxm
  · intro x
    exact mem_hoistedNames_simplified_iff_kept

/-- The only declaration of a variable is in a branch that never runs. -/
def declaredInDeadBranch : Node :=
  (Source.readModule
    "function f()\x7bif(true)\x7ba();\x7delse\x7bvar x=b;\x7dreturn x;\x7d").toOption.getD default

theorem hoistedNames_functionBodies_declaredInDeadBranch :
    declaredInDeadBranch.functionBodies.map hoistedNames = [["x"]] ∧
      (run .all declaredInDeadBranch).program.functionBodies.map hoistedNames = [[]] := by
  decide +kernel

end DeadCode
end DeadBranch
