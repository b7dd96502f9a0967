import DeadBranch.Proofs.Convergence
import DeadBranch.Proofs.Tree.Parts

/-!
# Chains that are decided

An else-if chain on literal booleans gives way to the one branch that runs. A round
resolves only the last link that is left, and meanwhile the branches are worked on as
well; but the place where all this comes to rest is a normal form, and that of a
decided chain is a bare true conditional over the branch, whatever its length. As an
entry of a block it is spliced in, so a body with a chain in it comes to rest as what
stands before the chain, the branch and what stands behind it would one by one.
-/
namespace DeadBranch

namespace Node

/-- A program that is one function declaration, all but the statements of its body. -/
structure SoleFunction where
  isScript : Bool
  programSpan : Span
  interpreter : Option String
  name : Node
  declare : Bool
  params : List Node
  decorators : List Node
  span : Span
  scope : Nat
  bodySpan : Span
  bodyScope : Nat
  generator : Bool
  async : Bool
  typeParameters : Option Node
  returnType : Option Node

namespace SoleFunction

/-- The function with these statements in its body. -/
def declaration (p : SoleFunction) (stmts : List Node) : Node :=
  ofParts .functionDeclaration
    [.one p.name, .flag p.declare, .list p.params, .list p.decorators, .span p.span,
      .count p.scope, .one (.block p.bodySpan p.bodyScope stmts), .flag p.generator,
      .flag p.async, .optional p.typeParameters, .optional p.returnType]

/-- The program with these statements in the body of its function. -/
def withBody (p : SoleFunction) (stmts : List Node) : Node :=
  ofParts (if p.isScript then .scriptProgram else .moduleProgram)
    [.span p.programSpan, .list [p.declaration stmts], .datum (p.interpreter.elim .absent .text)]

/-- Replace what the function consists of besides its body. -/
def map (f : Node → Node) (p : SoleFunction) : SoleFunction :=
  { p with
    name := f p.name
    params := p.params.map f
    decorators := p.decorators.map f
    typeParameters := p.typeParameters.map f
    returnType := p.returnType.map f }

end SoleFunction

/-- The statements in the body of the function that a program consists of. -/
def soleBody? : Node → Option (List Node)
  | .other _ [.other l cs] =>
      match l.kind, arrange l.slots cs with
      | .functionDeclaration, [_, _, _, _, _, _, .one (.block _ _ stmts), _, _, _, _] => some stmts
      | _, _ => none
  | _ => none

theorem soleBody?_withBody (p : SoleFunction) (stmts : List Node) :
    (p.withBody stmts).soleBody? = some stmts := by
  have hprogram : ∃ l, p.withBody stmts = .other l [p.declaration stmts] := ⟨_, rfl⟩
  obtain ⟨l, hl⟩ := hprogram
  rw [hl, SoleFunction.declaration, ofParts, soleBody?, arrange_children]

section NormalForm
variable {chosen : Rule → Bool}

theorem normalForm_ofParts (kind : Kind) (parts : List (Part Node)) :
    (ofParts kind parts).normalForm chosen =
      ofParts kind (parts.map (Part.map (normalForm chosen))) := by
  rw [normalForm_eq, mapChildren_ofParts, normalStep_of_not_appliesAt]
  rintro (_ | _ | _) - h <;> exact h

/-- The statements that a block comes to have. -/
def normalBody (chosen : Rule → Bool) (stmts : List Node) : List Node :=
  (stmts.map (normalForm chosen)).flatMap fun e => (inlineEntry e).value

theorem normalBody_append (xs ys : List Node) :
    normalBody chosen (xs ++ ys) = normalBody chosen xs ++ normalBody chosen ys := by
  rw [normalBody, List.map_append, List.flatMap_append, normalBody, normalBody]

/-- A function's body comes to rest by itself. -/
theorem normalForm_withBody (hi : chosen .inline) (p : SoleFunction) (stmts : List Node) :
    (p.withBody stmts).normalForm chosen =
      (p.map (normalForm chosen)).withBody (normalBody chosen stmts) := by
  have hfun : (p.declaration stmts).normalForm chosen =
      (p.map (normalForm chosen)).declaration (normalBody chosen stmts) := by
    have hbody := normalForm_block hi p.bodySpan p.bodyScope stmts
    rw [SoleFunction.declaration, normalForm_ofParts]
    simp only [List.map_cons, List.map_nil, Part.map_one, Part.map_list, Part.map_optional, hbody]
    rfl
  rw [SoleFunction.withBody, normalForm_ofParts]
  simp only [List.map_cons, List.map_nil, Part.map_list, hfun]
  rfl

/-- An else-if chain on literal booleans, no branch before the last of which is a conditional, and
the branch of it that runs. -/
inductive LeadsTo (body : Node) : Node → Prop where
  | bare {s : Span} {t : Node} : t.literalBoolean = some true → LeadsTo body (.ifThen s t body)
  | overElse {s : Span} {t a : Node} : t.literalBoolean = some true → ¬ a.isIf →
      LeadsTo body (.ifElse s t body a)
  | inElse {s : Span} {t c : Node} : t.literalBoolean = some false → ¬ c.isIf →
      LeadsTo body (.ifElse s t c body)
  | link {s : Span} {t c n : Node} : t.literalBoolean = some false → ¬ c.isIf → LeadsTo body n →
      LeadsTo body (.ifElse s t c n)

/-- A true conditional keeps no plain alternate. -/
theorem normalForm_ifElse_of_true (hp : chosen .prune) {s : Span} {t c a : Node}
    (ht : t.literalBoolean = some true) (ha : ¬ a.isIf) :
    (Node.ifElse s t c a).normalForm chosen =
      .ifThen s (t.normalForm chosen) (c.normalForm chosen) := by
  rw [← normalForm_step hp (.prune ht ha), normalForm_ifThen]

/-- A false conditional becomes a true one over what is bound to fall through its alternate. -/
theorem normalForm_ifElse_of_false (hf : chosen .flip) (hp : chosen .prune) {s : Span}
    {t c a b : Node} (ht : t.literalBoolean = some false) (hc : ¬ c.isIf)
    (ha : (a.normalForm chosen).fallThrough? = some b) :
    (Node.ifElse s t c a).normalForm chosen =
      .ifThen s ((t.normalForm chosen).withLiteral true) b := by
  have ht' : (t.normalForm chosen).literalBoolean = some false := by
    rw [literalBoolean_normalForm, ht]
  have hc' : ¬ (c.normalForm chosen).isIf := by rwa [isIf_normalForm]
  -- The flip leaves the dead branch behind `else`, where pruning takes it; a conditional is no
  -- place for inlining.
  rw [normalForm_eq, mapChildren, normalStep, Rule.flip_stepIf_of_fallThrough? hf ht' ha,
    Rule.prune_stepIf_of_prunable hp (by simp [ht']) hc']
  exact Rule.stepIf_of_not_appliesAt fun _ => id

/-- A chain comes to rest as a bare true conditional over the branch that runs. -/
theorem LeadsTo.exists_normalForm_eq (hf : chosen .flip) (hp : chosen .prune) {body n : Node}
    (hbody : ¬ body.isIf) (h : LeadsTo body n) :
    ∃ s t, t.literalBoolean = some true ∧
      n.normalForm chosen = .ifThen s t (body.normalForm chosen) := by
  have hturned {t : Node} (ht : t.literalBoolean = some false) :
      ((t.normalForm chosen).withLiteral true).literalBoolean = some true := by
    rw [literalBoolean_withLiteral, literalBoolean_normalForm, ht, Option.map_some]
  -- From the end of the chain on: what lies behind a link has come to rest as something that falls
  -- through it, be it the plain body or a bare true conditional.
  induction h with
  | bare ht => exact ⟨_, _, by rw [literalBoolean_normalForm, ht], normalForm_ifThen _ _ _⟩
  | overElse ht ha =>
      exact ⟨_, _, by rw [literalBoolean_normalForm, ht], normalForm_ifElse_of_true hp ht ha⟩
  | inElse ht hc =>
      have hfall : (body.normalForm chosen).fallThrough? = some (body.normalForm chosen) :=
        fallThrough?_of_not_isIf (by rwa [isIf_normalForm])
      exact ⟨_, _, hturned ht, normalForm_ifElse_of_false hf hp ht hc hfall⟩
  | @link _ _ _ n ht hc _ ih =>
      obtain ⟨s', t', ht', hrest⟩ := ih
      have hfall : (n.normalForm chosen).fallThrough? = some (body.normalForm chosen) := by
        rw [hrest, fallThrough?, if_pos ht']
      exact ⟨_, _, hturned ht, normalForm_ifElse_of_false hf hp ht hc hfall⟩

/-- What a chain comes to have in its place in a body is the body that runs. -/
theorem LeadsTo.normalBody_eq (hall : ∀ r, chosen r) {s : Span} {k : Nat} {stmts : List Node}
    {n : Node} (h : LeadsTo (.block s k stmts) n) :
    normalBody chosen [n] = normalBody chosen stmts := by
  obtain ⟨s', t, ht, hn⟩ := h.exists_normalForm_eq (hall .flip) (hall .prune) (by simp [isIf])
  rw [normalBody, List.map_singleton, List.flatMap_singleton, hn, normalForm_block (hall .inline),
    inlineEntry_ifThen ht, Traced.value_rewrite, normalBody]

end NormalForm
end Node

namespace Pipeline

open Node

/-- One pass with all rules brings the program to rest, however many rounds beyond three for each
conditional it is allowed, and these are then the statements of its function. -/
def SettlesWith (program : Node) (body : List Node) : Prop :=
  ∀ maxRounds > 3 * program.count isIf,
    ∃ k, (runUntilStable maxRounds [({} : DeadCode)] program).outcome = .ok k ∧
      (runUntilStable maxRounds [({} : DeadCode)] program).program.soleBody? = some body

theorem enables_singleton_default (r : Rule) : enables [({} : DeadCode)] r := by
  cases r <;> rfl

theorem settlesWith_normalBody (p : SoleFunction) (stmts : List Node) :
    SettlesWith (p.withBody stmts) (normalBody (enables [({} : DeadCode)]) stmts) := by
  intro maxRounds hmax
  have hweight := (p.withBody stmts).weight_le
  obtain ⟨k, -, hout⟩ :=
    exists_outcome_eq_ok [({} : DeadCode)] (Nat.lt_of_le_of_lt hweight hmax)
  refine ⟨k, hout, ?_⟩
  rw [program_runUntilStable hout, normalForm_withBody (enables_singleton_default .inline),
    soleBody?_withBody]

/-- A chain in a function's body gives way to the branch that runs: the body comes to rest as what
stands before the chain, the branch and what stands behind it do when each is a body by itself. -/
theorem settlesWith_of_leadsTo (p : SoleFunction) {s : Span} {scope : Nat} {stmts : List Node}
    {chain : Node} (h : LeadsTo (.block s scope stmts) chain) (pre post : List Node) :
    ∃ pre' stmts' post', SettlesWith (p.withBody pre) pre' ∧
      SettlesWith (p.withBody stmts) stmts' ∧ SettlesWith (p.withBody post) post' ∧
        SettlesWith (p.withBody (pre ++ [chain] ++ post)) (pre' ++ stmts' ++ post') := by
  refine ⟨_, _, _, settlesWith_normalBody p pre, settlesWith_normalBody p stmts,
    settlesWith_normalBody p post, ?_⟩
  have hwhole := settlesWith_normalBody p (pre ++ [chain] ++ post)
  rwa [normalBody_append, normalBody_append, h.normalBody_eq enables_singleton_default] at hwhole

/-- A statement that shows where it comes from. -/
def mark (position : Nat) : Node := .ofParts .debuggerStatement [.span ⟨position, position + 1⟩]

def braces (stmts : List Node) : Node := .block ⟨0, 0⟩ 0 stmts

def literal (value : Bool) : Node := .bool ⟨0, 0⟩ value

/-- The body that runs in `threeTests`, with a chain of its own. -/
def thirdBranch : List Node :=
  [mark 3, .ifElse ⟨0, 0⟩ (literal false) (mark 4) (braces [mark 5])]

/-- Two false tests, one of them in parentheses, then a true one. -/
def threeTests : Node :=
  .ifElse ⟨0, 0⟩ (.paren ⟨0, 0⟩ (literal false)) (braces [mark 1])
    (.ifElse ⟨0, 0⟩ (literal false) (mark 2)
      (.ifElse ⟨0, 0⟩ (literal true) (braces thirdBranch) (mark 6)))

def emptyFunction : SoleFunction where
  isScript := false
  programSpan := ⟨1, 15⟩
  interpreter := none
  name := .ofParts .identifier [.span ⟨10, 11⟩, .count 0, .text "f", .flag false]
  declare := false
  params := []
  decorators := []
  span := ⟨1, 15⟩
  scope := 0
  bodySpan := ⟨13, 15⟩
  bodyScope := 0
  generator := false
  async := false
  typeParameters := none
  returnType := none

theorem settlesWith_of_leadsTo_threeTests :
    LeadsTo (braces thirdBranch) threeTests ∧
      (runUntilStable 13 [({} : DeadCode)]
        (emptyFunction.withBody ([mark 0] ++ [threeTests] ++ [mark 7]))).outcome = .ok 3 ∧
      (runUntilStable 13 [({} : DeadCode)]
        (emptyFunction.withBody ([mark 0] ++ [threeTests] ++ [mark 7]))).program.soleBody? =
          some [mark 0, mark 3, mark 5, mark 7] ∧
      ∃ pre' stmts' post', SettlesWith (emptyFunction.withBody [mark 0]) pre' ∧
        SettlesWith (emptyFunction.withBody thirdBranch) stmts' ∧
          SettlesWith (emptyFunction.withBody [mark 7]) post' ∧
            SettlesWith (emptyFunction.withBody ([mark 0] ++ [threeTests] ++ [mark 7]))
              (pre' ++ stmts' ++ post') := by
  have hchain : LeadsTo (braces thirdBranch) threeTests := by
    refine .link rfl (by decide) (.link rfl (by decide) (.overElse rfl (by decide)))
  refine ⟨hchain, by decide +kernel, by decide +kernel, ?_⟩
  exact settlesWith_of_leadsTo emptyFunction hchain [mark 0] [mark 7]

end Pipeline
end DeadBranch
