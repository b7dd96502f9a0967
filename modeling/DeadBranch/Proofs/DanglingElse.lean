import DeadBranch.Proofs.Rewrite.KeptPlaces
import DeadBranch.Source.Minified
import DeadBranch.Source.Program

/-!
# Dangling alternates

Text attaches an `else` to the nearest conditional that is still open. A tree is
printed without braces of its own, so a conditional with alternate must not have
a consequent that ends in an open conditional. A run of the default rules can
bring such a place about in two ways: removing an alternate opens a consequent
that was closed before, and turning a chain round moves an open branch in front
of an alternate. The conditionals where this happens are found in the tree as it
was before the run; there are none where all branches have braces.
-/
namespace DeadBranch

/-- The statements that end with their body; it is the last of their children. -/
def Kind.endsInBody : Kind → Bool
  | .labeledStatement | .whileStatement | .forStatement | .forInStatement | .forOfStatement
  | .withStatement => true
  | _ => false

namespace Node

mutual

/-- The statement ends in a conditional without alternate. -/
def endsOpen : Node → Bool
  | .ifThen .. => true
  | .ifElse _ _ _ a => a.endsOpen
  | .other l cs => l.kind.endsInBody && lastEndsOpen cs
  | .block .. | .staticBlock .. | .paren .. | .bool .. => false

def lastEndsOpen : List Node → Bool
  | [] => false
  | n :: ns => if ns.isEmpty then n.endsOpen else lastEndsOpen ns

end

theorem lastEndsOpen_eq (ns : List Node) : lastEndsOpen ns = ns.getLast?.any endsOpen := by
  induction ns with
  | nil => rfl
  | cons n ns ih => cases ns <;> simp_all [lastEndsOpen]

/-- A conditional whose `else` is read as that of another one. -/
def Dangles : Node → Prop
  | .ifElse _ _ c _ => c.endsOpen
  | _ => False

instance : DecidablePred Dangles
  | .ifElse _ _ c _ => inferInstanceAs (Decidable (c.endsOpen = true))
  | .ifThen .. | .block .. | .staticBlock .. | .paren .. | .bool .. | .other .. => isFalse id

def HasDangling (n : Node) : Prop := ∃ m ∈ n.subtrees, m.Dangles

instance : DecidablePred HasDangling := fun n =>
  inferInstanceAs (Decidable (∃ m ∈ n.subtrees, m.Dangles))

theorem Dangles.hasAlternate {n : Node} (h : n.Dangles) : n.hasAlternate := by
  cases n <;> first | rfl | exact h.elim

theorem Dangles.isIf {n : Node} (h : n.Dangles) : n.isIf := by
  cases n <;> first | rfl | exact h.elim

theorem not_dangles_of_literalBoolean (t : Node) (h : t.literalBoolean.isSome) : ¬ t.Dangles := by
  intro hdangles
  exact not_isIf_of_mem_subtrees h t t.self_mem_subtrees hdangles.isIf

/-- The branches of the conditional are blocks or, behind an `else`, conditionals. -/
def Braced : Node → Prop
  | .ifThen _ _ c => c.isBlock
  | .ifElse _ _ c a => c.isBlock ∧ (a.isBlock ∨ a.isIf)
  | _ => True

/-! Places and branches that a run leaves, in terms of the tree before it. -/

/-- The statement ends in a conditional without alternate once the rules have run. -/
inductive EndsOpenAfter : Node → Prop where
  | ifThen {s : Span} {t c : Node} : EndsOpenAfter (.ifThen s t c)
  | loses {s : Span} {t c a : Node} : (branchesLeft t c a).2 = none →
      EndsOpenAfter (.ifElse s t c a)
  | keeps {s : Span} {t c a b : Node} : (branchesLeft t c a).2 = some b → EndsOpenAfter b →
      EndsOpenAfter (.ifElse s t c a)
  | body {l : Label} {cs : List Node} {b : Node} : l.kind.endsInBody → cs.getLast? = some b →
      EndsOpenAfter b → EndsOpenAfter (.other l cs)

theorem endsOpenAfter_ifElse {s : Span} {t c a : Node} :
    EndsOpenAfter (.ifElse s t c a) ↔
      (branchesLeft t c a).2 = none ∨ ∃ b, (branchesLeft t c a).2 = some b ∧ b.EndsOpenAfter := by
  constructor
  · rintro (_ | h | ⟨h, hb⟩)
    · exact .inl h
    · exact .inr ⟨_, h, hb⟩
  · rintro (h | ⟨b, h, hb⟩)
    · exact .loses h
    · exact .keeps h hb

theorem endsOpenAfter_other {l : Label} {cs : List Node} :
    EndsOpenAfter (.other l cs) ↔
      l.kind.endsInBody ∧ ∃ b, cs.getLast? = some b ∧ b.EndsOpenAfter := by
  constructor
  · rintro (_ | _ | _ | ⟨hl, h, hb⟩)
    exact ⟨hl, _, h, hb⟩
  · rintro ⟨hl, b, h, hb⟩
    exact .body hl h hb

theorem EndsOpenAfter.not_isBlock {n : Node} (h : EndsOpenAfter n) : ¬ n.isBlock := by
  cases h <;> simp [isBlock]

/-- A conditional that keeps an alternate behind a branch that ends open. -/
def DanglesAfter : Node → Prop
  | .ifElse _ t c a =>
      (branchesLeft t c a).2.isSome ∧ (branchesLeft t c a).1.EndsOpenAfter
  | _ => False

theorem not_danglesAfter_of_braced {n : Node} (h : ∀ m ∈ n.subtrees, m.Braced) :
    ¬ n.DanglesAfter := by
  cases n with
  | ifElse s t c a =>
      obtain ⟨hc, ha⟩ := h _ (self_mem_subtrees _)
      have hfst : (branchesLeft t c a).1.isBlock := by
        obtain hb | hb := branchesLeft_fst t c a
        · rwa [hb]
        · obtain ⟨hif, hb⟩ | ⟨s', t', hb, -⟩ := fallThrough?_eq_some hb
          · rw [hb]
            exact ha.resolve_right hif
          · have hmem : a ∈ (Node.ifElse s t c a).subtrees :=
              mem_subtrees_of_mem_children (by simp [children]) (self_mem_subtrees a)
            have hbraced : a.Braced := h a hmem
            rw [hb] at hbraced
            exact hbraced
      intro hafter
      exact hafter.2.not_isBlock hfst
  | _ => exact id

end Node

namespace DeadCode

open Node

theorem endsOpen_simplified (n : Node) : (simplified n).endsOpen ↔ EndsOpenAfter n := by
  induction n using childInduction with
  | step n ih =>
      by_cases hblock : n.isBlock
      · cases n with
        | block s k stmts =>
            rw [simplified_block]
            refine iff_of_false (by simp [endsOpen]) ?_
            intro h
            exact h.not_isBlock hblock
        | _ => cases hblock
      by_cases hif : n.hasAlternate
      · cases n with
        | ifElse s t c a =>
            obtain ⟨t', -, h⟩ := simplified_ifElse s t c a
            rw [h, endsOpenAfter_ifElse]
            cases hb : (branchesLeft t c a).2 with
            | none => exact iff_of_true rfl (.inl rfl)
            | some b =>
                have hmem : b ∈ (Node.ifElse s t c a).children := by
                  obtain rfl | rfl := branchesLeft_snd hb <;> simp [children]
                simpa [conditional, endsOpen] using ih b hmem
        | _ => cases hif
      rw [simplified_mapChildren hif hblock]
      cases n with
      | ifThen s t c => exact iff_of_true rfl .ifThen
      | other l cs =>
          rw [endsOpenAfter_other]
          simp only [mapChildren, endsOpen, lastEndsOpen_eq, List.getLast?_map, Bool.and_eq_true,
            Option.any_map, Option.any_eq_true]
          refine and_congr_right fun _ => exists_congr fun b => and_congr_right fun hb => ?_
          exact ih b (List.mem_of_getLast? hb)
      | ifElse s t c a => exact absurd rfl hif
      | _ =>
          refine iff_of_false (by simp [mapChildren, endsOpen]) ?_
          intro h
          cases h

/-- A conditional with alternate that a run leaves dangles if it was to dangle afterwards. -/
theorem dangles_simplified (n : Node) : (simplified n).Dangles ↔ n.DanglesAfter := by
  by_cases hif : n.hasAlternate
  · cases n with
    | ifElse s t c a =>
        obtain ⟨t', -, h⟩ := simplified_ifElse s t c a
        rw [h, DanglesAfter, ← endsOpen_simplified]
        cases (branchesLeft t c a).2 <;> simp [conditional, Dangles]
    | _ => cases hif
  · have hafter : ¬ n.DanglesAfter := by
      cases n <;> first | exact id | exact absurd rfl hif
    refine iff_of_false ?_ hafter
    intro h
    exact hif (hasAlternate_of_simplified h.hasAlternate)

/-- A place that dangles after a run, read off the node it comes from and its kept children. -/
theorem hasDangling_simplified (n : Node) :
    (simplified n).HasDangling ↔
      n.DanglesAfter ∨ ∃ c ∈ n.childrenLeft, (simplified c).HasDangling := by
  have hplaces (n : Node) := exists_mem_subtrees_simplified not_dangles_of_literalBoolean
    (fun _ _ _ => id) (fun _ _ _ => id) n
  simp only [HasDangling, hplaces, ← dangles_simplified]
  exact exists_keptIn_iff

/-- A run leaves a dangling alternate exactly where a kept conditional comes to have one. -/
theorem hasDangling_run (n : Node) :
    (run .all n).program.HasDangling ↔ ∃ m, KeptIn m n ∧ m.DanglesAfter := by
  change (simplified n).HasDangling ↔ _
  induction n using keptInduction with
  | step n ih =>
      rw [hasDangling_simplified]
      constructor
      · rintro (h | ⟨c, hc, h⟩)
        · exact ⟨n, .root, h⟩
        · obtain ⟨m, hm, h⟩ := (ih c hc).mp h
          exact ⟨m, .child hc hm, h⟩
      · rintro ⟨m, _ | ⟨hc, hm⟩, h⟩
        · exact .inl h
        · exact .inr ⟨_, hc, (ih _ hc).mpr ⟨m, hm, h⟩⟩

/-- The first `else` closes the inner conditional, so that the second is the outer one's. -/
def closedByElse : Node :=
  (Source.readModule "if(x)if(true)a();else b();else d();").toOption.getD default

/-- Without its first `else` the text reads back as a conditional that has none. -/
theorem hasDangling_run_closedByElse :
    ¬ closedByElse.HasDangling ∧ (run .all closedByElse).program.HasDangling ∧
      (run .all closedByElse).program.children.any hasAlternate ∧
      Source.minified? (run .all closedByElse).program = some "if(x)if(true)a();else d();" ∧
      ∀ m ∈ (Source.readModule "if(x)if(true)a();else d();").toOption,
        ¬ m.children.any hasAlternate := by
  decide +kernel

/-- A lifted branch dangles as well. -/
example :
    (Source.readModule "if(false)if(q)r();else s();else if(true)if(y)z();").toOption.map
      (fun n => (decide n.HasDangling, decide (run .all n).program.HasDangling)) =
        some (false, true) := by
  decide +kernel

/-- With braces around all branches a run leaves no dangling alternate. -/
theorem not_hasDangling_run_of_braced {n : Node} (h : ∀ m ∈ n.subtrees, m.Braced) :
    ¬ (run .all n).program.HasDangling := by
  change ¬ (simplified n).HasDangling
  induction n using keptInduction with
  | step n ih =>
      rw [hasDangling_simplified]
      rintro (hn | ⟨c, hc, hdangling⟩)
      · exact not_danglesAfter_of_braced h hn
      · have hbelow : ∀ m ∈ c.subtrees, m.Braced := by
          intro m hm
          exact h m (mem_subtrees_of_mem_childrenLeft hc hm)
        exact ih c hc hbelow hdangling

end DeadCode
end DeadBranch
