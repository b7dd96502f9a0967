import DeadBranch.Proofs.Rewrite.Exhaustion
import DeadBranch.Proofs.Tree.Parts

/-!
# Where statements keep their places

Whatever rules are applied in turn, every node stays what it is, at the span it had. Only
two sorts of node can have their children regrouped: a block, whose statements inlining
splices, and a conditional with an alternate on a literal boolean, whose branches change
places or go. All other nodes are rewritten child by child: programs, switch cases, loops,
labels, functions, static blocks and conditionals that are not decided have the images of
their old children, in the old places. And every node of the result is such an image, so
that this holds at any depth.
-/
namespace DeadBranch

namespace Node

/-- A rule may regroup the children: a block, or a decided conditional with an alternate. -/
def Pliable : Node → Prop
  | .block .. => True
  | .ifElse _ t _ _ => t.literalBoolean.isSome
  | _ => False

theorem pliable_mapChildren {f : Node → Node} (hf : ∀ c, (f c).literalBoolean = c.literalBoolean)
    (n : Node) : (n.mapChildren f).Pliable ↔ n.Pliable := by
  cases n with
  | ifElse s t c a => simp only [mapChildren, Pliable, hf]
  | _ => rfl

theorem literalBoolean_of_pliable {m n : Node} (hn : n.Pliable) (h : m.face = n.face) :
    m.literalBoolean = none := by
  cases n with
  | block s k stmts => cases m <;> simp_all [face, literalBoolean]
  | ifElse s t c a => cases m <;> simp_all [face, literalBoolean]
  | _ => exact hn.elim

end Node

open Node

/-- A rewriting that keeps nodes in their places as far as they are not pliable. -/
structure KeepsPlaces (f : Node → Node) : Prop where
  face_eq (n : Node) : (f n).face = n.face
  /-- Child by child, so that every list keeps its length and its order. -/
  mapChildren {n : Node} : ¬ n.Pliable → f n = n.mapChildren f
  /-- Every node of the result but the literals in tests is the image of a node. -/
  origin {m n : Node} : m ∈ (f n).subtrees → m.literalBoolean = none →
    ∃ k ∈ n.subtrees, m = f k

namespace KeepsPlaces

variable {f g : Node → Node}

theorem literalBoolean_eq (hf : KeepsPlaces f) (n : Node) :
    (f n).literalBoolean = n.literalBoolean := by
  induction n using childInduction with
  | step n ih =>
      by_cases hn : n.Pliable
      · rw [literalBoolean_of_pliable hn (hf.face_eq n), literalBoolean_of_pliable hn rfl]
      · rw [hf.mapChildren hn, literalBoolean_mapChildren ih]

theorem refl : KeepsPlaces fun n => n where
  face_eq _ := rfl
  mapChildren _ := (mapChildren_id fun _ _ => rfl).symm
  origin hm _ := ⟨_, hm, rfl⟩

/-- One rewriting after another keeps what both keep. -/
theorem comp (hf : KeepsPlaces f) (hg : KeepsPlaces g) : KeepsPlaces fun n => g (f n) where
  face_eq n := (hg.face_eq (f n)).trans (hf.face_eq n)
  mapChildren {n} hn := by
    have hn' : ¬ (n.mapChildren f).Pliable := by
      rwa [pliable_mapChildren hf.literalBoolean_eq]
    rw [hf.mapChildren hn, hg.mapChildren hn', mapChildren_mapChildren]
  origin {m n} hm hlit := by
    obtain ⟨k', hk', hmk⟩ := hg.origin hm hlit
    have hlit' : k'.literalBoolean = none := by rw [← hg.literalBoolean_eq, ← hmk, hlit]
    obtain ⟨k, hk, hkk⟩ := hf.origin hk' hlit'
    exact ⟨k, hk, by rw [hmk, hkk]⟩

end KeepsPlaces

namespace Rule

theorem AppliesAt.pliable {r : Rule} {n : Node} (h : r.AppliesAt n) : n.Pliable := by
  cases r with
  | flip =>
      obtain ⟨s, t, c, a, b, rfl, ht, -⟩ := Flippable.exists_ifElse h
      simp [Pliable, ht]
  | prune =>
      obtain ⟨s, t, c, a, rfl, ht, -⟩ := Prunable.exists_ifElse h
      simp [Pliable, ht]
  | inline =>
      cases n with
      | block s k stmts => trivial
      | _ => exact h.elim

/-- A node that a rule leaves is what the rule has made of a node. -/
theorem exists_eq_rewrite {r : Rule} {m n : Node} (hm : m ∈ (r.rewrite n).value.subtrees)
    (hlit : m.literalBoolean = none) : ∃ k ∈ n.subtrees, m = (r.rewrite k).value := by
  induction n using childInduction with
  | step n ih =>
      rcases mem_subtrees.mp hm with rfl | ⟨d, hd, hmd⟩
      · exact ⟨n, n.self_mem_subtrees, rfl⟩
      rw [value_rewrite] at hd
      rcases (step_spec r _).mem_children hd with hsome | ⟨c', hc', hdc⟩
      · have hmlit := literalBoolean_of_mem_subtrees hsome hmd
        rw [hlit] at hmlit
        cases hmlit
      · rw [children_mapChildren] at hc'
        obtain ⟨c, hc, rfl⟩ := List.mem_map.mp hc'
        obtain ⟨k, hk, hmk⟩ := ih c hc (mem_subtrees_trans hmd hdc)
        exact ⟨k, mem_subtrees_of_mem_children hc hk, hmk⟩

theorem keepsPlaces_rewrite (r : Rule) : KeepsPlaces fun n => (r.rewrite n).value where
  face_eq := r.face_rewrite
  mapChildren hn := value_rewrite_of_not_appliesAt fun h => hn h.pliable
  origin := exists_eq_rewrite

/-- What rules leave of a tree that are applied to it one after the other. -/
def inTurn (rs : List Rule) (n : Node) : Node := rs.foldl (fun n r => (r.rewrite n).value) n

/-- What they leave of a list of trees. -/
def allInTurn (rs : List Rule) (ns : List Node) : List Node :=
  rs.foldl (fun ns r => (r.rewriteAll ns).value) ns

theorem inTurn_cons (r : Rule) (rs : List Rule) (n : Node) :
    inTurn (r :: rs) n = inTurn rs (r.rewrite n).value := rfl

theorem keepsPlaces_inTurn (rs : List Rule) : KeepsPlaces (inTurn rs) := by
  induction rs with
  | nil => exact .refl
  | cons r rs ih => exact r.keepsPlaces_rewrite.comp ih

theorem allInTurn_eq_map (rs : List Rule) (ns : List Node) :
    allInTurn rs ns = ns.map (inTurn rs) := by
  induction rs generalizing ns with
  | nil => exact (List.map_id ns).symm
  | cons r rs ih =>
      have hcons : allInTurn (r :: rs) ns = allInTurn rs (r.rewriteAll ns).value := rfl
      rw [hcons, ih, value_rewriteAll, List.map_map]
      rfl

/-- Rules applied in turn keep nodes in their places. All fields of a node of a passed-through kind
are rewritten entry by entry, and so is a list of trees that stands by itself. -/
theorem entry_by_entry (rs : List Rule) :
    KeepsPlaces (inTurn rs) ∧
      (∀ kind parts, inTurn rs (ofParts kind parts) =
        ofParts kind (parts.map (Part.map (inTurn rs)))) ∧
      ∀ ns, allInTurn rs ns = ns.map (inTurn rs) := by
  have hkeeps := keepsPlaces_inTurn rs
  refine ⟨hkeeps, fun kind parts => ?_, allInTurn_eq_map rs⟩
  have hstiff : ¬ (ofParts kind parts).Pliable := id
  rw [hkeeps.mapChildren hstiff, mapChildren_ofParts]

/-- The statements of a static block stay, and those of a block among them are spliced. -/
example (s : Span) :
    let entry (body : List Node) : Node := .ifThen s (.bool s true) (.block s 0 body)
    inTurn [.inline, .prune, .flip, .inline]
        (.staticBlock s s 0 [entry [], .block s 1 [entry []]]) =
      .staticBlock s s 0 [entry [], .block s 1 []] := rfl

end Rule
end DeadBranch
