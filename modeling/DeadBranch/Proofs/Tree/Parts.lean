import DeadBranch.Proofs.Tree.Subtrees

/-!
# Replacing children field by field

A node that is made from its fields keeps them when its children are replaced one by
one: each field is the old one with each of its children replaced. A list stays as long
as it was, and every entry and every hole in it keeps its position.
-/
namespace DeadBranch

namespace Part

variable {α β : Type}

/-- The field with each of its children replaced. -/
def map (f : α → β) : Part α → Part β
  | .datum d => .datum d
  | .one a => .one (f a)
  | .many entries => .many (entries.map (Option.map f))

theorem slot_map (f : α → β) (p : Part α) : (p.map f).slot = p.slot := by
  cases p <;> simp [map, slot, Function.comp_def]

theorem present_map (f : α → β) (entries : List (Option α)) :
    present (entries.map (Option.map f)) = (present entries).map f := by
  induction entries with
  | nil => rfl
  | cons e entries ih => cases e <;> simp [present, ih]

theorem children_map (f : α → β) (p : Part α) : (p.map f).children = p.children.map f := by
  cases p with
  | many entries => exact present_map f entries
  | _ => rfl

theorem map_one (f : α → β) (a : α) : (Part.one a).map f = .one (f a) := rfl

theorem map_list (f : α → β) (as : List α) : (Part.list as).map f = .list (as.map f) := by
  simp [list, map, Function.comp_def]

theorem map_optional (f : α → β) (a : Option α) :
    (Part.optional a).map f = .optional (a.map f) := by
  cases a <;> rfl

end Part

namespace Node

theorem mapChildren_ofParts (f : Node → Node) (kind : Kind) (parts : List (Part Node)) :
    (ofParts kind parts).mapChildren f = ofParts kind (parts.map (Part.map f)) := by
  simp [ofParts, mapChildren, Function.comp_def, Part.slot_map, Part.children_map,
    List.map_flatMap, List.flatMap_map]

end Node
end DeadBranch
