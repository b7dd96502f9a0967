import DeadBranch.Decimal
import DeadBranch.Span
import DeadBranch.Tree.Kind

/-!
# Labels

A node that the branch rules pass through is a label with a list of children.
The label holds everything of the node but its children: the kind, and for each
field in visiting order either the field's own data or how many children it
takes. `arrange` puts the children back into the fields; it works for children
of any type, so that whoever folds a tree can also arrange what the fold gave.
-/
namespace DeadBranch

/-- A value stored in a field that holds no node. -/
inductive Datum where
  | absent
  | flag (b : Bool)
  | count (n : Nat)
  | decimal (d : Decimal)
  /-- An integer literal of any size: its sign and its base 2³² digits, lowest first. -/
  | bigInt (sign : Int) (digits : List Nat)
  | text (s : String)
  | span (s : Span)
deriving Repr, DecidableEq

/-- What a label keeps of one field. -/
inductive Slot where
  | datum (d : Datum)
  /-- The field is one child. -/
  | one
  /-- The field is a list with a place for each entry; a `false` place is a hole. -/
  | many (filled : List Bool)
deriving Repr, DecidableEq

/-- A node without its children. -/
structure Label where
  kind : Kind
  slots : List Slot
deriving Repr, DecidableEq

/-- One field of a node, children included. -/
inductive Part (α : Type) where
  | datum (d : Datum)
  | one (a : α)
  | many (entries : List (Option α))

/-- The entries of a list that are not holes. -/
def present {α : Type} : List (Option α) → List α
  | [] => []
  | some a :: entries => a :: present entries
  | none :: entries => present entries

namespace Part

variable {α : Type}

/-- The children a field contributes, in visiting order. -/
def children : Part α → List α
  | .datum _ => []
  | .one a => [a]
  | .many entries => present entries

/-- The field with its children forgotten. -/
def slot : Part α → Slot
  | .datum d => .datum d
  | .one _ => .one
  | .many entries => .many (entries.map Option.isSome)

def list (entries : List α) : Part α := .many (entries.map some)

/-- A field that may be left out. -/
def optional : Option α → Part α
  | none => .datum .absent
  | some a => .one a

def span (s : Span) : Part α := .datum (.span s)
def text (s : String) : Part α := .datum (.text s)
def flag (b : Bool) : Part α := .datum (.flag b)
def count (n : Nat) : Part α := .datum (.count n)
def absent : Part α := .datum .absent

end Part

/-- Take one child for each filled place; the rest is handed on. -/
def fill {α : Type} : List Bool → List α → List (Option α) × List α
  | true :: places, a :: as => let r := fill places as; (some a :: r.1, r.2)
  | false :: places, as => let r := fill places as; (none :: r.1, r.2)
  | _, as => ([], as)

/-- Put children back into the fields they were taken from. -/
def arrange {α : Type} : List Slot → List α → List (Part α)
  | [], _ => []
  | .datum d :: slots, as => .datum d :: arrange slots as
  | .one :: slots, a :: as => .one a :: arrange slots as
  | .one :: slots, [] => .datum .absent :: arrange slots []
  | .many places :: slots, as =>
      let r := fill places as
      .many r.1 :: arrange slots r.2

theorem fill_present {α : Type} (entries : List (Option α)) (rest : List α) :
    fill (entries.map Option.isSome) (present entries ++ rest) = (entries, rest) := by
  induction entries with
  | nil => cases rest <;> rfl
  | cons e entries ih => cases e <;> simp [fill, present, ih]

/-- A label and a child list lose nothing of the fields they were made from. -/
theorem arrange_children {α : Type} (parts : List (Part α)) :
    arrange (parts.map Part.slot) (parts.flatMap Part.children) = parts := by
  induction parts with
  | nil => rfl
  | cons p parts ih =>
      cases p <;> simp [arrange, Part.slot, Part.children, fill_present, ih]

end DeadBranch
