import DeadBranch.Decimal

/-!
# Documents

The values of a plain data format: null, booleans, numbers, text, lists and
records. Whole numbers and decimals are different values even where they are
equal as numbers, because a reader of the written form can tell them apart.
-/
namespace DeadBranch

inductive Document where
  | null
  | bool (b : Bool)
  | int (n : Int)
  | decimal (d : Decimal)
  | text (s : String)
  | list (items : List Document)
  | record (fields : List (String × Document))
deriving Repr, Inhabited

namespace Document

/-- The value of the first field of that name. -/
def get? (d : Document) (name : String) : Option Document :=
  match d with
  | .record fields => fields.lookup name
  | _ => none

def nat (n : Nat) : Document := .int n

def texts (ss : List String) : Document := .list (ss.map .text)

end Document
end DeadBranch
