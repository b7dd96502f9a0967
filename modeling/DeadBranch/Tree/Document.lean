import DeadBranch.Document
import DeadBranch.Tree.Node

/-!
# Trees as documents

A node is written as a record of its fields, with its tag under `type` if its
kind has one. Fields that hold a span are the records with exactly the fields
`start` and `end`; a list that opens with a number is the value of a big integer
literal; any other list holds nodes and holes. Reading looks fields up by name,
so their order in the record does not matter, and finds the kind from the tag
and the set of field names. The value of a numeric literal is a decimal however
it was spelled.
-/
namespace DeadBranch

namespace Span

def toDocument (s : Span) : Document := .record [("start", .nat s.lo), ("end", .nat s.hi)]

end Span

namespace Datum

def toDocument : Datum → Document
  | .absent => .null
  | .flag b => .bool b
  | .count n => .nat n
  | .decimal d => .decimal d
  | .bigInt sign digits => .list [.int sign, .list (digits.map .nat)]
  | .text s => .text s
  | .span s => s.toDocument

end Datum

namespace Node

/-- A record with a tag. -/
def tagged (tag : String) (fields : List (String × Document)) : Document :=
  .record (("type", .text tag) :: fields)

/-- One field, its children already written. -/
def partDocument : Part Document → Document
  | .datum d => d.toDocument
  | .one d => d
  | .many entries => .list (entries.map (·.getD .null))

mutual

def toDocument : Node → Document
  | .ifThen span test consequent =>
      tagged "IfStatement" [("span", span.toDocument), ("test", toDocument test),
        ("consequent", toDocument consequent), ("alternate", .null)]
  | .ifElse span test consequent alternate =>
      tagged "IfStatement" [("span", span.toDocument), ("test", toDocument test),
        ("consequent", toDocument consequent), ("alternate", toDocument alternate)]
  | .block span scope stmts =>
      tagged "BlockStatement" [("span", span.toDocument), ("ctxt", .nat scope),
        ("stmts", .list (toDocuments stmts))]
  | .staticBlock span bodySpan scope stmts =>
      tagged "StaticBlock" [("span", span.toDocument),
        ("body", tagged "BlockStatement" [("span", bodySpan.toDocument), ("ctxt", .nat scope),
          ("stmts", .list (toDocuments stmts))])]
  | .paren span inner =>
      tagged "ParenthesisExpression" [("span", span.toDocument),
        ("expression", toDocument inner)]
  | .bool span value =>
      tagged "BooleanLiteral" [("span", span.toDocument), ("value", .bool value)]
  | .other label children =>
      let fields := label.kind.fields.zip
        ((arrange label.slots (toDocuments children)).map partDocument)
      match label.kind.tag with
      | some tag => tagged tag fields
      | none => .record fields

def toDocuments : List Node → List Document
  | [] => []
  | n :: ns => toDocument n :: toDocuments ns

end

/-- Fields read from a record, by name. -/
abbrev Fields := List (String × Part Node)

namespace Fields

def datum? (fields : Fields) (name : String) : Option Datum :=
  match fields.lookup name with
  | some (.datum d) => some d
  | _ => none

def span? (fields : Fields) (name : String) : Option Span :=
  match fields.datum? name with
  | some (.span s) => some s
  | _ => none

def count? (fields : Fields) (name : String) : Option Nat :=
  match fields.datum? name with
  | some (.count n) => some n
  | _ => none

def node? (fields : Fields) (name : String) : Option Node :=
  match fields.lookup name with
  | some (.one n) => some n
  | _ => none

/-- A list field without holes. -/
def nodes? (fields : Fields) (name : String) : Option (List Node) :=
  match fields.lookup name with
  | some (.many entries) => entries.mapM id
  | _ => none

/-- The fields of a conditional. -/
def conditional? (fields : Fields) : Option Node := do
  let span ← fields.span? "span"
  let test ← fields.node? "test"
  let consequent ← fields.node? "consequent"
  match ← fields.lookup "alternate" with
  | .one alternate => some (.ifElse span test consequent alternate)
  | .datum .absent => some (.ifThen span test consequent)
  | _ => none

def block? (fields : Fields) : Option Node := do
  some (.block (← fields.span? "span") (← fields.count? "ctxt") (← fields.nodes? "stmts"))

def staticBlock? (fields : Fields) : Option Node := do
  match ← fields.node? "body" with
  | .block bodySpan scope stmts => some (.staticBlock (← fields.span? "span") bodySpan scope stmts)
  | _ => none

def paren? (fields : Fields) : Option Node := do
  some (.paren (← fields.span? "span") (← fields.node? "expression"))

def bool? (fields : Fields) : Option Node := do
  match ← fields.datum? "value" with
  | .flag value => some (.bool (← fields.span? "span") value)
  | _ => none

/-- A whole number in the place of a numeric literal's value is a decimal. -/
def wideValue (kind : Kind) : Part Node → Part Node
  | .datum (.count n) => if kind = .numericLiteral then .datum (.decimal (.ofInt n)) else .datum (.count n)
  | p => p

/-- A node of a kind that is passed through. -/
def ofKind? (fields : Fields) (tag : Option String) : Option Node := do
  let kind ← Kind.ofShape? tag (fields.map (·.1))
  let parts ← kind.fields.mapM fun name => fields.lookup name
  some (ofParts kind (parts.map (wideValue kind)))

/-- The node that has these fields and this tag. -/
def assemble? (fields : Fields) : Option String → Option Node
  | some "IfStatement" => fields.conditional?
  | some "BlockStatement" => fields.block?
  | some "StaticBlock" => fields.staticBlock?
  | some "ParenthesisExpression" => fields.paren?
  | some "BooleanLiteral" => fields.bool?
  | tag => fields.ofKind? tag

/-- Sort a record's fields into its tag and the rest. -/
def split (fields : Fields) : Option String × Fields :=
  (match fields.datum? "type" with
    | some (.text tag) => some tag
    | _ => none,
    fields.filter (·.1 ≠ "type"))

/-- A record with only a start and an end is a span, any other is a node. -/
def toPart? (fields : Fields) : Option (Part Node) :=
  match fields.split with
  | (none, [(a, .datum (.count m)), (b, .datum (.count n))]) =>
      if a = "start" ∧ b = "end" then some (.span ⟨m, n⟩)
      else if a = "end" ∧ b = "start" then some (.span ⟨n, m⟩)
      else none
  | (tag, fields) => (fields.assemble? tag).map .one

end Fields

/-- A list's entry: a node or a hole. -/
def entry? : Part Node → Option (Option Node)
  | .one n => some (some n)
  | .datum .absent => some none
  | _ => none

/-- The value of a big integer literal. -/
def bigInt? : List Document → Option Datum
  | [.int sign, .list digits] => do
      let digits ← digits.mapM fun
        | .int n => some n.toNat
        | _ => none
      some (.bigInt sign digits)
  | _ => none

mutual

/-- The field that a document stands for. -/
def readPart? : Document → Option (Part Node)
  | .null => some .absent
  | .bool b => some (.flag b)
  | .int n => some (if 0 ≤ n then .count n.toNat else .datum (.decimal (.ofInt n)))
  | .decimal d => some (.datum (.decimal d))
  | .text s => some (.text s)
  | .list items =>
      match bigInt? items with
      | some d => some (.datum d)
      | none => do
          let parts ← readParts? items
          (parts.mapM entry?).map .many
  | .record fields => do
      let fields ← readFields? fields
      Fields.toPart? fields

def readParts? : List Document → Option (List (Part Node))
  | [] => some []
  | d :: ds => do
      let p ← readPart? d
      let ps ← readParts? ds
      some (p :: ps)

def readFields? : List (String × Document) → Option Fields
  | [] => some []
  | (name, d) :: rest => do
      let p ← readPart? d
      let ps ← readFields? rest
      some ((name, p) :: ps)

end

/-- The tree that a document stands for, if it is one. -/
def ofDocument? (d : Document) : Option Node :=
  match readPart? d with
  | some (.one n) => some n
  | _ => none

/-- A plain list of trees. -/
def listOfDocument? : Document → Option (List Node)
  | .list items => items.mapM ofDocument?
  | _ => none

end Node
end DeadBranch
