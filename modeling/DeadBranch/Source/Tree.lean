import DeadBranch.Tree.Node

/-!
# Nodes of read text

Text has no types, decorators or access modifiers, so most fields of a node that
was read from text have one possible value. The constructors here take the
fields that do vary.
-/
namespace DeadBranch.Source

open DeadBranch (Node Span Kind Part Decimal)

/-- A node whose first field is its span. -/
def node (kind : Kind) (span : Span) (parts : List (Part Node)) : Node :=
  .ofParts kind (.span span :: parts)

/-- The span of a node that has one. -/
def spanOf (n : Node) : Span := n.span?.getD ⟨0, 0⟩

/-- From the start of one node to the end of another. -/
def across (a b : Node) : Span := (spanOf a).upTo (spanOf b)

def identifierParts (name : String) : List (Part Node) := [.count 0, .text name, .flag false]

/-- A name that is read, or that a function, class or label bears. -/
def identifier (span : Span) (name : String) : Node :=
  node .identifier span (identifierParts name)

/-- A name that is bound or assigned to. -/
def bindingIdentifier (span : Span) (name : String) : Node :=
  node .bindingIdentifier span (identifierParts name ++ [.absent])

/-- The name of a property. -/
def propertyName (span : Span) (name : String) : Node := node .propertyName span [.text name]

/-- The fields that all functions share. -/
def callableParts (span : Span) (params : List Node) (body : Node) : List (Part Node) :=
  [.list params, .list [], .span span, .count 0, .one body, .flag false, .flag false, .absent,
    .absent]

/-- The fields that all classes share. -/
def classParts (span : Span) (body : List Node) (superClass : Option Node) : List (Part Node) :=
  [.span span, .count 0, .list [], .list body, .optional superClass, .flag false, .absent, .absent,
    .list []]

def parameter (pattern : Node) : Node := node .parameter (spanOf pattern) [.list [], .one pattern]

def arrow (span : Span) (params : List Node) (body : Node) : Node :=
  node .arrowFunctionExpression span
    [.count 0, .list params, .one body, .flag false, .flag false, .absent, .absent]

def binary (operator : String) (left right : Node) : Node :=
  node .binaryExpression (across left right) [.text operator, .one left, .one right]

def argument (e : Node) : Node := .ofParts .argument [.absent, .one e]

/-- An argument or element that stands for many. -/
def spreadArgument (dots : Span) (e : Node) : Node := .ofParts .argument [.span dots, .one e]

def call (span : Span) (callee : Node) (arguments : List Node) : Node :=
  node .callExpression span [.count 0, .one callee, .list arguments, .absent]

/-- A construction; without parentheses there is no argument list at all. -/
def construct (span : Span) (callee : Node) (arguments : Option (List Node)) : Node :=
  node .newExpression span
    [.count 0, .one callee, (arguments.map Part.list).getD .absent, .absent]

def stringLiteral (span : Span) (raw value : String) : Node :=
  node .stringLiteral span [.text value, .text raw]

def numericLiteral (span : Span) (raw : String) (value : Decimal) : Node :=
  node .numericLiteral span [.datum (.decimal value), .text raw]

/-- A method or an accessor of a class; `sort` says which. -/
def classMethod (span : Span) (key : Node) (function : Node) (sort : String) (isStatic : Bool) :
    Node :=
  node .classMethod span
    [.one key, .one function, .text sort, .flag isStatic, .absent, .flag false, .flag false,
      .flag false]

def constructorMethod (span : Span) (key : Node) (params : List Node) (body : Node) : Node :=
  node .constructorMethod span
    [.count 0, .one key, .list params, .one body, .absent, .flag false]

def classProperty (span : Span) (key : Node) (value : Option Node) (isStatic : Bool) : Node :=
  node .classProperty span
    [.one key, .optional value, .absent, .flag isStatic, .list [], .absent, .flag false,
      .flag false, .flag false, .flag false, .flag false, .flag false]

def declarator (span : Span) (pattern : Node) (value : Option Node) : Node :=
  node .variableDeclarator span [.one pattern, .optional value, .flag false]

def declared (span : Span) (keyword : String) (declarators : List Node) : Node :=
  node .variableDeclaration span
    [.count 0, .text keyword, .flag false, .list declarators]

end DeadBranch.Source
