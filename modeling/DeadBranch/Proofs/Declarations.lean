import DeadBranch.Proofs.Rewrite.KeptPlaces

/-!
# What statements declare

The names that patterns bind and declarations introduce, read off the fields of a
node, and the bodies of the functions among them. Default values, initialisers and
types of a pattern bind nothing. A rule changes neither what a node declares nor
whether it is a function.
-/
namespace DeadBranch

/-- The word that a declaration of variables begins with. -/
def Label.keyword? (l : Label) : Option String :=
  match l.kind, l.slots with
  | .variableDeclaration, [_, _, .datum (.text keyword), _, _] => some keyword
  | _, _ => none

def Label.declaresVar (l : Label) : Bool := l.keyword? = some "var"

/-- A declaration that holds for the block it is an entry of. -/
def Label.declaresLexically (l : Label) : Bool :=
  l.keyword? = some "let" || l.keyword? = some "const" || l.kind = .functionDeclaration ||
    l.kind = .classDeclaration

/-- Everything with a body that runs when it is called. -/
def Label.isFunction (l : Label) : Bool :=
  match l.kind with
  | .functionDeclaration | .functionExpression | .function | .arrowFunctionExpression
  | .methodProperty | .constructorMethod | .getterProperty | .setterProperty => true
  | _ => false

/-- The names that a node binds, where each child's names stand in the place of the child. -/
def Kind.bindings (kind : Kind) (parts : List (Part (List String))) : List String :=
  match kind, parts with
  | .identifier, [_, _, .datum (.text name), _] => [name]
  | .bindingIdentifier, [_, _, .datum (.text name), _, _] => [name]
  | .arrayPattern, [_, .many elements, _, _] => (present elements).flatten
  | .objectPattern, [_, .many properties, _, _] => (present properties).flatten
  | .assignmentPattern, [_, .one target, _] => target
  | .restElement, [_, _, .one rest, _] => rest
  | .keyValuePatternProperty, [_, .one value] => value
  | .assignmentPatternProperty, [_, .one key, _] => key
  | .variableDeclarator, [_, .one pattern, _, _] => pattern
  | .variableDeclaration, [_, _, _, _, .many declarators] => (present declarators).flatten
  | .functionDeclaration, .one name :: _ => name
  | .classDeclaration, .one name :: _ => name
  | _, _ => []

namespace Node

/-- The node is of a passed-through kind, with such a label. -/
def hasLabel (p : Label → Bool) : Node → Bool
  | .other l _ => p l
  | _ => false

mutual

/-- The names that a pattern or a declaration binds. -/
def boundNames : Node → List String
  | .other l cs => l.kind.bindings (arrange l.slots (boundNamesAll cs))
  | _ => []

def boundNamesAll : List Node → List (List String)
  | [] => []
  | n :: ns => boundNames n :: boundNamesAll ns

end

theorem boundNamesAll_eq_map (ns : List Node) : boundNamesAll ns = ns.map boundNames := by
  induction ns with
  | nil => rfl
  | cons n ns ih => rw [boundNamesAll, ih, List.map_cons]

/-- The names of a `let`, `const`, class or function declaration. -/
def lexicalNames (n : Node) : List String :=
  if n.hasLabel Label.declaresLexically then n.boundNames else []

/-- The names of a `var` declaration. -/
def varNames (n : Node) : List String :=
  if n.hasLabel Label.declaresVar then n.boundNames else []

theorem lexicalNames_of_isIf {n : Node} (h : n.isIf) : n.lexicalNames = [] := by
  cases n <;> first | rfl | cases h

theorem hasLabel_eq (p : Label → Bool) (n : Node) : n.hasLabel p = n.label?.any p := by
  cases n <;> rfl

theorem hasLabel_mapChildren (p : Label → Bool) (f : Node → Node) (n : Node) :
    (n.mapChildren f).hasLabel p = n.hasLabel p := by
  cases n <;> rfl

theorem boundNames_mapChildren {f : Node → Node} {n : Node}
    (h : ∀ c ∈ n.children, (f c).boundNames = c.boundNames) :
    (n.mapChildren f).boundNames = n.boundNames := by
  cases n with
  | other l cs =>
      have hcs : (cs.map f).map boundNames = cs.map boundNames := by
        rw [List.map_map]
        exact List.map_congr_left h
      rw [mapChildren, boundNames, boundNames, boundNamesAll_eq_map, boundNamesAll_eq_map, hcs]
  | _ => rfl

/-- The body of a function, if it has braces. -/
def functionBody? (n : Node) : Option Node :=
  if n.hasLabel Label.isFunction then n.children.find? isBlock else none

/-- The bodies of all functions in the tree, those of functions in functions included. -/
def functionBodies (n : Node) : List Node := n.subtrees.filterMap functionBody?

theorem functionBody?_of_not_hasLabel {n : Node} (h : ¬ n.hasLabel Label.isFunction) :
    n.functionBody? = none := if_neg h

/-- A function is still one when its children are replaced, and its body is the one put there. -/
theorem functionBody?_mapChildren {f : Node → Node} (hf : ∀ c, (f c).isBlock = c.isBlock)
    (n : Node) : (n.mapChildren f).functionBody? = n.functionBody?.map f := by
  have hblock : isBlock ∘ f = isBlock := funext hf
  unfold functionBody?
  rw [hasLabel_mapChildren]
  split
  · rw [children_mapChildren, List.find?_map, hblock]
  · rfl

theorem functionBodies_eq (n : Node) :
    n.functionBodies = n.functionBody?.toList ++ n.children.flatMap functionBodies := by
  unfold functionBodies
  rw [subtrees_eq n, List.filterMap_cons, List.filterMap_flatMap]
  cases n.functionBody? <;> rfl

end Node

namespace Rule

open Node

variable {r : Rule} {n m : Node} {k : Nat}

theorem Step.boundNames_eq (h : Step r n m k) : m.boundNames = n.boundNames := by
  cases h <;> rfl

theorem hasLabel_rewrite (p : Label → Bool) (r : Rule) (n : Node) :
    (r.rewrite n).value.hasLabel p = n.hasLabel p := by
  rw [hasLabel_eq, label?_rewrite, ← hasLabel_eq]

theorem boundNames_rewrite (r : Rule) (n : Node) :
    (r.rewrite n).value.boundNames = n.boundNames := by
  induction n using childInduction with
  | step n ih => rw [value_rewrite, (step_spec r _).boundNames_eq, boundNames_mapChildren ih]

theorem lexicalNames_rewrite (r : Rule) (n : Node) :
    (r.rewrite n).value.lexicalNames = n.lexicalNames := by
  simp only [lexicalNames, hasLabel_rewrite, boundNames_rewrite]

theorem varNames_rewrite (r : Rule) (n : Node) :
    (r.rewrite n).value.varNames = n.varNames := by
  simp only [varNames, hasLabel_rewrite, boundNames_rewrite]

end Rule

namespace DeadCode

open Node

theorem hasLabel_simplified (p : Label → Bool) (n : Node) :
    (simplified n).hasLabel p = n.hasLabel p := by
  simp only [simplified_eq, finished, Rule.hasLabel_rewrite]

theorem lexicalNames_simplified (n : Node) : (simplified n).lexicalNames = n.lexicalNames := by
  simp only [simplified_eq, finished, Rule.lexicalNames_rewrite]

theorem varNames_simplified (n : Node) : (simplified n).varNames = n.varNames := by
  simp only [simplified_eq, finished, Rule.varNames_rewrite]

end DeadCode
end DeadBranch
