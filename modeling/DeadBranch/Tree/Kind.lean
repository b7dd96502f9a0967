/-!
# Kinds of syntax node

The node kinds of ECMAScript trees, with their type and markup extensions, that
no branch rule looks into. Each kind has the tag that names it in a tree's
document form and its field names in visiting order. Visiting order is source
order except where a loop tests before its body is visited, a function's
parameters precede its decorators, or a class body precedes its heritage.

Conditionals, blocks, static blocks, parentheses and boolean literals are
absent: the rules read those, so they are constructors of the tree type itself.
Several kinds share a tag and differ in their fields; two have no tag at all.
-/
namespace DeadBranch

/-- The kind of a node that the branch rules pass through unread. -/
inductive Kind where
  -- Programs.
  | moduleProgram | scriptProgram
  -- Statements and their clauses.
  | expressionStatement | emptyStatement | debuggerStatement | withStatement | returnStatement
  | labeledStatement | breakStatement | continueStatement | switchStatement | throwStatement
  | tryStatement | whileStatement | doWhileStatement | forStatement | forInStatement
  | forOfStatement | switchCase | catchClause
  -- Declarations.
  | functionDeclaration | classDeclaration | variableDeclaration | variableDeclarator
  | usingDeclaration | function | parameter | decorator
  -- Members of classes and objects.
  | classProperty | privateProperty | classMethod | privateMethod | constructorMethod
  | autoAccessor | keyValueProperty | getterProperty | setterProperty | methodProperty
  | computedName
  -- Patterns.
  | arrayPattern | objectPattern | assignmentPattern | restElement | keyValuePatternProperty
  | assignmentPatternProperty
  -- Expressions and their parts.
  | thisExpression | arrayExpression | objectExpression | spreadElement | unaryExpression
  | updateExpression | binaryExpression | functionExpression | classExpression
  | assignmentExpression | memberExpression | superPropExpression | conditionalExpression
  | callExpression | newExpression | sequenceExpression | arrowFunctionExpression | yieldExpression
  | metaProperty | awaitExpression | taggedTemplateExpression | superReference | importCallee
  | optionalChainingExpression | argument
  -- Literals and names.
  | templateLiteral | templateElement | bigIntLiteral | stringLiteral | nullLiteral | regExpLiteral
  | numericLiteral | identifier | propertyName | privateName | bindingIdentifier
  -- Module items.
  | exportDefaultExpression | exportDeclaration | importDeclaration | exportAllDeclaration
  | exportNamedDeclaration | exportDefaultDeclaration | importDefaultSpecifier
  | importNamespaceSpecifier | importSpecifier | exportNamespaceSpecifier | exportSpecifier
  -- Markup elements.
  | jsxMemberExpression | jsxNamespacedName | jsxEmptyExpression | jsxExpressionContainer
  | jsxSpreadChild | jsxOpeningElement | jsxClosingElement | jsxAttribute | jsxText | jsxElement
  | jsxFragment | jsxOpeningFragment | jsxClosingFragment
  -- Type syntax.
  | tsAnnotatedType | tsTypeParameterDeclaration | tsTypeParameter | tsTypeParameterInstantiation
  | tsParameterProperty | tsQualifiedName | tsCallSignatureDeclaration
  | tsConstructSignatureDeclaration | tsPropertySignature | tsGetterSignature | tsSetterSignature
  | tsMethodSignature | tsIndexSignature | tsKeywordType | tsConstructorType | tsTypeReference
  | tsTypePredicate | tsTypeQuery | tsImportType | tsTypeLiteral | tsArrayType | tsTupleType
  | tsTupleElement | tsUnionType | tsIntersectionType | tsConditionalType | tsInferType
  | tsParenthesizedType | tsTypeOperator | tsIndexedAccessType | tsMappedType | tsLiteralType
  | tsTemplateLiteralType | tsInterfaceDeclaration | tsInterfaceBody
  | tsExpressionWithTypeArguments | tsTypeAliasDeclaration | tsEnumDeclaration | tsEnumMember
  | tsModuleDeclaration | tsModuleBlock | tsNamespaceDeclaration | tsImportEqualsDeclaration
  | tsExternalModuleReference | tsExportAssignment | tsNamespaceExportDeclaration | tsAsExpression
  | tsTypeAssertion | tsNonNullExpression | tsSatisfiesExpression | tsConstAssertion
  | tsInstantiation
deriving Repr, DecidableEq

namespace Kind

/-- Every kind, in the order of declaration. -/
def all : List Kind :=
  [.moduleProgram, .scriptProgram, .expressionStatement, .emptyStatement, .debuggerStatement,
  .withStatement, .returnStatement, .labeledStatement, .breakStatement, .continueStatement,
  .switchStatement, .throwStatement, .tryStatement, .whileStatement, .doWhileStatement,
  .forStatement, .forInStatement, .forOfStatement, .switchCase, .catchClause, .functionDeclaration,
  .classDeclaration, .variableDeclaration, .variableDeclarator, .usingDeclaration, .function,
  .parameter, .decorator, .classProperty, .privateProperty, .classMethod, .privateMethod,
  .constructorMethod, .autoAccessor, .keyValueProperty, .getterProperty, .setterProperty,
  .methodProperty, .computedName, .arrayPattern, .objectPattern, .assignmentPattern, .restElement,
  .keyValuePatternProperty, .assignmentPatternProperty, .thisExpression, .arrayExpression,
  .objectExpression, .spreadElement, .unaryExpression, .updateExpression, .binaryExpression,
  .functionExpression, .classExpression, .assignmentExpression, .memberExpression,
  .superPropExpression, .conditionalExpression, .callExpression, .newExpression,
  .sequenceExpression, .arrowFunctionExpression, .yieldExpression, .metaProperty, .awaitExpression,
  .taggedTemplateExpression, .superReference, .importCallee, .optionalChainingExpression,
  .argument, .templateLiteral, .templateElement, .bigIntLiteral, .stringLiteral, .nullLiteral,
  .regExpLiteral, .numericLiteral, .identifier, .propertyName, .privateName, .bindingIdentifier,
  .exportDefaultExpression, .exportDeclaration, .importDeclaration, .exportAllDeclaration,
  .exportNamedDeclaration, .exportDefaultDeclaration, .importDefaultSpecifier,
  .importNamespaceSpecifier, .importSpecifier, .exportNamespaceSpecifier, .exportSpecifier,
  .jsxMemberExpression, .jsxNamespacedName, .jsxEmptyExpression, .jsxExpressionContainer,
  .jsxSpreadChild, .jsxOpeningElement, .jsxClosingElement, .jsxAttribute, .jsxText, .jsxElement,
  .jsxFragment, .jsxOpeningFragment, .jsxClosingFragment, .tsAnnotatedType,
  .tsTypeParameterDeclaration, .tsTypeParameter, .tsTypeParameterInstantiation,
  .tsParameterProperty, .tsQualifiedName, .tsCallSignatureDeclaration,
  .tsConstructSignatureDeclaration, .tsPropertySignature, .tsGetterSignature, .tsSetterSignature,
  .tsMethodSignature, .tsIndexSignature, .tsKeywordType, .tsConstructorType, .tsTypeReference,
  .tsTypePredicate, .tsTypeQuery, .tsImportType, .tsTypeLiteral, .tsArrayType, .tsTupleType,
  .tsTupleElement, .tsUnionType, .tsIntersectionType, .tsConditionalType, .tsInferType,
  .tsParenthesizedType, .tsTypeOperator, .tsIndexedAccessType, .tsMappedType, .tsLiteralType,
  .tsTemplateLiteralType, .tsInterfaceDeclaration, .tsInterfaceBody,
  .tsExpressionWithTypeArguments, .tsTypeAliasDeclaration, .tsEnumDeclaration, .tsEnumMember,
  .tsModuleDeclaration, .tsModuleBlock, .tsNamespaceDeclaration, .tsImportEqualsDeclaration,
  .tsExternalModuleReference, .tsExportAssignment, .tsNamespaceExportDeclaration, .tsAsExpression,
  .tsTypeAssertion, .tsNonNullExpression, .tsSatisfiesExpression, .tsConstAssertion,
  .tsInstantiation]

/-- The tag a node of the kind carries in document form, if any. -/
def tag : Kind → Option String
  | .moduleProgram => some "Module"
  | .scriptProgram => some "Script"
  | .expressionStatement => some "ExpressionStatement"
  | .emptyStatement => some "EmptyStatement"
  | .debuggerStatement => some "DebuggerStatement"
  | .withStatement => some "WithStatement"
  | .returnStatement => some "ReturnStatement"
  | .labeledStatement => some "LabeledStatement"
  | .breakStatement => some "BreakStatement"
  | .continueStatement => some "ContinueStatement"
  | .switchStatement => some "SwitchStatement"
  | .throwStatement => some "ThrowStatement"
  | .tryStatement => some "TryStatement"
  | .whileStatement => some "WhileStatement"
  | .doWhileStatement => some "DoWhileStatement"
  | .forStatement => some "ForStatement"
  | .forInStatement => some "ForInStatement"
  | .forOfStatement => some "ForOfStatement"
  | .switchCase => some "SwitchCase"
  | .catchClause => some "CatchClause"
  | .functionDeclaration => some "FunctionDeclaration"
  | .classDeclaration => some "ClassDeclaration"
  | .variableDeclaration => some "VariableDeclaration"
  | .variableDeclarator => some "VariableDeclarator"
  | .usingDeclaration => some "UsingDeclaration"
  | .function => none
  | .parameter => some "Parameter"
  | .decorator => some "Decorator"
  | .classProperty => some "ClassProperty"
  | .privateProperty => some "PrivateProperty"
  | .classMethod => some "ClassMethod"
  | .privateMethod => some "PrivateMethod"
  | .constructorMethod => some "Constructor"
  | .autoAccessor => some "AutoAccessor"
  | .keyValueProperty => some "KeyValueProperty"
  | .getterProperty => some "GetterProperty"
  | .setterProperty => some "SetterProperty"
  | .methodProperty => some "MethodProperty"
  | .computedName => some "Computed"
  | .arrayPattern => some "ArrayPattern"
  | .objectPattern => some "ObjectPattern"
  | .assignmentPattern => some "AssignmentPattern"
  | .restElement => some "RestElement"
  | .keyValuePatternProperty => some "KeyValuePatternProperty"
  | .assignmentPatternProperty => some "AssignmentPatternProperty"
  | .thisExpression => some "ThisExpression"
  | .arrayExpression => some "ArrayExpression"
  | .objectExpression => some "ObjectExpression"
  | .spreadElement => some "SpreadElement"
  | .unaryExpression => some "UnaryExpression"
  | .updateExpression => some "UpdateExpression"
  | .binaryExpression => some "BinaryExpression"
  | .functionExpression => some "FunctionExpression"
  | .classExpression => some "ClassExpression"
  | .assignmentExpression => some "AssignmentExpression"
  | .memberExpression => some "MemberExpression"
  | .superPropExpression => some "SuperPropExpression"
  | .conditionalExpression => some "ConditionalExpression"
  | .callExpression => some "CallExpression"
  | .newExpression => some "NewExpression"
  | .sequenceExpression => some "SequenceExpression"
  | .arrowFunctionExpression => some "ArrowFunctionExpression"
  | .yieldExpression => some "YieldExpression"
  | .metaProperty => some "MetaProperty"
  | .awaitExpression => some "AwaitExpression"
  | .taggedTemplateExpression => some "TaggedTemplateExpression"
  | .superReference => some "Super"
  | .importCallee => some "Import"
  | .optionalChainingExpression => some "OptionalChainingExpression"
  | .argument => none
  | .templateLiteral => some "TemplateLiteral"
  | .templateElement => some "TemplateElement"
  | .bigIntLiteral => some "BigIntLiteral"
  | .stringLiteral => some "StringLiteral"
  | .nullLiteral => some "NullLiteral"
  | .regExpLiteral => some "RegExpLiteral"
  | .numericLiteral => some "NumericLiteral"
  | .identifier => some "Identifier"
  | .propertyName => some "Identifier"
  | .privateName => some "PrivateName"
  | .bindingIdentifier => some "Identifier"
  | .exportDefaultExpression => some "ExportDefaultExpression"
  | .exportDeclaration => some "ExportDeclaration"
  | .importDeclaration => some "ImportDeclaration"
  | .exportAllDeclaration => some "ExportAllDeclaration"
  | .exportNamedDeclaration => some "ExportNamedDeclaration"
  | .exportDefaultDeclaration => some "ExportDefaultDeclaration"
  | .importDefaultSpecifier => some "ImportDefaultSpecifier"
  | .importNamespaceSpecifier => some "ImportNamespaceSpecifier"
  | .importSpecifier => some "ImportSpecifier"
  | .exportNamespaceSpecifier => some "ExportNamespaceSpecifier"
  | .exportSpecifier => some "ExportSpecifier"
  | .jsxMemberExpression => some "JSXMemberExpression"
  | .jsxNamespacedName => some "JSXNamespacedName"
  | .jsxEmptyExpression => some "JSXEmptyExpression"
  | .jsxExpressionContainer => some "JSXExpressionContainer"
  | .jsxSpreadChild => some "JSXSpreadChild"
  | .jsxOpeningElement => some "JSXOpeningElement"
  | .jsxClosingElement => some "JSXClosingElement"
  | .jsxAttribute => some "JSXAttribute"
  | .jsxText => some "JSXText"
  | .jsxElement => some "JSXElement"
  | .jsxFragment => some "JSXFragment"
  | .jsxOpeningFragment => some "JSXOpeningFragment"
  | .jsxClosingFragment => some "JSXClosingFragment"
  | .tsAnnotatedType => some "TsTypeAnnotation"
  | .tsTypeParameterDeclaration => some "TsTypeParameterDeclaration"
  | .tsTypeParameter => some "TsTypeParameter"
  | .tsTypeParameterInstantiation => some "TsTypeParameterInstantiation"
  | .tsParameterProperty => some "TsParameterProperty"
  | .tsQualifiedName => some "TsQualifiedName"
  | .tsCallSignatureDeclaration => some "TsCallSignatureDeclaration"
  | .tsConstructSignatureDeclaration => some "TsConstructSignatureDeclaration"
  | .tsPropertySignature => some "TsPropertySignature"
  | .tsGetterSignature => some "TsGetterSignature"
  | .tsSetterSignature => some "TsSetterSignature"
  | .tsMethodSignature => some "TsMethodSignature"
  | .tsIndexSignature => some "TsIndexSignature"
  | .tsKeywordType => some "TsKeywordType"
  | .tsConstructorType => some "TsConstructorType"
  | .tsTypeReference => some "TsTypeReference"
  | .tsTypePredicate => some "TsTypePredicate"
  | .tsTypeQuery => some "TsTypeQuery"
  | .tsImportType => some "TsImportType"
  | .tsTypeLiteral => some "TsTypeLiteral"
  | .tsArrayType => some "TsArrayType"
  | .tsTupleType => some "TsTupleType"
  | .tsTupleElement => some "TsTupleElement"
  | .tsUnionType => some "TsUnionType"
  | .tsIntersectionType => some "TsIntersectionType"
  | .tsConditionalType => some "TsConditionalType"
  | .tsInferType => some "TsInferType"
  | .tsParenthesizedType => some "TsParenthesizedType"
  | .tsTypeOperator => some "TsTypeOperator"
  | .tsIndexedAccessType => some "TsIndexedAccessType"
  | .tsMappedType => some "TsMappedType"
  | .tsLiteralType => some "TsLiteralType"
  | .tsTemplateLiteralType => some "TemplateLiteral"
  | .tsInterfaceDeclaration => some "TsInterfaceDeclaration"
  | .tsInterfaceBody => some "TsInterfaceBody"
  | .tsExpressionWithTypeArguments => some "TsExpressionWithTypeArguments"
  | .tsTypeAliasDeclaration => some "TsTypeAliasDeclaration"
  | .tsEnumDeclaration => some "TsEnumDeclaration"
  | .tsEnumMember => some "TsEnumMember"
  | .tsModuleDeclaration => some "TsModuleDeclaration"
  | .tsModuleBlock => some "TsModuleBlock"
  | .tsNamespaceDeclaration => some "TsNamespaceDeclaration"
  | .tsImportEqualsDeclaration => some "TsImportEqualsDeclaration"
  | .tsExternalModuleReference => some "TsExternalModuleReference"
  | .tsExportAssignment => some "TsExportAssignment"
  | .tsNamespaceExportDeclaration => some "TsNamespaceExportDeclaration"
  | .tsAsExpression => some "TsAsExpression"
  | .tsTypeAssertion => some "TsTypeAssertion"
  | .tsNonNullExpression => some "TsNonNullExpression"
  | .tsSatisfiesExpression => some "TsSatisfiesExpression"
  | .tsConstAssertion => some "TsConstAssertion"
  | .tsInstantiation => some "TsInstantiation"

/-- Fields shared by everything that is callable. -/
def callableFields : List String :=
  ["params", "decorators", "span", "ctxt", "body", "generator", "async", "typeParameters",
  "returnType"]

/-- Fields shared by class declarations and class expressions. -/
def classFields : List String :=
  ["span", "ctxt", "decorators", "body", "superClass", "isAbstract", "typeParams",
  "superTypeParams", "implements"]

/-- Field names in visiting order. -/
def fields : Kind → List String
  | .moduleProgram => ["span", "body", "interpreter"]
  | .scriptProgram => ["span", "body", "interpreter"]
  | .expressionStatement => ["span", "expression"]
  | .emptyStatement => ["span"]
  | .debuggerStatement => ["span"]
  | .withStatement => ["span", "object", "body"]
  | .returnStatement => ["span", "argument"]
  | .labeledStatement => ["span", "label", "body"]
  | .breakStatement => ["span", "label"]
  | .continueStatement => ["span", "label"]
  | .switchStatement => ["span", "discriminant", "cases"]
  | .throwStatement => ["span", "argument"]
  | .tryStatement => ["span", "block", "handler", "finalizer"]
  | .whileStatement => ["span", "test", "body"]
  | .doWhileStatement => ["span", "test", "body"]
  | .forStatement => ["span", "init", "test", "update", "body"]
  | .forInStatement => ["span", "left", "right", "body"]
  | .forOfStatement => ["span", "await", "left", "right", "body"]
  | .switchCase => ["span", "test", "consequent"]
  | .catchClause => ["span", "param", "body"]
  | .functionDeclaration => ["identifier", "declare"] ++ callableFields
  | .classDeclaration => ["identifier", "declare"] ++ classFields
  | .variableDeclaration => ["span", "ctxt", "kind", "declare", "declarations"]
  | .variableDeclarator => ["span", "id", "init", "definite"]
  | .usingDeclaration => ["span", "isAwait", "decls"]
  | .function => callableFields
  | .parameter => ["span", "decorators", "pat"]
  | .decorator => ["span", "expression"]
  | .classProperty =>
      ["span", "key", "value", "typeAnnotation", "isStatic", "decorators", "accessibility",
      "isAbstract", "isOptional", "isOverride", "readonly", "declare", "definite"]
  | .privateProperty =>
      ["span", "ctxt", "key", "value", "typeAnnotation", "isStatic", "decorators", "accessibility",
      "isOptional", "isOverride", "readonly", "definite"]
  | .classMethod =>
      ["span", "key", "function", "kind", "isStatic", "accessibility", "isAbstract", "isOptional",
      "isOverride"]
  | .privateMethod =>
      ["span", "key", "function", "kind", "isStatic", "accessibility", "isAbstract", "isOptional",
      "isOverride"]
  | .constructorMethod => ["span", "ctxt", "key", "params", "body", "accessibility", "isOptional"]
  | .autoAccessor =>
      ["span", "key", "value", "typeAnnotation", "isStatic", "decorators", "accessibility",
      "isAbstract", "isOverride", "definite"]
  | .keyValueProperty => ["key", "value"]
  | .getterProperty => ["span", "key", "typeAnnotation", "body"]
  | .setterProperty => ["span", "key", "thisParam", "param", "body"]
  | .methodProperty => ["key"] ++ callableFields
  | .computedName => ["span", "expression"]
  | .arrayPattern => ["span", "elements", "optional", "typeAnnotation"]
  | .objectPattern => ["span", "properties", "optional", "typeAnnotation"]
  | .assignmentPattern => ["span", "left", "right"]
  | .restElement => ["span", "rest", "argument", "typeAnnotation"]
  | .keyValuePatternProperty => ["key", "value"]
  | .assignmentPatternProperty => ["span", "key", "value"]
  | .thisExpression => ["span"]
  | .arrayExpression => ["span", "elements"]
  | .objectExpression => ["span", "properties"]
  | .spreadElement => ["spread", "arguments"]
  | .unaryExpression => ["span", "operator", "argument"]
  | .updateExpression => ["span", "operator", "prefix", "argument"]
  | .binaryExpression => ["span", "operator", "left", "right"]
  | .functionExpression => ["identifier"] ++ callableFields
  | .classExpression => ["identifier"] ++ classFields
  | .assignmentExpression => ["span", "operator", "left", "right"]
  | .memberExpression => ["span", "object", "property"]
  | .superPropExpression => ["span", "obj", "property"]
  | .conditionalExpression => ["span", "test", "consequent", "alternate"]
  | .callExpression => ["span", "ctxt", "callee", "arguments", "typeArguments"]
  | .newExpression => ["span", "ctxt", "callee", "arguments", "typeArguments"]
  | .sequenceExpression => ["span", "expressions"]
  | .arrowFunctionExpression =>
      ["span", "ctxt", "params", "body", "async", "generator", "typeParameters", "returnType"]
  | .yieldExpression => ["span", "argument", "delegate"]
  | .metaProperty => ["span", "kind"]
  | .awaitExpression => ["span", "argument"]
  | .taggedTemplateExpression => ["span", "ctxt", "tag", "typeParameters", "template"]
  | .superReference => ["span"]
  | .importCallee => ["span", "phase"]
  | .optionalChainingExpression => ["span", "optional", "base"]
  | .argument => ["spread", "expression"]
  | .templateLiteral => ["span", "expressions", "quasis"]
  | .templateElement => ["span", "tail", "cooked", "raw"]
  | .bigIntLiteral => ["span", "value", "raw"]
  | .stringLiteral => ["span", "value", "raw"]
  | .nullLiteral => ["span"]
  | .regExpLiteral => ["span", "pattern", "flags"]
  | .numericLiteral => ["span", "value", "raw"]
  | .identifier => ["span", "ctxt", "value", "optional"]
  | .propertyName => ["span", "value"]
  | .privateName => ["span", "value"]
  | .bindingIdentifier => ["span", "ctxt", "value", "optional", "typeAnnotation"]
  | .exportDefaultExpression => ["span", "expression"]
  | .exportDeclaration => ["span", "declaration"]
  | .importDeclaration => ["span", "specifiers", "source", "typeOnly", "with", "phase"]
  | .exportAllDeclaration => ["span", "source", "typeOnly", "with"]
  | .exportNamedDeclaration => ["span", "specifiers", "source", "typeOnly", "with"]
  | .exportDefaultDeclaration => ["span", "decl"]
  | .importDefaultSpecifier => ["span", "local"]
  | .importNamespaceSpecifier => ["span", "local"]
  | .importSpecifier => ["span", "local", "imported", "isTypeOnly"]
  | .exportNamespaceSpecifier => ["span", "name"]
  | .exportSpecifier => ["span", "orig", "exported", "isTypeOnly"]
  | .jsxMemberExpression => ["span", "object", "property"]
  | .jsxNamespacedName => ["span", "namespace", "name"]
  | .jsxEmptyExpression => ["span"]
  | .jsxExpressionContainer => ["span", "expression"]
  | .jsxSpreadChild => ["span", "expression"]
  | .jsxOpeningElement => ["name", "span", "attributes", "selfClosing", "typeArguments"]
  | .jsxClosingElement => ["span", "name"]
  | .jsxAttribute => ["span", "name", "value"]
  | .jsxText => ["span", "value", "raw"]
  | .jsxElement => ["span", "opening", "children", "closing"]
  | .jsxFragment => ["span", "opening", "children", "closing"]
  | .jsxOpeningFragment => ["span"]
  | .jsxClosingFragment => ["span"]
  | .tsAnnotatedType => ["span", "typeAnnotation"]
  | .tsTypeParameterDeclaration => ["span", "parameters"]
  | .tsTypeParameter => ["span", "name", "in", "out", "const", "constraint", "default"]
  | .tsTypeParameterInstantiation => ["span", "params"]
  | .tsParameterProperty => ["span", "decorators", "accessibility", "override", "readonly", "param"]
  | .tsQualifiedName => ["span", "left", "right"]
  | .tsCallSignatureDeclaration => ["span", "params", "typeAnnotation", "typeParams"]
  | .tsConstructSignatureDeclaration => ["span", "params", "typeAnnotation", "typeParams"]
  | .tsPropertySignature => ["span", "readonly", "key", "computed", "optional", "typeAnnotation"]
  | .tsGetterSignature => ["span", "key", "computed", "typeAnnotation"]
  | .tsSetterSignature => ["span", "key", "computed", "param"]
  | .tsMethodSignature => ["span", "key", "computed", "optional", "params", "typeAnn", "typeParams"]
  | .tsIndexSignature => ["params", "typeAnnotation", "readonly", "static", "span"]
  | .tsKeywordType => ["span", "kind"]
  | .tsConstructorType => ["span", "params", "typeParams", "typeAnnotation", "isAbstract"]
  | .tsTypeReference => ["span", "typeName", "typeParams"]
  | .tsTypePredicate => ["span", "asserts", "paramName", "typeAnnotation"]
  | .tsTypeQuery => ["span", "exprName", "typeArguments"]
  | .tsImportType => ["span", "argument", "qualifier", "typeArguments", "attributes"]
  | .tsTypeLiteral => ["span", "members"]
  | .tsArrayType => ["span", "elemType"]
  | .tsTupleType => ["span", "elemTypes"]
  | .tsTupleElement => ["span", "label", "ty"]
  | .tsUnionType => ["span", "types"]
  | .tsIntersectionType => ["span", "types"]
  | .tsConditionalType => ["span", "checkType", "extendsType", "trueType", "falseType"]
  | .tsInferType => ["span", "typeParam"]
  | .tsParenthesizedType => ["span", "typeAnnotation"]
  | .tsTypeOperator => ["span", "op", "typeAnnotation"]
  | .tsIndexedAccessType => ["span", "readonly", "objectType", "indexType"]
  | .tsMappedType => ["span", "readonly", "typeParam", "nameType", "optional", "typeAnnotation"]
  | .tsLiteralType => ["span", "literal"]
  | .tsTemplateLiteralType => ["span", "types", "quasis"]
  | .tsInterfaceDeclaration => ["span", "id", "declare", "typeParams", "extends", "body"]
  | .tsInterfaceBody => ["span", "body"]
  | .tsExpressionWithTypeArguments => ["span", "expression", "typeArguments"]
  | .tsTypeAliasDeclaration => ["span", "declare", "id", "typeParams", "typeAnnotation"]
  | .tsEnumDeclaration => ["span", "declare", "isConst", "id", "members"]
  | .tsEnumMember => ["span", "id", "init"]
  | .tsModuleDeclaration => ["span", "declare", "global", "namespace", "id", "body"]
  | .tsModuleBlock => ["span", "body"]
  | .tsNamespaceDeclaration => ["span", "declare", "global", "id", "body"]
  | .tsImportEqualsDeclaration => ["span", "isExport", "isTypeOnly", "id", "moduleRef"]
  | .tsExternalModuleReference => ["span", "expression"]
  | .tsExportAssignment => ["span", "expression"]
  | .tsNamespaceExportDeclaration => ["span", "id"]
  | .tsAsExpression => ["span", "expression", "typeAnnotation"]
  | .tsTypeAssertion => ["span", "expression", "typeAnnotation"]
  | .tsNonNullExpression => ["span", "expression"]
  | .tsSatisfiesExpression => ["span", "expression", "typeAnnotation"]
  | .tsConstAssertion => ["span", "expression"]
  | .tsInstantiation => ["span", "expression", "typeArguments"]

/-- The kind whose tag and set of field names are those given. -/
def ofShape? (tag : Option String) (names : List String) : Option Kind :=
  all.find? fun k =>
    k.tag = tag && k.fields.length = names.length && k.fields.all names.contains

end Kind
end DeadBranch
