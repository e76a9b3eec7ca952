import CSharpFront.Syntax.Tree
/-!
A tree in one uniform shape: every node and every token that the tree keeps is an outline, with the
part it plays in its parent, its kind, its place, and its children in the order of the text. The
flat listing of a tree is its outline in preorder, each row with its depth.
-/

namespace CSharpFront

/-- A node or a token as a row of a listing. -/
structure OutlineRow where
  role : String
  kind : SyntaxKind
  range : Range
  isMissing : Bool := false
  isVerbatim : Bool := false
  attributes : List String := []
deriving DecidableEq

namespace OutlineRow

/-- The flags of a row as one number. -/
def bits (r : OutlineRow) : Nat := r.isMissing.toNat + 2 * r.isVerbatim.toNat

end OutlineRow

/-- A row with the outlines of its children. -/
inductive Outline
  | mk (row : OutlineRow) (children : List Outline)

namespace Outline

def row : Outline → OutlineRow
  | .mk r _ => r

def children : Outline → List Outline
  | .mk _ cs => cs

mutual

/-- The rows in preorder, each with its depth. -/
def rows (depth : Nat) : Outline → List (Nat × OutlineRow)
  | .mk r cs => (depth, r) :: rowsAll (depth + 1) cs

def rowsAll (depth : Nat) : List Outline → List (Nat × OutlineRow)
  | [] => []
  | o :: os => o.rows depth ++ rowsAll depth os

end

/-- A node with its children. -/
def node (role : String) (kind : NodeKind) (range : Range) (attributes : List String)
    (children : List Outline) : Outline :=
  .mk { role, kind := .node kind, range, attributes } children

/-- What the parser had to make up in the place of a node. -/
def missing (role : String) (expected : NodeKind) (pos : Nat) : Outline :=
  .mk { role, kind := .node expected, range := .emptyAt pos, isMissing := true
        attributes := ["expected" ++ expected.name] } []

end Outline

/-! ### Tokens and names -/

/-- A token is shown with its spelling; one that has no spelling of its own, with a dash. -/
def Leaf.outline (role : String) (l : Leaf) : Outline :=
  .mk { role, kind := .token l.kind, range := l.range, isMissing := l.isMissing
        attributes := [match l.kind.text? with | some t => "=" ++ t | none => "-"] } []

def Identifier.outline (role : String) (i : Identifier) : Outline :=
  .mk { role, kind := .node .identifierName, range := i.range, isMissing := i.isMissing
        isVerbatim := i.isVerbatim, attributes := [i.text] } []

/-! ### Types -/

mutual

def TypeSyntax.outline (role : String) : TypeSyntax → Outline
  | .predefined r t => .node role .predefinedType r [t.text] []
  | .name i =>
    .mk { role, kind := .node .identifierName, range := i.range, isMissing := i.isMissing
          isVerbatim := i.isVerbatim
          attributes := i.text :: if i.text == "var" then ["var"] else [] } []
  | .qualified r a b => .node role .qualifiedName r [] [a.outline "left", b.outline "right"]
  | .generic r i as =>
    .node role .genericName r [] (i.outline "identifier" :: TypeSyntax.outlines "argument" as)
  | .nullable r e => .node role .nullableType r [] [e.outline "element"]
  | .array r e n => .node role .arrayType r [s!"rank{n}"] [e.outline "element"]
  | .missing p => .missing role .identifierName p

def TypeSyntax.outlines (role : String) : List TypeSyntax → List Outline
  | [] => []
  | t :: ts => t.outline role :: TypeSyntax.outlines role ts

end

/-! ### Expressions -/

namespace LiteralKind

def nodeKind : LiteralKind → NodeKind
  | .numeric => .numericLiteralExpression
  | .string => .stringLiteralExpression
  | .character => .characterLiteralExpression
  | .trueWord => .trueLiteralExpression
  | .falseWord => .falseLiteralExpression
  | .nullWord => .nullLiteralExpression

end LiteralKind

/-- A test for a type is of one kind or the other by its operator. -/
def typeTestKind (operator : Leaf) : NodeKind :=
  if operator.kind = .keyword .kwIs then .isExpression else .asExpression

mutual

def Expr.outline (role : String) : Expr → Outline
  | .identifier i => i.outline role
  | .literal l => .node role l.kind.nodeKind l.range [l.text, toString l.flags.bits] []
  | .thisWord r => .node role .thisExpression r [] []
  | .predefinedType r t => .node role .predefinedType r [t.text] []
  | .parenthesized r e => .node role .parenthesizedExpression r [] [e.outline "expression"]
  | .binary r a o b =>
    .node role .binaryExpression r []
      [a.outline "left", o.outline "operator", b.outline "right"]
  | .assignment r a o b =>
    .node role .assignmentExpression r []
      [a.outline "left", o.outline "operator", b.outline "right"]
  | .conditional r c t f =>
    .node role .conditionalExpression r []
      [c.outline "condition", t.outline "whenTrue", f.outline "whenFalse"]
  | .prefixUnary r o e =>
    .node role .prefixUnaryExpression r [] [o.outline "operator", e.outline "operand"]
  | .postfixUnary r e o =>
    .node role .postfixUnaryExpression r [] [e.outline "operand", o.outline "operator"]
  | .cast r t e => .node role .castExpression r [] [t.outline "type", e.outline "expression"]
  | .typeTest r e o t =>
    .node role (typeTestKind o) r []
      [e.outline "expression", o.outline "operator", t.outline "type"]
  | .memberAccess r e o n =>
    .node role .memberAccessExpression r []
      [e.outline "expression", o.outline "operator", n.outline "name"]
  | .invocation r e as =>
    .node role .invocationExpression r []
      (e.outline "expression" :: Expr.outlines "argument" as)
  | .elementAccess r e as =>
    .node role .elementAccessExpression r []
      (e.outline "expression" :: Expr.outlines "argument" as)
  | .objectCreation r t as i =>
    .node role .objectCreationExpression r [if as.isSome then "arguments" else "noArguments"]
      (t.outline "type" :: (match as with | none => [] | some as => Expr.outlines "argument" as) ++
        match i with | none => [] | some i => [i.outline "initializer"])
  | .arrayCreation r t ss i =>
    .node role .arrayCreationExpression r []
      (t.outline "type" :: Expr.outlines "size" ss ++
        match i with | none => [] | some i => [i.outline "initializer"])
  | .implicitArrayCreation r i =>
    .node role .implicitArrayCreationExpression r [] [i.outline "initializer"]
  | .initializer i => i.outline role
  | .await r e => .node role .awaitExpression r [] [e.outline "expression"]
  | .query r s b => .node role .queryExpression r [] [s.outline "clause", b.outline "body"]
  | .missing p => .missing role .identifierName p

def Expr.outlines (role : String) : List Expr → List Outline
  | [] => []
  | e :: es => e.outline role :: Expr.outlines role es

def Initializer.outline (role : String) : Initializer → Outline
  | ⟨r, es⟩ => .node role .arrayInitializerExpression r [] (Expr.outlines "element" es)

def FromClause.outline (role : String) : FromClause → Outline
  | ⟨r, t, i, e⟩ =>
    .node role .fromClause r []
      ((t.map (·.outline "type")).toList ++ [i.outline "identifier", e.outline "expression"])

def SortKey.outline (role : String) : SortKey → Outline
  | ⟨r, e, d⟩ =>
    .node role .ordering r [if d then "descending" else "ascending"] [e.outline "expression"]

def SortKey.outlines (role : String) : List SortKey → List Outline
  | [] => []
  | k :: ks => k.outline role :: SortKey.outlines role ks

def QueryClause.outline (role : String) : QueryClause → Outline
  | .fromClause c => c.outline role
  | .letClause r i e =>
    .node role .letClause r [] [i.outline "identifier", e.outline "expression"]
  | .whereClause r e => .node role .whereClause r [] [e.outline "condition"]
  | .orderByClause r ks => .node role .orderByClause r [] (SortKey.outlines "ordering" ks)

def QueryClause.outlines (role : String) : List QueryClause → List Outline
  | [] => []
  | c :: cs => c.outline role :: QueryClause.outlines role cs

def QueryEnding.outline (role : String) : QueryEnding → Outline
  | .select r e => .node role .selectClause r [] [e.outline "expression"]
  | .group r e k => .node role .groupClause r [] [e.outline "group", k.outline "by"]
  | .missing p => .missing role .selectClause p

def QueryBody.outline (role : String) : QueryBody → Outline
  | ⟨r, cs, e, k⟩ =>
    .node role .queryBody r []
      (QueryClause.outlines "clause" cs ++ [e.outline "ending"] ++
        match k with | none => [] | some k => [k.outline "continuation"])

def Continuation.outline (role : String) : Continuation → Outline
  | ⟨r, i, b⟩ =>
    .node role .queryContinuation r [] [i.outline "identifier", b.outline "body"]

end

/-! ### Statements -/

def Declarator.outline (role : String) (d : Declarator) : Outline :=
  .node role .variableDeclarator d.range []
    (d.identifier.outline "identifier" :: (d.initializer?.map (·.outline "initializer")).toList)

def VariableDeclaration.outline (role : String) (d : VariableDeclaration) : Outline :=
  .node role .variableDeclaration d.range []
    (d.type.outline "type" :: d.declarators.map (·.outline "declarator"))

def ForInitializer.outlines (role : String) : ForInitializer → List Outline
  | .declaration d => [d.outline role]
  | .expressions es => Expr.outlines role es

def ForHeader.outlines (h : ForHeader) : List Outline :=
  [h.forWord.outline "for", h.openParen.outline "openParen"] ++
    (match h.initializer? with | none => [] | some i => i.outlines "initializer") ++
    [h.firstSemicolon.outline "firstSemicolon"] ++
    (h.condition?.map (·.outline "condition")).toList ++
    [h.secondSemicolon.outline "secondSemicolon"] ++
    Expr.outlines "incrementor" h.incrementors ++
    [h.closeParen.outline "closeParen"]

mutual

def Stmt.outline (role : String) : Stmt → Outline
  | .block b => b.outline role
  | .empty r => .node role .emptyStatement r [] []
  | .localDeclaration r ms d l =>
    .node role .localDeclarationStatement r [ms.render]
      [d.outline "declaration", l.outline "semicolon"]
  | .expression r e l =>
    .node role .expressionStatement r [] [e.outline "expression", l.outline "semicolon"]
  | .ifElse r c t f =>
    .node role .ifStatement r []
      ([c.outline "condition", t.outline "statement"] ++
        match f with | none => [] | some f => [f.outline "else"])
  | .whileLoop r c b =>
    .node role .whileStatement r [] [c.outline "condition", b.outline "statement"]
  | .doLoop r b c => .node role .doStatement r [] [b.outline "statement", c.outline "condition"]
  | .forLoop r h b => .node role .forStatement r [] (h.outlines ++ [b.outline "statement"])
  | .returnValue r e =>
    .node role .returnStatement r [] (e.map (·.outline "expression")).toList
  | .breakLoop r => .node role .breakStatement r [] []
  | .continueLoop r => .node role .continueStatement r [] []
  | .goto r l => .node role .gotoStatement r [] [l.outline "label"]
  | .labeled r l s =>
    .node role .labeledStatement r [] [l.outline "label", s.outline "statement"]

def Stmt.outlines (role : String) : List Stmt → List Outline
  | [] => []
  | s :: ss => s.outline role :: Stmt.outlines role ss

def Block.outline (role : String) : Block → Outline
  | ⟨r, a, ss, b⟩ =>
    .node role .block r []
      ([a.outline "open"] ++ Stmt.outlines "statement" ss ++ [b.outline "close"])

end

/-! ### Declarations -/

def UsingDirective.outline (role : String) (u : UsingDirective) : Outline :=
  .node role .usingDirective u.range (if u.isStatic then ["static"] else [])
    ((u.alias?.map (·.outline "alias")).toList ++ [u.name.outline "name"])

def Parameter.outline (role : String) (p : Parameter) : Outline :=
  .node role .parameter p.range []
    ((p.modifier?.map (·.outline "modifier")).toList ++
      [p.type.outline "type", p.identifier.outline "identifier"])

def Field.outline (role : String) (f : Field) : Outline :=
  .node role .fieldDeclaration f.range [f.modifiers.render] [f.declaration.outline "declaration"]

def Method.outline (role : String) (m : Method) : Outline :=
  .node role (if m.returnType?.isSome then .methodDeclaration else .constructorDeclaration)
    m.range [m.modifiers.render]
    ((m.returnType?.map (·.outline "returnType")).toList ++
      [m.identifier.outline "identifier"] ++ m.parameters.map (·.outline "parameter") ++
      (m.body?.map (·.outline "body")).toList)

def ConversionOperator.outline (role : String) (o : ConversionOperator) : Outline :=
  .node role .conversionOperatorDeclaration o.range
    [o.modifiers.render, if o.isImplicit then "implicit" else "explicit"]
    ([o.kind.outline "kind", o.type.outline "type"] ++ o.parameters.map (·.outline "parameter") ++
      (o.body?.map (·.outline "body")).toList)

mutual

def TypeDeclaration.outline (role : String) : TypeDeclaration → Outline
  | ⟨r, isStruct, ms, i, cs⟩ =>
    .node role (if isStruct then .structDeclaration else .classDeclaration) r [ms.render]
      (i.outline "identifier" :: ClassMember.outlines "member" cs)

def ClassMember.outline (role : String) : ClassMember → Outline
  | .field f => f.outline role
  | .method m => m.outline role
  | .conversion o => o.outline role
  | .nestedType d => d.outline role
  | .incomplete r => .node role .incompleteMember r [] []

def ClassMember.outlines (role : String) : List ClassMember → List Outline
  | [] => []
  | c :: cs => c.outline role :: ClassMember.outlines role cs

end

mutual

/-- A statement among the members is shown as what it is, under the role `global`. -/
def Member.outline (role : String) : Member → Outline
  | .namespaceMember n => n.outline role
  | .typeMember d => d.outline role
  | .globalStatement s => s.outline "global"
  | .incomplete r => .node role .incompleteMember r [] []

def Member.outlines (role : String) : List Member → List Outline
  | [] => []
  | m :: ms => m.outline role :: Member.outlines role ms

def NamespaceDeclaration.outline (role : String) : NamespaceDeclaration → Outline
  | ⟨r, n, us, ms⟩ =>
    .node role .namespaceDeclaration r []
      (n.outline "name" :: us.map (·.outline "using") ++ Member.outlines "member" ms)

end

def CompilationUnit.outline (role : String) (u : CompilationUnit) : Outline :=
  .node role .compilationUnit u.range []
    (u.usings.map (·.outline "using") ++ Member.outlines "member" u.members ++
      [u.endOfFile.outline "eof"])

end CSharpFront
