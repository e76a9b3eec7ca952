import CSharpFront.Syntax.Modifier
import CSharpFront.Syntax.Token
/-!
The syntax tree. Every node knows the stretch of text that it covers. What the parser had to make up
is missing: a missing token, identifier, type, expression or query ending covers nothing and stands
where the previous token ends.
-/

namespace CSharpFront

/-- A token that the tree keeps. -/
@[ext] structure Leaf where
  kind : TokenKind
  range : Range
  isMissing : Bool := false
deriving DecidableEq

namespace Leaf

def missing (kind : TokenKind) (pos : Nat) : Leaf := ⟨kind, .emptyAt pos, true⟩

end Leaf

/-- A name in the tree; a missing one has no text. -/
@[ext] structure Identifier where
  text : String
  range : Range
  isVerbatim : Bool := false
  isMissing : Bool := false
deriving DecidableEq

namespace Identifier

def missing (pos : Nat) : Identifier := ⟨"", .emptyAt pos, false, true⟩

def span (i : Identifier) : Span := i.range.toSpan

end Identifier

/-! ### Types -/

/-- A type as written. An array type holds the number of dimensions of one pair of brackets. -/
inductive TypeSyntax
  | predefined (range : Range) (type : SpecialType)
  | name (identifier : Identifier)
  | qualified (range : Range) (left right : TypeSyntax)
  | generic (range : Range) (identifier : Identifier) (arguments : List TypeSyntax)
  | nullable (range : Range) (element : TypeSyntax)
  | array (range : Range) (element : TypeSyntax) (rank : Nat)
  | missing (pos : Nat)

namespace TypeSyntax

def range : TypeSyntax → Range
  | .predefined r _ => r
  | .name i => i.range
  | .qualified r _ _ => r
  | .generic r _ _ => r
  | .nullable r _ => r
  | .array r _ _ => r
  | .missing p => .emptyAt p

/-- The type that leaves its choice to the initializer. -/
def isVar : TypeSyntax → Bool
  | .name i => i.text == "var"
  | _ => false

mutual

/-- Whether a part of the type had to be made up. -/
def containsMissing : TypeSyntax → Bool
  | .predefined _ _ => false
  | .name i => i.isMissing
  | .qualified _ l r => l.containsMissing || r.containsMissing
  | .generic _ i as => i.isMissing || anyMissing as
  | .nullable _ e => e.containsMissing
  | .array _ e _ => e.containsMissing
  | .missing _ => true

def anyMissing : List TypeSyntax → Bool
  | [] => false
  | t :: ts => t.containsMissing || anyMissing ts

end

/-- The dots and names of a qualified name; other types have no such name. -/
def dotted : TypeSyntax → String
  | .name i => i.text
  | .qualified _ l r => l.dotted ++ "." ++ r.dotted
  | .generic _ i _ => i.text
  | _ => ""

end TypeSyntax

/-! ### Expressions -/

inductive LiteralKind
  | numeric | string | character | trueWord | falseWord | nullWord
deriving DecidableEq

/-- A literal with its spelling. -/
@[ext] structure Literal where
  range : Range
  kind : LiteralKind
  text : String
  flags : TokenFlags
deriving DecidableEq

mutual

inductive Expr
  | identifier (identifier : Identifier)
  | literal (literal : Literal)
  | thisWord (range : Range)
  | predefinedType (range : Range) (type : SpecialType)
  | parenthesized (range : Range) (inner : Expr)
  | binary (range : Range) (left : Expr) (operator : Leaf) (right : Expr)
  | assignment (range : Range) (left : Expr) (operator : Leaf) (right : Expr)
  | conditional (range : Range) (condition whenTrue whenFalse : Expr)
  | prefixUnary (range : Range) (operator : Leaf) (operand : Expr)
  | postfixUnary (range : Range) (operand : Expr) (operator : Leaf)
  | cast (range : Range) (type : TypeSyntax) (operand : Expr)
  | typeTest (range : Range) (operand : Expr) (operator : Leaf) (type : TypeSyntax)
  | memberAccess (range : Range) (receiver : Expr) (operator : Leaf) (name : Identifier)
  | invocation (range : Range) (callee : Expr) (arguments : List Expr)
  | elementAccess (range : Range) (receiver : Expr) (arguments : List Expr)
  | objectCreation (range : Range) (type : TypeSyntax) (arguments? : Option (List Expr))
      (initializer? : Option Initializer)
  | arrayCreation (range : Range) (type : TypeSyntax) (sizes : List Expr)
      (initializer? : Option Initializer)
  | implicitArrayCreation (range : Range) (initializer : Initializer)
  | initializer (initializer : Initializer)
  | await (range : Range) (operand : Expr)
  | query (range : Range) (source : FromClause) (body : QueryBody)
  | missing (pos : Nat)

/-- The braces of an array, a collection or an object. -/
structure Initializer where
  range : Range
  elements : List Expr

/-- The clause that begins a query or adds a source to it. -/
structure FromClause where
  range : Range
  type? : Option TypeSyntax
  identifier : Identifier
  source : Expr

/-- A key by which a query sorts. -/
structure SortKey where
  range : Range
  key : Expr
  isDescending : Bool

inductive QueryClause
  | fromClause (clause : FromClause)
  | letClause (range : Range) (identifier : Identifier) (value : Expr)
  | whereClause (range : Range) (condition : Expr)
  | orderByClause (range : Range) (orderings : List SortKey)

/-- The clause that says what a query yields. -/
inductive QueryEnding
  | select (range : Range) (value : Expr)
  | group (range : Range) (element key : Expr)
  | missing (pos : Nat)

structure QueryBody where
  range : Range
  clauses : List QueryClause
  ending : QueryEnding
  continuation? : Option Continuation

/-- The part of a query that goes on with what its ending yields. -/
structure Continuation where
  range : Range
  identifier : Identifier
  body : QueryBody

end

namespace QueryEnding

def range : QueryEnding → Range
  | .select r _ => r
  | .group r _ _ => r
  | .missing p => .emptyAt p

end QueryEnding

namespace Expr

def range : Expr → Range
  | .identifier i => i.range
  | .literal l => l.range
  | .thisWord r => r
  | .predefinedType r _ => r
  | .parenthesized r _ => r
  | .binary r _ _ _ => r
  | .assignment r _ _ _ => r
  | .conditional r _ _ _ => r
  | .prefixUnary r _ _ => r
  | .postfixUnary r _ _ => r
  | .cast r _ _ => r
  | .typeTest r _ _ _ => r
  | .memberAccess r _ _ _ => r
  | .invocation r _ _ => r
  | .elementAccess r _ _ => r
  | .objectCreation r _ _ _ => r
  | .arrayCreation r _ _ _ => r
  | .implicitArrayCreation r _ => r
  | .initializer i => i.range
  | .await r _ => r
  | .query r _ _ => r
  | .missing p => .emptyAt p

def span (e : Expr) : Span := e.range.toSpan

def isMissing : Expr → Bool
  | .missing _ => true
  | _ => false

/-- Whether an operator changes its operand by one. -/
def isStep (operator : Leaf) : Bool :=
  operator.kind == .punct .plusPlus || operator.kind == .punct .minusMinus

/-- Whether the expression can stand as a statement. -/
def isStatementExpression : Expr → Bool
  | .assignment .. | .invocation .. | .objectCreation .. | .await .. => true
  | .prefixUnary _ o _ => isStep o
  | .postfixUnary _ _ o => isStep o
  | _ => false

end Expr

mutual

/-- Whether an expression, a name or a type in the expression had to be made up. -/
def Expr.containsMissing : Expr → Bool
  | .missing _ => true
  | .identifier i => i.isMissing
  | .literal _ | .thisWord _ | .predefinedType _ _ => false
  | .parenthesized _ e => e.containsMissing
  | .binary _ l _ r => l.containsMissing || r.containsMissing
  | .assignment _ l _ r => l.containsMissing || r.containsMissing
  | .conditional _ c t f => c.containsMissing || t.containsMissing || f.containsMissing
  | .prefixUnary _ _ e => e.containsMissing
  | .postfixUnary _ e _ => e.containsMissing
  | .cast _ t e => t.containsMissing || e.containsMissing
  | .typeTest _ e _ t => e.containsMissing || t.containsMissing
  | .memberAccess _ e _ n => e.containsMissing || n.isMissing
  | .invocation _ e as => e.containsMissing || Expr.anyMissing as
  | .elementAccess _ e as => e.containsMissing || Expr.anyMissing as
  | .objectCreation _ t as i =>
    t.containsMissing || (match as with | none => false | some as => Expr.anyMissing as) ||
      (match i with | none => false | some i => i.containsMissing)
  | .arrayCreation _ t ss i =>
    t.containsMissing || Expr.anyMissing ss ||
      (match i with | none => false | some i => i.containsMissing)
  | .implicitArrayCreation _ i => i.containsMissing
  | .initializer i => i.containsMissing
  | .await _ e => e.containsMissing
  | .query _ s b => s.containsMissing || b.containsMissing

def Expr.anyMissing : List Expr → Bool
  | [] => false
  | e :: es => e.containsMissing || Expr.anyMissing es

def Initializer.containsMissing : Initializer → Bool
  | ⟨_, es⟩ => Expr.anyMissing es

def FromClause.containsMissing : FromClause → Bool
  | ⟨_, t, i, e⟩ =>
    (match t with | none => false | some t => t.containsMissing) || i.isMissing ||
      e.containsMissing

def SortKey.containsMissing : SortKey → Bool
  | ⟨_, e, _⟩ => e.containsMissing

def SortKey.anyMissing : List SortKey → Bool
  | [] => false
  | o :: os => o.containsMissing || SortKey.anyMissing os

def QueryClause.containsMissing : QueryClause → Bool
  | .fromClause c => c.containsMissing
  | .letClause _ i e => i.isMissing || e.containsMissing
  | .whereClause _ e => e.containsMissing
  | .orderByClause _ os => SortKey.anyMissing os

def QueryClause.anyMissing : List QueryClause → Bool
  | [] => false
  | c :: cs => c.containsMissing || QueryClause.anyMissing cs

def QueryEnding.containsMissing : QueryEnding → Bool
  | .select _ e => e.containsMissing
  | .group _ e k => e.containsMissing || k.containsMissing
  | .missing _ => true

def QueryBody.containsMissing : QueryBody → Bool
  | ⟨_, cs, e, k⟩ =>
    QueryClause.anyMissing cs || e.containsMissing ||
      (match k with | none => false | some k => k.containsMissing)

def Continuation.containsMissing : Continuation → Bool
  | ⟨_, i, b⟩ => i.isMissing || b.containsMissing

end

/-! ### Statements -/

/-- A variable with its initializer. -/
structure Declarator where
  range : Range
  identifier : Identifier
  initializer? : Option Expr

structure VariableDeclaration where
  range : Range
  type : TypeSyntax
  declarators : List Declarator

/-- What a `for` does before its first round. -/
inductive ForInitializer
  | declaration (declaration : VariableDeclaration)
  | expressions (expressions : List Expr)

/-- All of a `for` but its body. -/
structure ForHeader where
  forWord : Leaf
  openParen : Leaf
  initializer? : Option ForInitializer
  firstSemicolon : Leaf
  condition? : Option Expr
  secondSemicolon : Leaf
  incrementors : List Expr
  closeParen : Leaf

mutual

inductive Stmt
  | block (block : Block)
  | empty (range : Range)
  | localDeclaration (range : Range) (modifiers : Modifiers) (declaration : VariableDeclaration)
      (semicolon : Leaf)
  | expression (range : Range) (expression : Expr) (semicolon : Leaf)
  | ifElse (range : Range) (condition : Expr) (whenTrue : Stmt) (whenFalse? : Option Stmt)
  | whileLoop (range : Range) (condition : Expr) (body : Stmt)
  | doLoop (range : Range) (body : Stmt) (condition : Expr)
  | forLoop (range : Range) (header : ForHeader) (body : Stmt)
  | returnValue (range : Range) (value? : Option Expr)
  | breakLoop (range : Range)
  | continueLoop (range : Range)
  | goto (range : Range) (label : Identifier)
  | labeled (range : Range) (label : Identifier) (body : Stmt)

structure Block where
  range : Range
  openBrace : Leaf
  statements : List Stmt
  closeBrace : Leaf

end

namespace Stmt

def range : Stmt → Range
  | .block b => b.range
  | .empty r => r
  | .localDeclaration r _ _ _ => r
  | .expression r _ _ => r
  | .ifElse r _ _ _ => r
  | .whileLoop r _ _ => r
  | .doLoop r _ _ => r
  | .forLoop r _ _ => r
  | .returnValue r _ => r
  | .breakLoop r => r
  | .continueLoop r => r
  | .goto r _ => r
  | .labeled r _ _ => r

def span (s : Stmt) : Span := s.range.toSpan

end Stmt

/-! ### Declarations -/

structure UsingDirective where
  range : Range
  isStatic : Bool
  alias? : Option Identifier
  name : TypeSyntax

structure Parameter where
  range : Range
  modifier? : Option Leaf
  type : TypeSyntax
  identifier : Identifier

structure Field where
  range : Range
  modifiers : Modifiers
  declaration : VariableDeclaration

/-- A method, or a constructor, which has no return type. -/
structure Method where
  range : Range
  modifiers : Modifiers
  returnType? : Option TypeSyntax
  identifier : Identifier
  parameters : List Parameter
  body? : Option Block

/-- An operator that converts to a type, implicitly or only by a cast. -/
structure ConversionOperator where
  range : Range
  modifiers : Modifiers
  kind : Leaf
  type : TypeSyntax
  parameters : List Parameter
  body? : Option Block

namespace ConversionOperator

def isImplicit (o : ConversionOperator) : Bool := o.kind.kind == .keyword .kwImplicit

end ConversionOperator

mutual

/-- A class or a struct. -/
structure TypeDeclaration where
  range : Range
  isStruct : Bool
  modifiers : Modifiers
  identifier : Identifier
  members : List ClassMember

inductive ClassMember
  | field (field : Field)
  | method (method : Method)
  | conversion (operator : ConversionOperator)
  | nestedType (declaration : TypeDeclaration)
  | incomplete (range : Range)

end

namespace ClassMember

def range : ClassMember → Range
  | .field f => f.range
  | .method m => m.range
  | .conversion o => o.range
  | .nestedType d => d.range
  | .incomplete r => r

end ClassMember

mutual

/-- A member of a unit or of a namespace. -/
inductive Member
  | namespaceMember (declaration : NamespaceDeclaration)
  | typeMember (declaration : TypeDeclaration)
  | globalStatement (statement : Stmt)
  | incomplete (range : Range)

structure NamespaceDeclaration where
  range : Range
  name : TypeSyntax
  usings : List UsingDirective
  members : List Member

end

namespace Member

def range : Member → Range
  | .namespaceMember n => n.range
  | .typeMember d => d.range
  | .globalStatement s => s.range
  | .incomplete r => r

end Member

/-- The tree of a whole text. -/
structure CompilationUnit where
  range : Range
  usings : List UsingDirective
  members : List Member
  endOfFile : Leaf

end CSharpFront
