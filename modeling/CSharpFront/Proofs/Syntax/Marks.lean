import CSharpFront.Syntax.Tree
/-!
The casts and labels of a tree in the order of the text. Both begin with a token of their own. Some
parts of a tree are not always looked at by later stages; a reach says into which of them to go.
-/

namespace CSharpFront

/-- A cast, with the type that it names and what it converts. -/
structure Cast where
  range : Range
  type : TypeSyntax
  operand : Expr

/-- Something that begins with a token of its own. -/
inductive Mark
  | cast (cast : Cast)
  | label (name : Identifier)

namespace Mark

def start : Mark → Nat
  | .cast k => k.range.start
  | .label l => l.range.start

def cast? : Mark → Option Cast
  | .cast k => some k
  | .label _ => none

def label? : Mark → Option Identifier
  | .cast _ => none
  | .label l => some l

end Mark

/-- Which parts of a tree one goes into that are not always looked at. -/
structure Reach where
  /-- The braces of a new array that is said to be of a type. -/
  braces : TypeSyntax → Bool
  /-- What follows the name of what a query yields. -/
  continuation : Bool
  /-- The left side of an assignment in the braces of a new object. -/
  property : Bool
  /-- Types without a name. -/
  nameless : Bool

namespace Reach

/-- All of a tree. -/
def everywhere : Reach := ⟨fun _ => true, true, true, true⟩

@[simp] theorem braces_everywhere (type : TypeSyntax) : everywhere.braces type = true := rfl

@[simp] theorem continuation_everywhere : everywhere.continuation = true := rfl

@[simp] theorem nameless_everywhere : everywhere.nameless = true := rfl

end Reach

/-! ### Expressions -/

mutual

def Expr.casts (r : Reach) : Expr → List Cast
  | .cast range type e => ⟨range, type, e⟩ :: e.casts r
  | .parenthesized _ e | .prefixUnary _ _ e | .postfixUnary _ e _ | .await _ e => e.casts r
  | .typeTest _ e _ _ | .memberAccess _ e _ _ => e.casts r
  | .binary _ left _ right | .assignment _ left _ right => left.casts r ++ right.casts r
  | .conditional _ e t f => e.casts r ++ (t.casts r ++ f.casts r)
  | .invocation _ e arguments | .elementAccess _ e arguments =>
    e.casts r ++ Expr.allCasts r arguments
  | .objectCreation _ _ arguments? initializer? =>
    (match arguments? with | none => [] | some arguments => Expr.allCasts r arguments) ++
      (match initializer? with | none => [] | some ⟨_, es⟩ => Expr.propertyCasts r es)
  | .arrayCreation _ type sizes initializer? =>
    Expr.allCasts r sizes ++
      (match initializer? with
        | none => []
        | some ⟨_, es⟩ => if r.braces type then Expr.allCasts r es else [])
  | .implicitArrayCreation _ ⟨_, es⟩ | .initializer ⟨_, es⟩ => Expr.allCasts r es
  | .query _ ⟨_, _, _, e⟩ body => e.casts r ++ body.casts r
  | .identifier _ | .literal _ | .thisWord _ | .predefinedType _ _ | .missing _ => []

def Expr.allCasts (r : Reach) : List Expr → List Cast
  | [] => []
  | e :: es => e.casts r ++ Expr.allCasts r es

/-- The casts in the braces of a new object. -/
def Expr.propertyCasts (r : Reach) : List Expr → List Cast
  | [] => []
  | .assignment _ left _ right :: es =>
    (if r.property then left.casts r else []) ++ (right.casts r ++ Expr.propertyCasts r es)
  | e :: es => e.casts r ++ Expr.propertyCasts r es

def QueryClause.allCasts (r : Reach) : List QueryClause → List Cast
  | [] => []
  | .fromClause ⟨_, _, _, e⟩ :: qs | .letClause _ _ e :: qs | .whereClause _ e :: qs =>
    e.casts r ++ QueryClause.allCasts r qs
  | .orderByClause _ keys :: qs => SortKey.allCasts r keys ++ QueryClause.allCasts r qs

def SortKey.allCasts (r : Reach) : List SortKey → List Cast
  | [] => []
  | ⟨_, e, _⟩ :: keys => e.casts r ++ SortKey.allCasts r keys

def QueryEnding.casts (r : Reach) : QueryEnding → List Cast
  | .select _ e => e.casts r
  | .group _ e k => e.casts r ++ k.casts r
  | .missing _ => []

def QueryBody.casts (r : Reach) : QueryBody → List Cast
  | ⟨_, qs, e, continuation?⟩ =>
    QueryClause.allCasts r qs ++
      (e.casts r ++
        match continuation? with
        | none => []
        | some ⟨_, _, body⟩ => if r.continuation then body.casts r else [])

end

def Expr.casts? (r : Reach) : Option Expr → List Cast
  | none => []
  | some e => e.casts r

theorem Expr.propertyCasts_everywhere : (es : List Expr) →
    Expr.propertyCasts .everywhere es = Expr.allCasts .everywhere es
  | [] => rfl
  | e :: es => by
    have hrest := Expr.propertyCasts_everywhere es
    rw [allCasts, ← hrest]
    cases e with
    | assignment => exact (List.append_assoc ..).symm
    | _ => rfl

/-! ### Statements -/

def Declarator.allCasts (r : Reach) (ds : List Declarator) : List Cast :=
  ds.flatMap fun d => Expr.casts? r d.initializer?

def ForInitializer.casts? (r : Reach) : Option ForInitializer → List Cast
  | none => []
  | some (.declaration d) => Declarator.allCasts r d.declarators
  | some (.expressions es) => Expr.allCasts r es

def ForHeader.casts (r : Reach) (h : ForHeader) : List Cast :=
  ForInitializer.casts? r h.initializer? ++
    (Expr.casts? r h.condition? ++ Expr.allCasts r h.incrementors)

mutual

/-- The casts and labels of a statement. A label without a name is none. -/
def Stmt.marks (r : Reach) : Stmt → List Mark
  | .block ⟨_, _, ss, _⟩ => Stmt.allMarks r ss
  | .localDeclaration _ _ d _ => (Declarator.allCasts r d.declarators).map .cast
  | .expression _ e _ => (e.casts r).map .cast
  | .ifElse _ e s s? =>
    (e.casts r).map .cast ++ (s.marks r ++ match s? with | none => [] | some s => s.marks r)
  | .whileLoop _ e s => (e.casts r).map .cast ++ s.marks r
  | .doLoop _ s e => s.marks r ++ (e.casts r).map .cast
  | .forLoop _ h s => (h.casts r).map .cast ++ s.marks r
  | .returnValue _ e? => (Expr.casts? r e?).map .cast
  | .labeled _ l s => (if l.isMissing then [] else [.label l]) ++ s.marks r
  | .empty _ | .breakLoop _ | .continueLoop _ | .goto _ _ => []

def Stmt.allMarks (r : Reach) : List Stmt → List Mark
  | [] => []
  | s :: ss => s.marks r ++ Stmt.allMarks r ss

end

/-! ### Declarations -/

def Block.marks? (r : Reach) : Option Block → List Mark
  | none => []
  | some b => Stmt.allMarks r b.statements

mutual

def TypeDeclaration.marks (r : Reach) : TypeDeclaration → List Mark
  | ⟨_, _, _, i, members⟩ =>
    if i.isMissing && !r.nameless then [] else ClassMember.allMarks r members

def ClassMember.marks (r : Reach) : ClassMember → List Mark
  | .field f => (Declarator.allCasts r f.declaration.declarators).map .cast
  | .method m => Block.marks? r m.body?
  | .conversion o => Block.marks? r o.body?
  | .nestedType d => d.marks r
  | .incomplete _ => []

def ClassMember.allMarks (r : Reach) : List ClassMember → List Mark
  | [] => []
  | m :: ms => m.marks r ++ ClassMember.allMarks r ms

end

mutual

def Member.marks (r : Reach) : Member → List Mark
  | .namespaceMember n => n.marks r
  | .typeMember d => d.marks r
  | .globalStatement s => s.marks r
  | .incomplete _ => []

def Member.allMarks (r : Reach) : List Member → List Mark
  | [] => []
  | m :: ms => m.marks r ++ Member.allMarks r ms

def NamespaceDeclaration.marks (r : Reach) : NamespaceDeclaration → List Mark
  | ⟨_, _, _, members⟩ => Member.allMarks r members

end

def CompilationUnit.marks (r : Reach) (u : CompilationUnit) : List Mark :=
  Member.allMarks r u.members

end CSharpFront
