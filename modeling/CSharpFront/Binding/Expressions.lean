import CSharpFront.Binding.Operator
import CSharpFront.Binding.State
/-!
Binding expressions. An expression is bound to what it names. Whatever cannot be typed is of the
error type, about which nobody complains again. No expression changes what the context declares:
the range variables of a query are seen in the query alone.
-/

namespace CSharpFront

namespace Literal

def type (l : Literal) : Ty :=
  match l.kind with
  | .numeric => .special (numericType l.text l.flags)
  | .string => .string
  | .character => .char
  | .trueWord | .falseWord => .bool
  | .nullWord => .null

end Literal

namespace Expr

def isInitializer : Expr → Bool
  | .initializer _ => true
  | _ => false

end Expr

namespace Binding

/-- The type of a member that is reached by an operator: past `?.` null is added to it. -/
def reach (operator : Leaf) (t : Ty) : Ty :=
  if operator.kind = .punct .questionDot then t.toNullable else t

/-- The type that braces in an array fill: for braces within, an array of one dimension less, if
there are dimensions left. -/
def elementTarget (e : Expr) (element : Ty) (rank : Nat) : Ty :=
  if e.isInitializer && 1 < rank then .array element (rank - 1) else element

/-- The type that an assignment in an object's braces gives a value to, if it is known. -/
def assignedField? (c : Context) (owner : Ty) : Expr → Option Ty
  | .identifier i => c.members.field? owner i.text
  | _ => none

/-- The type of a range variable: as written, or what its source yields. -/
def rangeType (c : Context) (type? : Option TypeSyntax) (source : Ty) : BindM Ty :=
  match type? with
  | some type => c.resolve type
  | none => return source.element?.getD .error

mutual

/-- What an expression names. Braces that stand alone take their meaning from the type that is
expected of them. -/
def expression (c : Context) (expected? : Option Ty) : Expr → BindM Denotation
  | .identifier i => return c.denote i
  | .literal l => return .value l.type
  | .thisWord _ => return .value (c.owner?.getD .error)
  | .predefinedType _ s => return .type (.special s)
  | .parenthesized _ e => return .value (← expression c none e).valueType
  | .binary _ left o right => do
    let s := (← expression c none left).valueType
    let t := (← expression c none right).valueType
    return .value (← list (.ofBinary o.kind s t))
  | .assignment _ left o right => do
    let s := (← expression c none left).valueType
    let t := (← expression c none right).valueType
    if o.kind = .punct .equals then c.assign right t s
    return .value s
  | .conditional _ condition whenTrue whenFalse => do
    c.require condition (← expression c none condition).valueType
    let s := (← expression c none whenTrue).valueType
    let t := (← expression c none whenFalse).valueType
    return .value (.choice c.conversions s t)
  | .prefixUnary _ o e => do
    let t := (← expression c none e).valueType
    return .value (← list (.ofUnary o.kind t))
  | .postfixUnary _ e _ => return .value (← expression c none e).valueType
  | .cast r type e => do
    let target ← c.resolve type
    let source := (← expression c none e).valueType
    c.requireCast r.toSpan source target
    return .value target
  | .typeTest _ e o type => do
    let _ ← expression c none e
    let t ← c.resolve type
    return .value (if o.kind = .keyword .kwIs then .bool else t)
  | .memberAccess _ e o name => do
    match ← expression c none e with
    | .unknown => return .unknown
    | d => return .value (← list (reach o (d.member c.members name.text false)))
  | .invocation _ callee arguments => do
    let t ←
      match callee with
      | .memberAccess _ e o name => do
        let d ← expression c none e
        list (reach o (d.member c.members name.text true))
      | .identifier i => pure ((c.ownMethod? i.text).getD .error)
      | e => do
        let _ ← expression c none e
        pure .error
    let _ ← expressions c arguments
    return .value t
  | .elementAccess _ e arguments => do
    let t := (← expression c none e).valueType
    let _ ← expressions c arguments
    return .value t.indexed
  | .objectCreation _ type arguments? initializer? => do
    let t ← c.resolve type
    match arguments? with
    | none => pure ()
    | some arguments => let _ ← expressions c arguments
    match initializer? with
    | none => pure ()
    | some ⟨_, es⟩ => properties c t es
    return .value t
  | .arrayCreation _ type sizes initializer? => do
    let t ← c.resolve type
    let _ ← expressions c sizes
    match initializer? with
    | none => pure ()
    | some ⟨_, es⟩ =>
      match t with
      | .array element rank => elements c element rank es
      | _ => pure ()
    return .value t
  | .implicitArrayCreation _ ⟨_, es⟩ => do
    let ts ← expressions c es
    match Ty.best? c.conversions ts with
    | some t => return .value (← list (t.toArray 1))
    | none => return .value .error
  | .initializer ⟨_, es⟩ => do
    match expected? with
    | some (.array element rank) => elements c element rank es
    | _ => let _ ← expressions c es
    return .value .error
  | .await _ e => do
    let _ ← expression c none e
    return .value .error
  | .query _ ⟨_, type?, i, e⟩ body => do
    let source := (← expression c none e).valueType
    let t ← rangeType c type? source
    return .value (← queryBody (c.push.shadow i t) body)
  | .missing _ => return .unknown

def expressions (c : Context) : List Expr → BindM (List Ty)
  | [] => return []
  | e :: es => do
    let t := (← expression c none e).valueType
    return t :: (← expressions c es)

/-- The elements of an array of a type with a number of dimensions. -/
def elements (c : Context) (element : Ty) (rank : Nat) : List Expr → BindM Unit
  | [] => pure ()
  | e :: es => do
    let target := elementTarget e element rank
    let t := (← expression c (some target) e).valueType
    unless e.isInitializer do c.assign e t target
    elements c element rank es

/-- What braces after a new object hold: assignments to its members, and other expressions. -/
def properties (c : Context) (owner : Ty) : List Expr → BindM Unit
  | [] => pure ()
  | e :: es => do
    match e with
    | .assignment _ left _ right => do
      let t := (← expression c none right).valueType
      match assignedField? c owner left with
      | some target => c.assign right t target
      | none => pure ()
    | e => let _ ← expression c none e
    properties c owner es

/-- The context after the clauses of a query, with the variables that they declare. -/
def clauses (c : Context) : List QueryClause → BindM Context
  | [] => return c
  | q :: qs => do
    let c ←
      match q with
      | .fromClause ⟨_, type?, i, e⟩ => do
        let source := (← expression c none e).valueType
        pure (c.shadow i (← rangeType c type? source))
      | .letClause _ i e => do
        pure (c.shadow i (← expression c none e).valueType)
      | .whereClause _ e => do
        c.require e (← expression c none e).valueType
        pure c
      | .orderByClause _ keys => do
        sortKeys c keys
        pure c
    clauses c qs

def sortKeys (c : Context) : List SortKey → BindM Unit
  | [] => pure ()
  | ⟨_, e, _⟩ :: keys => do
    let _ ← expression c none e
    sortKeys c keys

/-- The type of each thing that a query yields. -/
def ending (c : Context) : QueryEnding → BindM Ty
  | .select _ e => return (← expression c none e).valueType
  | .group _ e k => do
    let element := (← expression c none e).valueType
    let key := (← expression c none k).valueType
    if element.isError || key.isError then return .error
    list (.grouping key element)
  | .missing _ => return .error

/-- The type of a query's results, inside its scope. -/
def queryBody (c : Context) : QueryBody → BindM Ty
  | ⟨_, qs, e, continuation?⟩ => do
    let c ← clauses c qs
    let t ← ending c e
    if t.isError || t = .void then return .error
    match continuation? with
    | none => list (.sequence t)
    | some ⟨_, i, body⟩ => queryBody (c.push.shadow i t) body

end

/-- Binds the value of a variable or a field of a type. -/
def initialValue (c : Context) (target : Ty) (e : Expr) : BindM Unit := do
  let t := (← expression c (some target) e).valueType
  unless e.isInitializer do c.assign e t target

/-- Binds an expression as a condition. -/
def condition (c : Context) (e : Expr) : BindM Unit := do
  c.require e (← expression c none e).valueType

end Binding

end CSharpFront
