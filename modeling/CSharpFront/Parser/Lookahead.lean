import CSharpFront.Parser.Starts
import CSharpFront.Syntax.Tree
/-!
Looking ahead over the tokens that are left without taking any. The parser looks ahead where one
token does not tell what begins: a type, a query, the modifiers of a declaration.
-/

namespace CSharpFront.Lookahead

/-- The kind of the first token; past the last one, the end of file. -/
def kind : List Token → TokenKind
  | [] => .endOfFile
  | t :: _ => t.kind

/-- The kind of the second token. -/
def secondKind (ts : List Token) : TokenKind := kind ts.tail

/-- How many tokens of one kind come first. -/
def run (k : TokenKind) (ts : List Token) : Nat := (ts.takeWhile (·.kind = k)).length

/-! ### Modifiers -/

/-- The first token as a modifier. An identifier is one only before what a declaration goes on
with. -/
def modifier? : List Token → Option Modifier
  | [] => none
  | t :: ts =>
    match t.kind with
    | .keyword k => Modifier.ofKeyword? k
    | .identifier =>
      let next := kind ts
      if t.flags.verbatim = false ∧
          (next = .identifier ∨ next.isPredefinedType ∨ next.isModifier ∨
            next.startsTypeDeclaration) then
        Modifier.ofContextual? t.text
      else none
    | _ => none

/-- The modifiers that come first, one for each token. -/
def modifiers : List Token → Modifiers
  | [] => []
  | t :: ts =>
    match modifier? (t :: ts) with
    | some m => m :: modifiers ts
    | none => []

/-- Whether modifiers and then a class or struct come first. -/
def startsTypeDeclaration (ts : List Token) : Bool :=
  (kind (ts.drop (modifiers ts).length)).startsTypeDeclaration

/-! ### Queries -/

/-- Whether a query comes first: `from` and the variable that it names. -/
def startsQuery : List Token → Bool
  | [] => false
  | t :: ts =>
    t.isContextual "from" &&
      ((kind ts).isPredefinedType ||
        (kind ts == .identifier &&
          match secondKind ts with
          | .punct .semicolon | .punct .comma | .punct .equals => false
          | _ => true))

/-! ### Types -/

/-- A type that was found, with the tokens after it. -/
structure TypeScan where
  rest : List Token
  isPredefined : Bool
  endsWithNullable : Bool

/-- Passes over pairs of brackets with commas in them, and says whether there was one. -/
def ranks : Nat → List Token → Bool × List Token
  | 0, ts => (false, ts)
  | n + 1, ts =>
    if kind ts = .punct .openBracket then
      let inner := ts.tail.dropWhile (·.kind = .punct .comma)
      if kind inner = .punct .closeBracket then (true, (ranks n inner.tail).2) else (false, ts)
    else (false, ts)

/-- Passes over an optional `?` and over pairs of brackets after a type. -/
def typeEnding (isPredefined : Bool) (ts : List Token) : TypeScan :=
  let isNullable := kind ts = .punct .question
  let ts := if isNullable then ts.tail else ts
  let (hasRanks, ts) := ranks ts.length ts
  ⟨ts, isPredefined, isNullable && !hasRanks⟩

/-- Passes over type arguments with commas between and `>` after them. -/
def typeArguments (scan : List Token → Option TypeScan) :
    Nat → List Token → Option (List Token)
  | 0, _ => none
  | n + 1, ts =>
    match scan ts with
    | none => none
    | some s =>
      match kind s.rest with
      | .punct .comma => typeArguments scan n s.rest.tail
      | .punct .greaterThan => some s.rest.tail
      | _ => none

/-- Passes over the type arguments of a name whose identifier has been passed, if they are such. -/
def afterName (scan : List Token → Option TypeScan) (ts : List Token) : List Token :=
  if kind ts = .punct .lessThan then
    (typeArguments scan ts.length ts.tail).getD ts
  else ts

/-- Passes over the rest of a dotted name. -/
def dottedRest (scan : List Token → Option TypeScan) : Nat → List Token → List Token
  | 0, ts => ts
  | n + 1, ts =>
    if (kind ts = .punct .dot ∨ kind ts = .punct .colonColon) ∧ secondKind ts = .identifier then
      dottedRest scan n (afterName scan (ts.drop 2))
    else ts

/-- The type that comes first, if one does whose type arguments nest in fewer levels. -/
def type? : (levels : Nat) → List Token → Option TypeScan
  | 0, _ => none
  | n + 1, ts =>
    if (kind ts).isPredefinedType then some (typeEnding true ts.tail)
    else if kind ts = .identifier then
      some (typeEnding false (dottedRest (type? n) ts.length (afterName (type? n) ts.tail)))
    else none

/-- Whether the type arguments of a name come first, from their `<` on. -/
def startsTypeArguments (maxDepth : Nat) (ts : List Token) : Bool :=
  kind ts = .punct .lessThan &&
    (typeArguments (type? (maxDepth + 1)) ts.length ts.tail).isSome

/-- Whether a type and a variable come first. After a type that ends with `?` the declaration must
go on, since otherwise the `?` belongs to an expression. -/
def startsLocalDeclaration (maxDepth : Nat) (inAsync : Bool) (ts : List Token) : Bool :=
  let isName := kind ts == .identifier
  if isName && (startsQuery ts || (inAsync && (ts.head?.map (·.text)) == some "await")) then false
  else if !isName && !(kind ts).isPredefinedType then false
  else
    match type? (maxDepth + 1) ts with
    | none => false
    | some s =>
      kind s.rest == .identifier &&
        (!s.endsWithNullable ||
          match secondKind s.rest with
          | .punct .equals | .punct .semicolon | .punct .comma => true
          | _ => false)

/-- Whether the tokens after a parenthesis that opens make it a cast. -/
def startsCast (maxDepth : Nat) (ts : List Token) : Bool :=
  match type? (maxDepth + 1) ts with
  | none => false
  | some s =>
    kind s.rest == .punct .closeParen && (s.isPredefined || (secondKind s.rest).followsCast)

end CSharpFront.Lookahead
