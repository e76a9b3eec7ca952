import CSharpFront.Parser.Rules
/-!
Parsing types and names.
-/

namespace CSharpFront.Parser

/-- Pairs of brackets after a type, each of which makes an array of the type so far. -/
def rankSpecifiers (start : Nat) (type : TypeSyntax) : P TypeSyntax :=
  loop type fun type => do
    let rest := (← get).rest
    let second := Lookahead.secondKind rest
    if Lookahead.kind rest = .punct .openBracket ∧
        (second = .punct .closeBracket ∨ second = .punct .comma) then
      advance
      let commas := Lookahead.run (.punct .comma) (← get).rest
      advanceBy commas
      let _ ← eat (.punct .closeBracket)
      return .yield (.array (← rangeFrom start) type (commas + 1))
    else return .done type

/-- A name without dots, with its type arguments. -/
def simpleName (r : Rules) : P TypeSyntax := do
  let start := (← current).start
  let identifier ← identifier
  if Lookahead.startsTypeArguments (← read).maxDepth (← get).rest then
    advance
    let arguments ← separated (r.type true)
    let _ ← eat (.punct .greaterThan)
    return .generic (← rangeFrom start) identifier arguments
  return .name identifier

/-- A name, with its parts grouped to the left. -/
def name (r : Rules) : P TypeSyntax := do
  let start := (← current).start
  let first ← simpleName r
  loop first fun left => do
    let rest := (← get).rest
    let kind := Lookahead.kind rest
    if (kind = .punct .dot ∨ kind = .punct .colonColon) ∧
        Lookahead.secondKind rest = .identifier then
      advance
      let right ← simpleName r
      return .yield (.qualified (← rangeFrom start) left right)
    else return .done left

/-- A predefined type or a name, if one comes next. -/
def typeCore? (r : Rules) : P (Option TypeSyntax) := do
  let t ← current
  match t.kind.special? with
  | some s =>
    advance
    return some (.predefined t.range s)
  | none => if t.kind = .identifier then return some (← name r) else return none

/-- A type, once its level is entered. -/
def typeBody (withRanks : Bool) (r : Rules) : P TypeSyntax := do
  let start := (← current).start
  match ← typeCore? r with
  | none =>
    report .typeExpected (← expectedSpan)
    missingType
  | some core =>
    let type ←
      if ← accept (.punct .question) then
        pure (TypeSyntax.nullable (← rangeFrom start) core)
      else pure core
    if withRanks then rankSpecifiers start type else return type

end CSharpFront.Parser
