import CSharpFront.Parser.Expressions
/-!
Parsing queries. Their words are contextual: each is a plain identifier anywhere else.
-/

namespace CSharpFront.Parser

/-- A variable and the source it ranges over, after the word `from`. -/
def fromClause (r : Rules) : P FromClause := do
  let start := (← current).start
  advance
  let rest := (← get).rest
  let type? ←
    if Lookahead.kind rest = .identifier ∧ Lookahead.secondKind rest = .keyword .kwIn then
      pure none
    else pure (some (← r.type true))
  let identifier ← identifier
  let _ ← eat (.keyword .kwIn)
  let source ← r.expression
  return ⟨← rangeFrom start, type?, identifier, source⟩

def letClause (r : Rules) : P QueryClause := do
  let start := (← current).start
  advance
  let identifier ← identifier
  let _ ← eat (.punct .equals)
  let value ← r.expression
  return .letClause (← rangeFrom start) identifier value

def whereClause (r : Rules) : P QueryClause := do
  let start := (← current).start
  advance
  let condition ← r.expression
  return .whereClause (← rangeFrom start) condition

/-- A key with the word for its direction; without one it ascends. -/
def sortKey (r : Rules) : P SortKey := do
  let start := (← current).start
  let key ← r.expression
  let isDescending ←
    match (← current).contextual? with
    | some "ascending" => do advance; pure false
    | some "descending" => do advance; pure true
    | _ => pure false
  return ⟨← rangeFrom start, key, isDescending⟩

def orderByClause (r : Rules) : P QueryClause := do
  let start := (← current).start
  advance
  let keys ← separated (sortKey r)
  return .orderByClause (← rangeFrom start) keys

/-- The next clause in the middle of a query, if there is one. -/
def queryClause? (r : Rules) : P (Option QueryClause) := do
  match (← current).contextual? with
  | some "from" => return some (.fromClause (← fromClause r))
  | some "let" => return some (← letClause r)
  | some "where" => return some (← whereClause r)
  | some "orderby" => return some (← orderByClause r)
  | _ => return none

def queryEnding (r : Rules) : P QueryEnding := do
  let t ← current
  match t.contextual? with
  | some "select" =>
    advance
    let value ← r.expression
    return .select (← rangeFrom t.start) value
  | some "group" =>
    advance
    let element ← r.expression
    eatContextual "by"
    let key ← r.expression
    return .group (← rangeFrom t.start) element key
  | _ =>
    report .queryEndingExpected t.span
    return .missing (← get).prevStop

/-- What a query goes on with after the word `into`. -/
def continuation? (r : Rules) : P (Option Continuation) := do
  let t ← current
  if t.isContextual "into" then
    advance
    let identifier ← identifier
    match ← r.continuationBody with
    | some body => return some ⟨← rangeFrom t.start, identifier, body⟩
    | none => return none
  return none

/-- A query after its first clause. -/
def queryBody (r : Rules) : P QueryBody := do
  let start := (← current).start
  let clauses ← many (queryClause? r)
  let ending ← queryEnding r
  let continuation? ← continuation? r
  return ⟨← rangeFrom start, clauses, ending, continuation?⟩

def query (r : Rules) : P Expr := do
  let start := (← current).start
  let source ← fromClause r
  let body ← queryBody r
  return .query (← rangeFrom start) source body

/-- An expression, once its level is entered. -/
def expressionBody (r : Rules) : P Expr := do
  if Lookahead.startsQuery (← get).rest then query r else assignment r

end CSharpFront.Parser
