import CSharpFront.Parser.Queries
/-!
Parsing statements. After an error the parser goes on where a statement can begin; in the header of
a `for` it also takes a comma for a semicolon, and a semicolon for a comma, and says so.
-/

namespace CSharpFront.Parser

/-! ### Declarations of variables -/

/-- The initializer of a variable whose name has been read. -/
def declarator (r : Rules) (identifier : Identifier) : P Declarator := do
  let initializer? ←
    if ← accept (.punct .equals) then pure (some (← element r)) else pure none
  return ⟨← rangeFrom identifier.range.start, identifier, initializer?⟩

/-- The variables of a declaration whose type and first name have been read. -/
def declarators (r : Rules) (start : Nat) (type : TypeSyntax) (first : Identifier) :
    P VariableDeclaration := do
  let first ← declarator r first
  let others ← afterCommas do
    let identifier ← identifier
    declarator r identifier
  return ⟨← rangeFrom start, type, first :: others⟩

def variableDeclaration (r : Rules) : P VariableDeclaration := do
  let start := (← current).start
  let type ← r.type true
  let first ← identifier
  declarators r start type first

def localDeclaration (r : Rules) : P Stmt := do
  let start := (← current).start
  let consts := Lookahead.run (.keyword .kwConst) (← get).rest
  advanceBy consts
  let modifiers : Modifiers := if consts = 0 then [] else [.constMod]
  let declaration ← variableDeclaration r
  let semicolon ← eat (.punct .semicolon)
  return .localDeclaration (← rangeFrom start) modifiers declaration semicolon

def startsLocalDeclaration : P Bool := do
  let env ← read
  return Lookahead.startsLocalDeclaration env.maxDepth env.inAsync (← get).rest

/-! ### Expressions that stand alone -/

/-- Reports an expression that cannot stand as a statement. One that already failed to parse is
exempt. -/
def checkStatementExpression (e : Expr) : P Unit := do
  unless e.containsMissing || e.isStatementExpression do
    report .notStatementExpression e.span

def checkStatementExpressions : List Expr → P Unit
  | [] => pure ()
  | e :: es => do
    checkStatementExpression e
    checkStatementExpressions es

def expressionStatement (r : Rules) : P Stmt := do
  let start := (← current).start
  let expression ← r.expression
  let semicolon ← eat (.punct .semicolon)
  checkStatementExpression expression
  return .expression (← rangeFrom start) expression semicolon

/-! ### Blocks -/

/-- Drops a token, and all that follow until a statement can begin or the block ends. -/
def skipToStatement : P Unit := do
  advance
  let skipped := (← get).rest.takeWhile fun t =>
    t.kind ≠ .punct .closeBrace && !t.kind.startsStatement
  advanceBy skipped.length

/-- The next statement of a block. A statement that took no token is followed by a skip. -/
def blockStatement? (r : Rules) : P (Option Stmt) := do
  let kind ← currentKind
  if kind = .punct .closeBrace ∨ kind = .endOfFile then return none
  let left := (← get).rest.length
  let statement ← r.statement
  if (← get).rest.length = left then skipToStatement
  return some statement

def block (r : Rules) : P Block := do
  let start := (← current).start
  let openBrace ← eat (.punct .openBrace)
  let statements ← many (blockStatement? r)
  let closeBrace ← eat (.punct .closeBrace)
  return ⟨← rangeFrom start, openBrace, statements, closeBrace⟩

/-! ### Conditions and loops -/

/-- A condition in parentheses. -/
def condition (r : Rules) : P Expr := do
  let _ ← eat (.punct .openParen)
  let condition ← r.expression
  let _ ← eat (.punct .closeParen)
  return condition

def ifStatement (r : Rules) : P Stmt := do
  let start := (← current).start
  let _ ← eat (.keyword .kwIf)
  let condition ← condition r
  let whenTrue ← r.statement
  let whenFalse? ← if ← accept (.keyword .kwElse) then some <$> r.statement else pure none
  return .ifElse (← rangeFrom start) condition whenTrue whenFalse?

def whileStatement (r : Rules) : P Stmt := do
  let start := (← current).start
  let _ ← eat (.keyword .kwWhile)
  let condition ← condition r
  let body ← r.statement
  return .whileLoop (← rangeFrom start) condition body

def doStatement (r : Rules) : P Stmt := do
  let start := (← current).start
  let _ ← eat (.keyword .kwDo)
  let body ← r.statement
  let _ ← eat (.keyword .kwWhile)
  let condition ← condition r
  let _ ← eat (.punct .semicolon)
  return .doLoop (← rangeFrom start) body condition

/-! ### The header of a `for` -/

/-- Whether a list in the header goes on here, with a separator or with an expression. -/
def continuesList (allowSemicolon : Bool) (kind : TokenKind) : Bool :=
  kind == .punct .comma || (allowSemicolon && kind == .punct .semicolon) || kind.startsExpression

/-- Whether skipping in a list of the header gives up here. -/
def endsList : TokenKind → Bool
  | .punct .closeParen | .punct .semicolon | .punct .openBrace | .punct .closeBrace
  | .endOfFile => true
  | _ => false

/-- Skips tokens that cannot go on with a list of the header, the first of them reported as
standing for another kind. Says whether the list goes on then. -/
def skipInList (expected : TokenKind) : P Bool := do
  let first ← currentKind
  unless first = .punct .comma ∨ first.startsExpression ∨ endsList first do
    replace expected
    let skipped := (← get).rest.takeWhile fun t =>
      t.kind ≠ .punct .comma && !t.kind.startsExpression && !endsList t.kind
    advanceBy skipped.length
  return !endsList (← currentKind)

/-- The separator between two expressions of the header. -/
def listSeparator : P Unit := do
  if (← currentKind) = .punct .semicolon then replace (.punct .comma)
  else let _ ← eat (.punct .comma)

/-- The expressions of a list of the header after the first. -/
def forExpressionsRest (r : Rules) (allowSemicolon : Bool) : P (List Expr) := do
  let expressions ← loop [] fun expressions => do
    let kind ← currentKind
    if kind = .punct .closeParen then return .done expressions
    else if continuesList allowSemicolon kind then
      listSeparator
      let expression ← r.expression
      return .yield (expression :: expressions)
    else if ← skipInList (.punct .comma) then return .yield expressions
    else return .done expressions
  return expressions.reverse

/-- Expressions of the header with commas between. Among the incrementors a semicolon is taken for
a comma. -/
def forExpressions (r : Rules) (allowSemicolon : Bool) : P (List Expr) := do
  let kind ← currentKind
  if kind = .punct .closeParen then return []
  let found ← if continuesList allowSemicolon kind then pure true else skipInList .identifier
  if found then
    let first ← r.expression
    return first :: (← forExpressionsRest r allowSemicolon)
  else return []

def forInitializer? (r : Rules) : P (Option ForInitializer) := do
  if ← startsLocalDeclaration then
    return some (.declaration (← variableDeclaration r))
  else if (← currentKind) = .punct .semicolon then return none
  else
    let expressions ← forExpressions r false
    return if expressions.isEmpty then none else some (.expressions expressions)

/-- A semicolon of the header. A comma in its place is dropped, and the semicolon is missing. -/
def forSemicolon : P Leaf := do
  let isComma := (← currentKind) = .punct .comma
  let semicolon ← eat (.punct .semicolon)
  if isComma then advance
  return semicolon

def forCondition? (r : Rules) : P (Option Expr) := do
  let kind ← currentKind
  if kind = .punct .semicolon ∨ kind = .punct .comma then return none
  else some <$> r.expression

/-- The parenthesis that closes the header, after separators that are reported one by one. -/
def forCloseParen : P Leaf := do
  loop () fun _ => do
    let kind ← currentKind
    if kind = .punct .semicolon ∨ kind = .punct .comma then
      replace (.punct .closeParen)
      return .yield ()
    else return .done ()
  eat (.punct .closeParen)

def forHeader (r : Rules) : P ForHeader := do
  let forWord ← eat (.keyword .kwFor)
  let openParen ← eat (.punct .openParen)
  let initializer? ← forInitializer? r
  let firstSemicolon ← forSemicolon
  let condition? ← forCondition? r
  let secondSemicolon ← forSemicolon
  let incrementors ←
    if (← currentKind) = .punct .closeParen then pure [] else forExpressions r true
  let closeParen ← forCloseParen
  match initializer? with
  | some (.expressions es) => checkStatementExpressions es
  | _ => pure ()
  checkStatementExpressions incrementors
  return ⟨forWord, openParen, initializer?, firstSemicolon, condition?, secondSemicolon,
    incrementors, closeParen⟩

def forStatement (r : Rules) : P Stmt := do
  let start := (← current).start
  let header ← forHeader r
  let body ← r.statement
  return .forLoop (← rangeFrom start) header body

/-! ### Jumps and labels -/

def returnStatement (r : Rules) : P Stmt := do
  let start := (← current).start
  let _ ← eat (.keyword .kwReturn)
  let value? ←
    if (← currentKind) = .punct .semicolon then pure none else some <$> r.expression
  let _ ← eat (.punct .semicolon)
  return .returnValue (← rangeFrom start) value?

/-- A `break` or `continue`, of which only the range matters. -/
def jump : P Range := do
  let start := (← current).start
  advance
  let _ ← eat (.punct .semicolon)
  rangeFrom start

def gotoStatement : P Stmt := do
  let start := (← current).start
  let _ ← eat (.keyword .kwGoto)
  let label ← identifier
  let _ ← eat (.punct .semicolon)
  return .goto (← rangeFrom start) label

def labeledStatement (r : Rules) : P Stmt := do
  let start := (← current).start
  let label ← identifier
  let _ ← eat (.punct .colon)
  let body ← r.statement
  return .labeled (← rangeFrom start) label body

/-- A statement that no word begins: a declaration, a label, or an expression. -/
def wordlessStatement (r : Rules) : P Stmt := do
  let rest := (← get).rest
  if Lookahead.kind rest = .identifier ∧ Lookahead.secondKind rest = .punct .colon then
    labeledStatement r
  else if ← startsLocalDeclaration then localDeclaration r
  else expressionStatement r

/-- A statement, once its level is entered. -/
def statementBody (r : Rules) : P Stmt := do
  let t ← current
  match t.kind with
  | .punct .openBrace => return .block (← block r)
  | .punct .semicolon =>
    advance
    return .empty t.range
  | .keyword .kwIf => ifStatement r
  | .keyword .kwWhile => whileStatement r
  | .keyword .kwDo => doStatement r
  | .keyword .kwFor => forStatement r
  | .keyword .kwReturn => returnStatement r
  | .keyword .kwBreak => return .breakLoop (← jump)
  | .keyword .kwContinue => return .continueLoop (← jump)
  | .keyword .kwGoto => gotoStatement
  | .keyword .kwConst => localDeclaration r
  | _ => wordlessStatement r

/-! ### All rules -/

/-- The rules, which nest as deep as a bound allows. -/
def rules : (bound : Nat) → Rules
  | 0 => .none
  | n + 1 =>
    { statement := fun env s => nested emptyStatement (statementBody (rules n)) env s
      expression := fun env s => nested missingExpression (expressionBody (rules n)) env s
      unary := fun env s => nested missingExpression (unaryBody (rules n)) env s
      type := fun withRanks env s => nested missingType (typeBody withRanks (rules n)) env s
      binaryTail := fun levels least start left env s =>
        binaryTailBody (rules n) levels least start left env s
      postfixTail := fun levels start operand env s =>
        postfixTailBody (rules n) levels start operand env s
      elements := fun env s => nested (pure []) (elementsBody (rules n)) env s
      continuationBody := fun env s => nested (pure none) (some <$> queryBody (rules n)) env s }

end CSharpFront.Parser
