import CSharpFront.Parser.Types
/-!
Parsing expressions. Binary operators are read by climbing precedences: after an operand, an
operator of sufficient rank takes as its right operand all that binds more tightly.
-/

namespace CSharpFront.Parser

/-! ### Lists of expressions -/

/-- Elements in braces. -/
def initializer (r : Rules) : P Initializer := do
  let start := (← current).start
  let _ ← eat (.punct .openBrace)
  let elements ← r.elements
  let _ ← eat (.punct .closeBrace)
  return ⟨← rangeFrom start, elements⟩

/-- An expression, or elements in braces. -/
def element (r : Rules) : P Expr := do
  if (← currentKind) = .punct .openBrace then return .initializer (← initializer r)
  else r.expression

/-- Elements with commas between, of which the last may follow none, once their level is
entered. -/
def elementsBody (r : Rules) : P (List Expr) := do
  let elements ← loop [] fun elements => do
    let kind ← currentKind
    if kind = .punct .closeBrace ∨ kind = .endOfFile then return .done elements
    let element ← element r
    if ← accept (.punct .comma) then return .yield (element :: elements)
    else return .done (element :: elements)
  return elements.reverse

def optionalInitializer (r : Rules) : P (Option Initializer) := do
  if (← currentKind) = .punct .openBrace then return some (← initializer r) else return none

/-- One argument; the words that say how it is passed carry no meaning here. -/
def argument (r : Rules) : P Expr := do
  if (← currentKind).isArgumentModifier then advance
  r.expression

/-- Arguments between two tokens. -/
def arguments (r : Rules) (opening closing : Punctuator) : P (List Expr) := do
  let _ ← eat (.punct opening)
  let arguments ←
    if (← currentKind) = .punct closing then pure [] else separated (argument r)
  let _ ← eat (.punct closing)
  return arguments

/-! ### Operands -/

/-- The sizes of an array in its first brackets, with the number of dimensions. -/
def sizes (r : Rules) : P (List Expr × Nat) := do
  let (sizes, rank) ← loop ([], 1) fun (sizes, rank) => do
    let kind ← currentKind
    if kind = .punct .closeBracket ∨ kind = .endOfFile then return .done (sizes, rank)
    else if kind = .punct .comma then
      advance
      return .yield (sizes, rank + 1)
    else
      let size ← r.expression
      if ← accept (.punct .comma) then return .yield (size :: sizes, rank + 1)
      else return .done (size :: sizes, rank)
  return (sizes.reverse, rank)

/-- The brackets and elements of a new array whose element type has been read. -/
def arrayCreationRest (r : Rules) (start : Nat) (element : TypeSyntax) : P Expr := do
  let _ ← eat (.punct .openBracket)
  let (sizes, rank) ← sizes r
  let _ ← eat (.punct .closeBracket)
  let typeStart := element.range.toSpan.start
  let array := TypeSyntax.array (← rangeFrom typeStart) element rank
  let type ← rankSpecifiers typeStart array
  let initializer? ← optionalInitializer r
  return .arrayCreation (← rangeFrom start) type sizes initializer?

/-- A new object whose type has been read, with or without arguments. -/
def objectCreationRest (r : Rules) (start : Nat) (type : TypeSyntax) : P Expr := do
  let arguments? ←
    if (← currentKind) = .punct .openParen then
      pure (some (← arguments r .openParen .closeParen))
    else pure none
  let initializer? ← optionalInitializer r
  return .objectCreation (← rangeFrom start) type arguments? initializer?

/-- What `new` creates. -/
def creation (r : Rules) : P Expr := do
  let start := (← current).start
  let _ ← eat (.keyword .kwNew)
  if ← accept (.punct .openBracket) then
    advanceBy (Lookahead.run (.punct .comma) (← get).rest)
    let _ ← eat (.punct .closeBracket)
    let initializer ← initializer r
    return .implicitArrayCreation (← rangeFrom start) initializer
  let type ← r.type false
  match ← currentKind with
  | .punct .openBracket => arrayCreationRest r start type
  | .punct .openParen | .punct .openBrace => objectCreationRest r start type
  | _ =>
    report .newNeedsArguments (← expectedSpan)
    return .objectCreation (← rangeFrom start) type none none

/-- The kind of literal that a token is. -/
def literalKind? : TokenKind → Option LiteralKind
  | .numericLiteral => some .numeric
  | .stringLiteral => some .string
  | .characterLiteral => some .character
  | .keyword .kwTrue => some .trueWord
  | .keyword .kwFalse => some .falseWord
  | .keyword .kwNull => some .nullWord
  | _ => none

/-- Reports that no expression begins here. -/
def invalidTerm : P Expr := do
  let t ← current
  if t.kind = .endOfFile then report .expressionExpected t.span
  else report .invalidExpressionTerm t.span [t.text]
  missingExpression

/-- An operand without the operators around it. -/
def primary (r : Rules) : P Expr := do
  let t ← current
  match literalKind? t.kind with
  | some kind =>
    advance
    return .literal ⟨t.range, kind, t.text, t.flags⟩
  | none =>
  match t.kind.special? with
  | some s =>
    advance
    return .predefinedType t.range s
  | none =>
  match t.kind with
  | .identifier =>
    advance
    return .identifier (← identifierOf t)
  | .keyword .kwThis =>
    advance
    return .thisWord t.range
  | .punct .openParen =>
    advance
    let inner ← r.expression
    let _ ← eat (.punct .closeParen)
    return .parenthesized (← rangeFrom t.start) inner
  | .keyword .kwNew => creation r
  | _ => invalidTerm

/-- A type in parentheses and what it is cast from. -/
def castExpression (r : Rules) : P Expr := do
  let start := (← current).start
  let _ ← eat (.punct .openParen)
  let type ← r.type true
  let _ ← eat (.punct .closeParen)
  let operand ← r.unary
  return .cast (← rangeFrom start) type operand

/-- Whether a token is an operator that stands before its operand. -/
def isPrefixOperator : TokenKind → Bool
  | .punct p =>
    match p with
    | .plus | .minus | .exclamation | .tilde | .plusPlus | .minusMinus => true
    | _ => false
  | _ => false

/-- An operand with the operators around it, once its level is entered. -/
def unaryBody (r : Rules) : P Expr := do
  let t ← current
  if isPrefixOperator t.kind then
    let operator ← take
    let operand ← r.unary
    return .prefixUnary (← rangeFrom t.start) operator operand
  else if (← read).inAsync ∧ t.isContextual "await" then
    advance
    let operand ← r.unary
    return .await (← rangeFrom t.start) operand
  else if t.kind = .punct .openParen ∧
      Lookahead.startsCast (← read).maxDepth (← get).rest.tail then
    castExpression r
  else
    let operand ← primary r
    r.postfixTail 0 t.start operand

/-- An operand with one more access, call or step, once its level is entered. -/
def postfixStep (r : Rules) (start : Nat) (operand : Expr) : P Expr := do
  match ← currentKind with
  | .punct .dot | .punct .questionDot =>
    let operator ← take
    let name ← identifier
    return .memberAccess (← rangeFrom start) operand operator name
  | .punct .openParen =>
    let arguments ← arguments r .openParen .closeParen
    return .invocation (← rangeFrom start) operand arguments
  | .punct .openBracket =>
    let arguments ← arguments r .openBracket .closeBracket
    return .elementAccess (← rangeFrom start) operand arguments
  | _ =>
    let operator ← take
    return .postfixUnary (← rangeFrom start) operand operator

def postfixTailBody (r : Rules) (levels start : Nat) (operand : Expr) : P Expr := do
  if continuesOperand (← currentKind) then
    if ← enter then
      let operand ← postfixStep r start operand
      r.postfixTail (levels + 1) start operand
    else
      leave levels
      return operand
  else
    leave levels
    return operand

/-! ### Operators -/

/-- A chain of binary operators of a least rank. -/
def binary (r : Rules) (least : Nat) : P Expr := do
  let start := (← current).start
  let left ← r.unary
  r.binaryTail 0 least start left

/-- An operand with one more binary operator, once its level is entered. -/
def binaryStep (r : Rules) (start : Nat) (left : Expr) (operator : Operator) (p : Precedence) :
    P Expr := do
  advanceBy operator.width
  match operator.kind with
  | .keyword _ =>
    let type ← r.type true
    return .typeTest (← rangeFrom start) left operator.leaf type
  | _ =>
    let right ← binary r p.rightRank
    return .binary (← rangeFrom start) left operator.leaf right

def binaryTailBody (r : Rules) (levels least start : Nat) (left : Expr) : P Expr := do
  match ← nextOperator? least with
  | none =>
    leave levels
    return left
  | some (operator, p) =>
    if ← enter then
      let left ← binaryStep r start left operator p
      r.binaryTail (levels + 1) least start left
    else
      leave levels
      return left

/-- A condition and two choices, or an expression that binds more tightly. -/
def conditional (r : Rules) : P Expr := do
  let start := (← current).start
  let condition ← binary r Precedence.coalescing.rank
  if ← accept (.punct .question) then
    let whenTrue ← r.expression
    let _ ← eat (.punct .colon)
    let whenFalse ← r.expression
    return .conditional (← rangeFrom start) condition whenTrue whenFalse
  return condition

/-- An assignment, or an expression that binds more tightly. -/
def assignment (r : Rules) : P Expr := do
  let start := (← current).start
  let left ← conditional r
  let operator := Operator.next (← read).endOfFile (← get).rest
  if operator.kind.isAssignment then
    advanceBy operator.width
    let right ← r.expression
    return .assignment (← rangeFrom start) left operator.leaf right
  return left

end CSharpFront.Parser
