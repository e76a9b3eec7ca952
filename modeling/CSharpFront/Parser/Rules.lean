import CSharpFront.Parser.Lookahead
import CSharpFront.Parser.Operator
import CSharpFront.Parser.State
/-!
The parsers that nest in each other. Each of those that a `Rules` value holds first enters a level,
and its own parts are read with the rules of one step further in. Every production of the grammar is
a function of such a value, and none calls itself: all recursion of the parser is in `Parser.rules`,
over a bound that is one more than the levels there are.

A chain of binary operators, and one of calls and accesses, enters a level for each operator and
leaves them all at its end. Its levels are entered after its first operand was read.
-/

namespace CSharpFront.Parser

structure Rules where
  statement : P Stmt
  expression : P Expr
  /-- An operand with the operators before and after it. -/
  unary : P Expr
  /-- A type; `false` leaves brackets to what follows. -/
  type : Bool → P TypeSyntax
  /-- What a chain of binary operators of a least rank goes on with after an operand that begins at
  an offset. The chain has entered some levels, which it leaves at its end. -/
  binaryTail : (levels : Nat) → (least : Nat) → (start : Nat) → Expr → P Expr
  /-- The accesses, calls and steps after an operand that begins at an offset, in a chain that has
  entered some levels. -/
  postfixTail : (levels : Nat) → (start : Nat) → Expr → P Expr
  /-- The elements between braces. -/
  elements : P (List Expr)
  /-- What a query goes on with after `into` and a name. -/
  continuationBody : P (Option QueryBody)

/-- What a statement is when no level can be entered. -/
def emptyStatement : P Stmt := return .empty (.emptyAt (← get).prevStop)

/-- An operator of a least rank, with its precedence. -/
def nextOperator? (least : Nat) : P (Option (Operator × Precedence)) := do
  let operator := Operator.next (← read).endOfFile (← get).rest
  match Precedence.ofOperator? operator.kind with
  | some p => if least ≤ p.rank then return some (operator, p) else return none
  | none => return none

/-- Whether a token continues an operand. -/
def continuesOperand : TokenKind → Bool
  | .punct p =>
    match p with
    | .dot | .questionDot | .openParen | .openBracket | .plusPlus | .minusMinus => true
    | _ => false
  | _ => false

/-- The rules at the end of their bound. No run gets there, since the limit comes first. -/
def Rules.none : Rules where
  statement := do runOut; refuse; emptyStatement
  expression := do runOut; refuse; missingExpression
  unary := do runOut; refuse; missingExpression
  type := fun _ => do runOut; refuse; missingType
  binaryTail := fun levels _ _ left => do runOut; refuse; leave levels; return left
  postfixTail := fun levels _ operand => do runOut; refuse; leave levels; return operand
  elements := do runOut; refuse; return []
  continuationBody := do runOut; refuse; return Option.none

end CSharpFront.Parser
