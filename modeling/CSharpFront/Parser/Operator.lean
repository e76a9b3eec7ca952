import CSharpFront.Syntax.Tree
/-!
Operators and how tightly they bind. The right shift and its assignment are two tokens that touch.
-/

namespace CSharpFront

/-- How tightly a binary operator binds, the loosest first. -/
inductive Precedence
  | coalescing | conditionalOr | conditionalAnd | logicalOr | logicalXor | logicalAnd
  | equality | relational | shift | additive | multiplicative
deriving DecidableEq

namespace Precedence

def rank : Precedence → Nat
  | .coalescing => 0
  | .conditionalOr => 1
  | .conditionalAnd => 2
  | .logicalOr => 3
  | .logicalXor => 4
  | .logicalAnd => 5
  | .equality => 6
  | .relational => 7
  | .shift => 8
  | .additive => 9
  | .multiplicative => 10

/-- The least rank of an operator that the right operand may have at its top: its own rank where
chains group to the right, else the next one. -/
def rightRank (p : Precedence) : Nat :=
  match p with
  | .coalescing => p.rank
  | _ => p.rank + 1

def ofOperator? : TokenKind → Option Precedence
  | .punct p =>
    match p with
    | .questionQuestion => some .coalescing
    | .barBar => some .conditionalOr
    | .ampersandAmpersand => some .conditionalAnd
    | .bar => some .logicalOr
    | .caret => some .logicalXor
    | .ampersand => some .logicalAnd
    | .equalsEquals | .exclamationEquals => some .equality
    | .lessThan | .greaterThan | .lessThanEquals | .greaterThanEquals => some .relational
    | .lessThanLessThan | .greaterThanGreaterThan => some .shift
    | .plus | .minus => some .additive
    | .asterisk | .slash | .percent => some .multiplicative
    | _ => none
  | .keyword .kwIs | .keyword .kwAs => some .relational
  | _ => none

end Precedence

/-- An operator with the number of tokens that it takes. -/
structure Operator where
  kind : TokenKind
  range : Range
  width : Nat

namespace Operator

/-- What a `>` makes together with the token that touches it. -/
def joined? (t u : Token) : Option Punctuator :=
  if t.kind = .punct .greaterThan ∧ u.start = t.stop then
    match u.kind with
    | .punct .greaterThan => some .greaterThanGreaterThan
    | .punct .greaterThanEquals => some .greaterThanGreaterThanEquals
    | _ => none
  else none

/-- The operator that comes next, if the tokens left begin with one; else their first token. -/
def next (endOfFile : Token) : List Token → Operator
  | [] => ⟨endOfFile.kind, endOfFile.range, 1⟩
  | [t] => ⟨t.kind, t.range, 1⟩
  | t :: u :: _ =>
    match joined? t u with
    | some p => ⟨.punct p, ⟨t.start, u.stop⟩, 2⟩
    | none => ⟨t.kind, t.range, 1⟩

def leaf (o : Operator) : Leaf := ⟨o.kind, o.range, false⟩

end Operator

end CSharpFront
