import CSharpFront.Lexer.Scanner
import CSharpFront.Parser.Expressions
import Mathlib.Data.List.Forall2
/-!
Expressions as they are written: the words of an expression in order, with one blank between any two.
The right shift and its assignment are one word each, though they are read as two tokens.

An expression is printable if reading can find it again: its words are words of the language, each
of its operands binds at least as tightly as its place wants, and no name in parentheses is called,
since it would be read as the type of a cast.
-/

namespace CSharpFront

/-! ### Words -/

/-- The word of a kind that has only one spelling. -/
def Lexeme.spelling (k : TokenKind) : Lexeme := ⟨k, (k.text?.getD "").toList, {}, []⟩

@[simp] theorem Lexeme.kind_spelling (k : TokenKind) : (Lexeme.spelling k).kind = k := rfl

abbrev Lexeme.mark (p : Punctuator) : Lexeme := .spelling (.punct p)

def Identifier.word (i : Identifier) : Lexeme where
  kind := .identifier
  text := if i.isVerbatim then '@' :: i.text.toList else i.text.toList
  flags := { verbatim := i.isVerbatim }

@[simp] theorem Identifier.kind_word (i : Identifier) : i.word.kind = .identifier := rfl

def LiteralKind.token : LiteralKind → TokenKind
  | .numeric => .numericLiteral
  | .string => .stringLiteral
  | .character => .characterLiteral
  | .trueWord => .keyword .kwTrue
  | .falseWord => .keyword .kwFalse
  | .nullWord => .keyword .kwNull

theorem LiteralKind.token_of_literalKind? {k : TokenKind} {l : LiteralKind}
    (h : Parser.literalKind? k = some l) : k = l.token := by
  unfold Parser.literalKind? at h
  split at h <;> cases h <;> rfl

@[simp] theorem LiteralKind.literalKind?_token (l : LiteralKind) :
    Parser.literalKind? l.token = some l := by
  cases l <;> rfl

def Literal.word (l : Literal) : Lexeme where
  kind := l.kind.token
  text := l.text.toList
  flags := l.flags

namespace Expr

open Lexeme (mark spelling)

mutual

/-- The words of an expression; casts, type tests, creations and queries have none here. -/
@[simp] def words : Expr → List Lexeme
  | .identifier i => [i.word]
  | .literal l => [l.word]
  | .thisWord _ => [spelling (.keyword .kwThis)]
  | .parenthesized _ e => mark .openParen :: (e.words ++ [mark .closeParen])
  | .binary _ l o r => l.words ++ spelling o.kind :: r.words
  | .assignment _ l o r => l.words ++ spelling o.kind :: r.words
  | .conditional _ c t f =>
    c.words ++ mark .question :: (t.words ++ mark .colon :: f.words)
  | .prefixUnary _ o e => spelling o.kind :: e.words
  | .postfixUnary _ e o => e.words ++ [spelling o.kind]
  | .memberAccess _ e o i => e.words ++ [spelling o.kind, i.word]
  | .invocation _ e as =>
    e.words ++ mark .openParen :: (argumentWords as ++ [mark .closeParen])
  | .elementAccess _ e as =>
    e.words ++ mark .openBracket :: (argumentWords as ++ [mark .closeBracket])
  | _ => []

@[simp] def argumentWords : List Expr → List Lexeme
  | [] => []
  | e :: es => e.words ++ moreWords es

/-- Each argument after the first has a comma before it. -/
@[simp] def moreWords : List Expr → List Lexeme
  | [] => []
  | e :: es => mark .comma :: (e.words ++ moreWords es)

end

end Expr

/-- Words with one blank between any two. -/
def print (ws : List Lexeme) : String :=
  String.ofList ([' '].intercalate (ws.map (·.text)))

/-! ### Printable expressions -/

/-- A name that the lexer reads: without `@` it is no reserved word. -/
structure Identifier.IsPlain (i : Identifier) : Prop where
  isMissing : i.isMissing = false
  text : ∃ c cs, i.text.toList = c :: cs ∧ Text.isIdentifierStart c = true ∧
    ∀ d ∈ cs, Text.isIdentifierPart d = true
  unreserved : i.isVerbatim = false → Keyword.ofText? i.text = none

/-- A literal whose text the scanner reads as one token, the literal itself, without a fault. -/
def Literal.IsClean (l : Literal) : Prop :=
  ∃ t, (scan l.text).1.tokens = [t] ∧ (scan l.text).2 = #[] ∧
    Parser.literalKind? t.kind = some l.kind ∧ t.text = l.text ∧ t.flags = l.flags

/-- The least rank of an operator that the left operand may have at its top: the next rank where
chains group to the right, else the operator's own. -/
def Precedence.leftRank (p : Precedence) : Nat :=
  match p with
  | .coalescing => p.rank + 1
  | _ => p.rank

namespace Expr

/-- How tightly an expression is bound together at its top. It may stand where an operator of a rank
is looked for if it is bound more tightly than that number: a chain one more than the rank of its
operator, and what can only be a whole expression nowhere. -/
def tightness : Expr → Nat
  | .assignment _ _ _ _ | .conditional _ _ _ _ => 0
  | .binary _ _ o _ => (Precedence.ofOperator? o.kind).elim 0 (·.rank + 1)
  | .prefixUnary _ _ _ => 12
  | _ => 13

/-- Whether an expression is a name or a name with names after dots. -/
def isDottedName : Expr → Bool
  | .identifier _ => true
  | .memberAccess _ e o _ => o.kind == .punct .dot && e.isDottedName
  | _ => false

/-- Whether an expression is such a name in parentheses. -/
def isNameInParens : Expr → Bool
  | .parenthesized _ e => e.isDottedName
  | _ => false

inductive Printable : Expr → Prop
  | identifier {i : Identifier} (h : i.IsPlain) : Printable (.identifier i)
  | literal {l : Literal} (h : l.IsClean) : Printable (.literal l)
  | thisWord (r : Range) : Printable (.thisWord r)
  | parenthesized (r : Range) {e : Expr} (h : Printable e) : Printable (.parenthesized r e)
  | binary (r s : Range) {l e : Expr} {q : Punctuator} {p : Precedence}
      (hq : Precedence.ofOperator? (.punct q) = some p) (hl : Printable l) (he : Printable e)
      (hleft : p.leftRank < l.tightness) (hright : p.rightRank < e.tightness) :
      Printable (.binary r l ⟨.punct q, s, false⟩ e)
  | assignment (r s : Range) {l e : Expr} {q : Punctuator} (hq : q.isAssignment = true)
      (hl : Printable l) (he : Printable e) (hleft : 0 < l.tightness) :
      Printable (.assignment r l ⟨.punct q, s, false⟩ e)
  | conditional (r : Range) {c t f : Expr} (hc : Printable c) (ht : Printable t)
      (hf : Printable f) (hcond : 0 < c.tightness) : Printable (.conditional r c t f)
  | prefixUnary (r s : Range) {e : Expr} {q : Punctuator}
      (hq : Parser.isPrefixOperator (.punct q) = true) (h : Printable e)
      (hoperand : 12 ≤ e.tightness) : Printable (.prefixUnary r ⟨.punct q, s, false⟩ e)
  | postfixUnary (r s : Range) {e : Expr} {q : Punctuator} (hq : q = .plusPlus ∨ q = .minusMinus)
      (h : Printable e) (hoperand : 13 ≤ e.tightness) :
      Printable (.postfixUnary r e ⟨.punct q, s, false⟩)
  | memberAccess (r s : Range) {e : Expr} {i : Identifier} {q : Punctuator}
      (hq : q = .dot ∨ q = .questionDot) (h : Printable e) (hi : i.IsPlain)
      (hoperand : 13 ≤ e.tightness) : Printable (.memberAccess r e ⟨.punct q, s, false⟩ i)
  | invocation (r : Range) {e : Expr} {as : List Expr} (h : Printable e)
      (has : ∀ a ∈ as, Printable a) (hoperand : 13 ≤ e.tightness)
      (hname : e.isNameInParens = false) : Printable (.invocation r e as)
  | elementAccess (r : Range) {e : Expr} {as : List Expr} (h : Printable e)
      (has : ∀ a ∈ as, Printable a) (hne : as ≠ []) (hoperand : 13 ≤ e.tightness) :
      Printable (.elementAccess r e as)

/-! ### Levels -/

/-- The operators of a chain, which is read without going further in. -/
def operators : Expr → Nat
  | .binary _ l _ _ => l.operators + 1
  | _ => 0

/-- The accesses, calls and steps after an operand. -/
def accesses : Expr → Nat
  | .postfixUnary _ e _ | .memberAccess _ e _ _ | .invocation _ e _ | .elementAccess _ e _ =>
    e.accesses + 1
  | _ => 0

mutual

/-- How many levels nest in each other where an expression is read, that of a whole expression
apart. An operand is read in all levels that its chain has entered before it. -/
def reach : Expr → Nat
  | .binary _ l _ r => max l.reach (l.operators + 1 + r.reach)
  | .assignment _ l _ r => max l.reach (r.reach + 1)
  | .conditional _ c t f => max c.reach (max (t.reach + 1) (f.reach + 1))
  | .prefixUnary _ _ e => e.reach + 1
  | .parenthesized _ e => e.reach + 2
  | .postfixUnary _ e _ => max e.reach (e.accesses + 2)
  | .memberAccess _ e _ _ => max e.reach (e.accesses + 2)
  | .invocation _ e as => max e.reach (e.accesses + 2 + argumentLevels as)
  | .elementAccess _ e as => max e.reach (e.accesses + 2 + argumentLevels as)
  | _ => 1

def argumentLevels : List Expr → Nat
  | [] => 0
  | e :: es => max (e.reach + 1) (argumentLevels es)

end

/-- How many levels nest in each other where an expression is read. -/
def levels (e : Expr) : Nat := e.reach + 1

end Expr

/-! ### The same up to positions -/

structure Leaf.Alike (l m : Leaf) : Prop where
  kind : l.kind = m.kind
  isMissing : l.isMissing = m.isMissing

structure Identifier.Alike (i j : Identifier) : Prop where
  text : i.text = j.text
  isVerbatim : i.isVerbatim = j.isVerbatim
  isMissing : i.isMissing = j.isMissing

structure Literal.Alike (l m : Literal) : Prop where
  kind : l.kind = m.kind
  text : l.text = m.text
  flags : l.flags = m.flags

/-- Two expressions that differ in nothing but the stretches of text that they cover. -/
inductive Expr.Alike : Expr → Expr → Prop
  | identifier {i j : Identifier} (h : i.Alike j) : Alike (.identifier i) (.identifier j)
  | literal {l m : Literal} (h : l.Alike m) : Alike (.literal l) (.literal m)
  | thisWord (r s : Range) : Alike (.thisWord r) (.thisWord s)
  | parenthesized (r s : Range) {e f : Expr} (h : Alike e f) :
      Alike (.parenthesized r e) (.parenthesized s f)
  | binary (r s : Range) {l l' e e' : Expr} {o o' : Leaf} (hl : Alike l l') (ho : o.Alike o')
      (he : Alike e e') : Alike (.binary r l o e) (.binary s l' o' e')
  | assignment (r s : Range) {l l' e e' : Expr} {o o' : Leaf} (hl : Alike l l') (ho : o.Alike o')
      (he : Alike e e') : Alike (.assignment r l o e) (.assignment s l' o' e')
  | conditional (r s : Range) {c c' t t' f f' : Expr} (hc : Alike c c') (ht : Alike t t')
      (hf : Alike f f') : Alike (.conditional r c t f) (.conditional s c' t' f')
  | prefixUnary (r s : Range) {e e' : Expr} {o o' : Leaf} (ho : o.Alike o') (he : Alike e e') :
      Alike (.prefixUnary r o e) (.prefixUnary s o' e')
  | postfixUnary (r s : Range) {e e' : Expr} {o o' : Leaf} (he : Alike e e') (ho : o.Alike o') :
      Alike (.postfixUnary r e o) (.postfixUnary s e' o')
  | memberAccess (r s : Range) {e e' : Expr} {o o' : Leaf} {i i' : Identifier} (he : Alike e e')
      (ho : o.Alike o') (hi : i.Alike i') : Alike (.memberAccess r e o i) (.memberAccess s e' o' i')
  | invocation (r s : Range) {e e' : Expr} {as as' : List Expr} (he : Alike e e')
      (has : List.Forall₂ Alike as as') : Alike (.invocation r e as) (.invocation s e' as')
  | elementAccess (r s : Range) {e e' : Expr} {as as' : List Expr} (he : Alike e e')
      (has : List.Forall₂ Alike as as') : Alike (.elementAccess r e as) (.elementAccess s e' as')

end CSharpFront
