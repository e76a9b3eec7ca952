import CSharpFront.Cancellation
import CSharpFront.Proofs.Syntax.Printing
import CSharpFront.Syntax.Bodies
/-!
The same tokens laid out in two ways. Two texts may differ in nothing but the gaps between their
tokens; their trees then differ in nothing but the places of things. `Relaid` says so of trees: they
are of one shape, with the same names and literals, and what later stages ask of places has one
answer for both: whether a stretch is empty, and whether two labels are the same.
-/

namespace CSharpFront

/-! ### Two layouts -/

/-- How the offsets in two texts correspond. -/
structure Relayout where
  /-- The places at which a token starts in one text and its counterpart in the other. -/
  starts : Nat → Nat → Prop
  /-- The places at which such tokens stop, or at which no token has been taken. -/
  stops : Nat → Nat → Prop
  lt_iff {p p' q q' : Nat} : starts p p' → stops q q' → (p < q ↔ p' < q')
  eq_iff {p p' q q' : Nat} : starts p p' → starts q q' → (p = q ↔ p' = q')

/-- Two diagnostics that say the same, wherever they stand. -/
structure Diagnostic.Agrees (d e : Diagnostic) : Prop where
  message : d.message = e.message
  severity : d.severity = e.severity
  arguments : d.arguments = e.arguments

/-- Two stages add to what was reported before them the same, one by one. -/
def AgreeAfter (before before' after after' : Bag) : Prop :=
  ∃ rs rs', after = before ++ rs ∧ after' = before' ++ rs' ∧ List.Forall₂ Diagnostic.Agrees rs rs'

theorem AgreeAfter.refl (before before' : Bag) : AgreeAfter before before' before before' :=
  ⟨[], [], (List.append_nil _).symm, (List.append_nil _).symm, .nil⟩

/-- A stage that runs over a text in two layouts, with what was reported before it in each. -/
structure Rerun extends Relayout where
  before : Array Diagnostic
  before' : Array Diagnostic

instance : Coe Rerun Relayout := ⟨Rerun.toRelayout⟩

namespace Rerun

/-- What the stage has reported so far agrees. -/
def Reports (l : Rerun) (ds ds' : Array Diagnostic) : Prop :=
  AgreeAfter l.before.toList l.before'.toList ds.toList ds'.toList

theorem Reports.push {l : Rerun} {ds ds' : Array Diagnostic} {d d' : Diagnostic}
    (h : l.Reports ds ds') (hd : d.Agrees d') : l.Reports (ds.push d) (ds'.push d') := by
  obtain ⟨rs, rs', hds, hds', hrs⟩ := h
  refine ⟨rs ++ [d], rs' ++ [d'], ?_, ?_, List.rel_append hrs (.cons hd .nil)⟩
  · rw [Array.toList_push, hds, List.append_assoc]
  · rw [Array.toList_push, hds', List.append_assoc]

end Rerun

/-- The flags without the one that the gap before a token sets. -/
def TokenFlags.inLine (f : TokenFlags) : TokenFlags := { f with afterLineBreak := false }

/-- A token without its place and without the gap before it. -/
def Token.bare (t : Token) : Token := { t with range := .emptyAt 0, flags := t.flags.inLine }

/-- A token and its counterpart in another layout. -/
structure Token.Relaid (l : Relayout) (t u : Token) : Prop where
  bare : t.bare = u.bare
  start : l.starts t.start u.start
  stop : l.stops t.stop u.stop

/-- Two ranges of which both are empty or none. -/
def Range.Relaid (r s : Range) : Prop := r.toSpan.isEmpty = s.toSpan.isEmpty

theorem Range.toSpan_isEmpty (r : Range) : r.toSpan.isEmpty = decide (r.stop ≤ r.start) := by
  have h : r.stop - r.start = 0 ↔ r.stop ≤ r.start := Nat.sub_eq_zero_iff_le
  simp [Range.toSpan, Span.between, Span.isEmpty, h, Bool.beq_eq_decide_eq]

theorem Range.relaid_emptyAt (p q : Nat) : (Range.emptyAt p).Relaid (.emptyAt q) := by
  simp [Range.Relaid, Range.toSpan_isEmpty, Range.emptyAt]

theorem Relayout.relaid_range (l : Relayout) {p p' q q' : Nat} (hp : l.starts p p')
    (hq : l.stops q q') : (Range.mk p q).Relaid ⟨p', q'⟩ := by
  have h := l.lt_iff hp hq
  simp only [Range.Relaid, Range.toSpan_isEmpty, decide_eq_decide]
  omega

/-- A node that goes from a token on to where the last one was taken. -/
theorem Relayout.relaid_max (l : Relayout) {p p' q q' : Nat} (hp : l.starts p p')
    (hq : l.stops q q') : (Range.mk p (max q p)).Relaid ⟨p', max q' p'⟩ := by
  have h := l.lt_iff hp hq
  simp only [Range.Relaid, Range.toSpan_isEmpty, decide_eq_decide]
  omega

namespace Token.Relaid

variable {l : Relayout} {t u : Token}

theorem kind (h : t.Relaid l u) : t.kind = u.kind := (congrArg Token.kind h.bare :)

theorem text (h : t.Relaid l u) : t.text = u.text := (congrArg Token.text h.bare :)

theorem flags (h : t.Relaid l u) : t.flags.inLine = u.flags.inLine :=
  (congrArg Token.flags h.bare :)

theorem verbatim (h : t.Relaid l u) : t.flags.verbatim = u.flags.verbatim :=
  (congrArg TokenFlags.verbatim h.flags :)

theorem range (h : t.Relaid l u) : t.range.Relaid u.range := l.relaid_range h.start h.stop

theorem contextual? (h : t.Relaid l u) : t.contextual? = u.contextual? := by
  simp only [Token.contextual?, h.kind, h.text, h.verbatim]

theorem isContextual (h : t.Relaid l u) (word : String) :
    t.isContextual word = u.isContextual word := by
  rw [Token.isContextual, Token.isContextual, h.contextual?]

end Token.Relaid

/-- Two outcomes of which both are results that stand in a relation, or both say that a stage has
been cancelled. -/
inductive Outcomes {α β : Type} (rel : α → β → Prop) :
    Except Cancelled α → Except Cancelled β → Prop
  | ok {a : α} {b : β} : rel a b → Outcomes rel (.ok a) (.ok b)
  | error (e : Cancelled) : Outcomes rel (.error e) (.error e)

/-! ### Names and literals -/

structure Identifier.Relaid (l : Relayout) (i j : Identifier) : Prop extends i.Alike j where
  range : i.range.Relaid j.range
  start : i.isMissing = false → l.starts i.range.start j.range.start

theorem Identifier.relaid_missing (l : Relayout) (p q : Nat) :
    (Identifier.missing p).Relaid l (.missing q) :=
  ⟨⟨rfl, rfl, rfl⟩, Range.relaid_emptyAt p q, nofun⟩

structure Literal.Relaid (a b : Literal) : Prop where
  range : a.range.Relaid b.range
  kind : a.kind = b.kind
  text : a.text = b.text
  flags : a.flags.inLine = b.flags.inLine

/-! ### Types and expressions -/

section

variable (l : Relayout)

inductive TypeSyntax.Relaid : TypeSyntax → TypeSyntax → Prop
  | predefined (r r' : Range) (s : SpecialType) : Relaid (.predefined r s) (.predefined r' s)
  | name {i i' : Identifier} : i.Relaid l i' → Relaid (.name i) (.name i')
  | qualified (r r' : Range) {a a' b b' : TypeSyntax} :
    Relaid a a' → Relaid b b' → Relaid (.qualified r a b) (.qualified r' a' b')
  | generic (r r' : Range) {i i' : Identifier} {ts ts' : List TypeSyntax} :
    i.Relaid l i' → List.Forall₂ Relaid ts ts' → Relaid (.generic r i ts) (.generic r' i' ts')
  | nullable (r r' : Range) {t t' : TypeSyntax} :
    Relaid t t' → Relaid (.nullable r t) (.nullable r' t')
  | array (r r' : Range) {t t' : TypeSyntax} (rank : Nat) :
    Relaid t t' → Relaid (.array r t rank) (.array r' t' rank)
  | missing (p p' : Nat) : Relaid (.missing p) (.missing p')

mutual

inductive Expr.Relaid : Expr → Expr → Prop
  | identifier {i i' : Identifier} :
    i.Relaid l i' → Expr.Relaid (.identifier i) (.identifier i')
  | literal {a a' : Literal} : a.Relaid a' → Expr.Relaid (.literal a) (.literal a')
  | thisWord {r r' : Range} : r.Relaid r' → Expr.Relaid (.thisWord r) (.thisWord r')
  | predefinedType {r r' : Range} (s : SpecialType) :
    r.Relaid r' → Expr.Relaid (.predefinedType r s) (.predefinedType r' s)
  | parenthesized {r r' : Range} {e e' : Expr} :
    r.Relaid r' → Expr.Relaid e e' → Expr.Relaid (.parenthesized r e) (.parenthesized r' e')
  | binary {r r' : Range} {a a' b b' : Expr} {o o' : Leaf} :
    r.Relaid r' → Expr.Relaid a a' → o.Alike o' → Expr.Relaid b b' →
      Expr.Relaid (.binary r a o b) (.binary r' a' o' b')
  | assignment {r r' : Range} {a a' b b' : Expr} {o o' : Leaf} :
    r.Relaid r' → Expr.Relaid a a' → o.Alike o' → Expr.Relaid b b' →
      Expr.Relaid (.assignment r a o b) (.assignment r' a' o' b')
  | conditional {r r' : Range} {c c' t t' f f' : Expr} :
    r.Relaid r' → Expr.Relaid c c' → Expr.Relaid t t' → Expr.Relaid f f' →
      Expr.Relaid (.conditional r c t f) (.conditional r' c' t' f')
  | prefixUnary {r r' : Range} {o o' : Leaf} {e e' : Expr} :
    r.Relaid r' → o.Alike o' → Expr.Relaid e e' →
      Expr.Relaid (.prefixUnary r o e) (.prefixUnary r' o' e')
  | postfixUnary {r r' : Range} {e e' : Expr} {o o' : Leaf} :
    r.Relaid r' → Expr.Relaid e e' → o.Alike o' →
      Expr.Relaid (.postfixUnary r e o) (.postfixUnary r' e' o')
  | cast {r r' : Range} {t t' : TypeSyntax} {e e' : Expr} :
    r.Relaid r' → t.Relaid l t' → Expr.Relaid e e' → Expr.Relaid (.cast r t e) (.cast r' t' e')
  | typeTest {r r' : Range} {e e' : Expr} {o o' : Leaf} {t t' : TypeSyntax} :
    r.Relaid r' → Expr.Relaid e e' → o.Alike o' → t.Relaid l t' →
      Expr.Relaid (.typeTest r e o t) (.typeTest r' e' o' t')
  | memberAccess {r r' : Range} {e e' : Expr} {o o' : Leaf} {i i' : Identifier} :
    r.Relaid r' → Expr.Relaid e e' → o.Alike o' → i.Relaid l i' →
      Expr.Relaid (.memberAccess r e o i) (.memberAccess r' e' o' i')
  | invocation {r r' : Range} {e e' : Expr} {es es' : List Expr} :
    r.Relaid r' → Expr.Relaid e e' → List.Forall₂ Expr.Relaid es es' →
      Expr.Relaid (.invocation r e es) (.invocation r' e' es')
  | elementAccess {r r' : Range} {e e' : Expr} {es es' : List Expr} :
    r.Relaid r' → Expr.Relaid e e' → List.Forall₂ Expr.Relaid es es' →
      Expr.Relaid (.elementAccess r e es) (.elementAccess r' e' es')
  | objectCreation {r r' : Range} {t t' : TypeSyntax} {es? es?' : Option (List Expr)}
      {i? i?' : Option Initializer} :
    r.Relaid r' → t.Relaid l t' → Option.Rel (List.Forall₂ Expr.Relaid) es? es?' →
      Option.Rel Initializer.Relaid i? i?' →
      Expr.Relaid (.objectCreation r t es? i?) (.objectCreation r' t' es?' i?')
  | arrayCreation {r r' : Range} {t t' : TypeSyntax} {es es' : List Expr}
      {i? i?' : Option Initializer} :
    r.Relaid r' → t.Relaid l t' → List.Forall₂ Expr.Relaid es es' →
      Option.Rel Initializer.Relaid i? i?' →
      Expr.Relaid (.arrayCreation r t es i?) (.arrayCreation r' t' es' i?')
  | implicitArrayCreation {r r' : Range} {i i' : Initializer} :
    r.Relaid r' → Initializer.Relaid i i' →
      Expr.Relaid (.implicitArrayCreation r i) (.implicitArrayCreation r' i')
  | initializer {i i' : Initializer} :
    Initializer.Relaid i i' → Expr.Relaid (.initializer i) (.initializer i')
  | await {r r' : Range} {e e' : Expr} :
    r.Relaid r' → Expr.Relaid e e' → Expr.Relaid (.await r e) (.await r' e')
  | query {r r' : Range} {c c' : FromClause} {b b' : QueryBody} :
    r.Relaid r' → FromClause.Relaid c c' → QueryBody.Relaid b b' →
      Expr.Relaid (.query r c b) (.query r' c' b')
  | missing (p p' : Nat) : Expr.Relaid (.missing p) (.missing p')

inductive Initializer.Relaid : Initializer → Initializer → Prop
  | mk {r r' : Range} {es es' : List Expr} :
    r.Relaid r' → List.Forall₂ Expr.Relaid es es' → Initializer.Relaid ⟨r, es⟩ ⟨r', es'⟩

inductive FromClause.Relaid : FromClause → FromClause → Prop
  | mk (r r' : Range) {t? t?' : Option TypeSyntax} {i i' : Identifier} {e e' : Expr} :
    Option.Rel (TypeSyntax.Relaid l) t? t?' → i.Relaid l i' → Expr.Relaid e e' →
      FromClause.Relaid ⟨r, t?, i, e⟩ ⟨r', t?', i', e'⟩

inductive SortKey.Relaid : SortKey → SortKey → Prop
  | mk (r r' : Range) {e e' : Expr} (isDescending : Bool) :
    Expr.Relaid e e' → SortKey.Relaid ⟨r, e, isDescending⟩ ⟨r', e', isDescending⟩

inductive QueryClause.Relaid : QueryClause → QueryClause → Prop
  | fromClause {c c' : FromClause} :
    FromClause.Relaid c c' → QueryClause.Relaid (.fromClause c) (.fromClause c')
  | letClause (r r' : Range) {i i' : Identifier} {e e' : Expr} :
    i.Relaid l i' → Expr.Relaid e e' →
      QueryClause.Relaid (.letClause r i e) (.letClause r' i' e')
  | whereClause (r r' : Range) {e e' : Expr} :
    Expr.Relaid e e' → QueryClause.Relaid (.whereClause r e) (.whereClause r' e')
  | orderByClause (r r' : Range) {ks ks' : List SortKey} :
    List.Forall₂ SortKey.Relaid ks ks' →
      QueryClause.Relaid (.orderByClause r ks) (.orderByClause r' ks')

inductive QueryEnding.Relaid : QueryEnding → QueryEnding → Prop
  | select (r r' : Range) {e e' : Expr} :
    Expr.Relaid e e' → QueryEnding.Relaid (.select r e) (.select r' e')
  | group (r r' : Range) {e e' k k' : Expr} :
    Expr.Relaid e e' → Expr.Relaid k k' →
      QueryEnding.Relaid (.group r e k) (.group r' e' k')
  | missing (p p' : Nat) : QueryEnding.Relaid (.missing p) (.missing p')

inductive QueryBody.Relaid : QueryBody → QueryBody → Prop
  | mk (r r' : Range) {qs qs' : List QueryClause} {e e' : QueryEnding}
      {k? k?' : Option Continuation} :
    List.Forall₂ QueryClause.Relaid qs qs' → QueryEnding.Relaid e e' →
      Option.Rel Continuation.Relaid k? k?' → QueryBody.Relaid ⟨r, qs, e, k?⟩ ⟨r', qs', e', k?'⟩

inductive Continuation.Relaid : Continuation → Continuation → Prop
  | mk (r r' : Range) {i i' : Identifier} {b b' : QueryBody} :
    i.Relaid l i' → QueryBody.Relaid b b' → Continuation.Relaid ⟨r, i, b⟩ ⟨r', i', b'⟩

end

/-! ### Statements -/

structure Declarator.Relaid (d d' : Declarator) : Prop where
  identifier : d.identifier.Relaid l d'.identifier
  initializer : Option.Rel (Expr.Relaid l) d.initializer? d'.initializer?

structure VariableDeclaration.Relaid (d d' : VariableDeclaration) : Prop where
  type : d.type.Relaid l d'.type
  declarators : List.Forall₂ (Declarator.Relaid l) d.declarators d'.declarators

inductive ForInitializer.Relaid : ForInitializer → ForInitializer → Prop
  | declaration {d d' : VariableDeclaration} :
    d.Relaid l d' → Relaid (.declaration d) (.declaration d')
  | expressions {es es' : List Expr} :
    List.Forall₂ (Expr.Relaid l) es es' → Relaid (.expressions es) (.expressions es')

structure ForHeader.Relaid (h h' : ForHeader) : Prop where
  initializer : Option.Rel (ForInitializer.Relaid l) h.initializer? h'.initializer?
  condition : Option.Rel (Expr.Relaid l) h.condition? h'.condition?
  incrementors : List.Forall₂ (Expr.Relaid l) h.incrementors h'.incrementors

mutual

inductive Stmt.Relaid : Stmt → Stmt → Prop
  | block {b b' : Block} : Block.Relaid b b' → Stmt.Relaid (.block b) (.block b')
  | empty (r r' : Range) : Stmt.Relaid (.empty r) (.empty r')
  | localDeclaration {r r' : Range} (ms : Modifiers) {d d' : VariableDeclaration} (o o' : Leaf) :
    r.Relaid r' → d.Relaid l d' →
      Stmt.Relaid (.localDeclaration r ms d o) (.localDeclaration r' ms d' o')
  | expression {r r' : Range} {e e' : Expr} (o o' : Leaf) :
    r.Relaid r' → e.Relaid l e' → Stmt.Relaid (.expression r e o) (.expression r' e' o')
  | ifElse {r r' : Range} {e e' : Expr} {s s' : Stmt} {s? s?' : Option Stmt} :
    r.Relaid r' → e.Relaid l e' → Stmt.Relaid s s' → Option.Rel Stmt.Relaid s? s?' →
      Stmt.Relaid (.ifElse r e s s?) (.ifElse r' e' s' s?')
  | whileLoop {r r' : Range} {e e' : Expr} {s s' : Stmt} :
    r.Relaid r' → e.Relaid l e' → Stmt.Relaid s s' →
      Stmt.Relaid (.whileLoop r e s) (.whileLoop r' e' s')
  | doLoop {r r' : Range} {s s' : Stmt} {e e' : Expr} :
    r.Relaid r' → Stmt.Relaid s s' → e.Relaid l e' →
      Stmt.Relaid (.doLoop r s e) (.doLoop r' s' e')
  | forLoop (r r' : Range) {h h' : ForHeader} {s s' : Stmt} :
    h.Relaid l h' → Stmt.Relaid s s' → Stmt.Relaid (.forLoop r h s) (.forLoop r' h' s')
  | returnValue {r r' : Range} {e? e?' : Option Expr} :
    r.Relaid r' → Option.Rel (Expr.Relaid l) e? e?' →
      Stmt.Relaid (.returnValue r e?) (.returnValue r' e?')
  | breakLoop {r r' : Range} : r.Relaid r' → Stmt.Relaid (.breakLoop r) (.breakLoop r')
  | continueLoop {r r' : Range} : r.Relaid r' → Stmt.Relaid (.continueLoop r) (.continueLoop r')
  | goto {r r' : Range} {i i' : Identifier} :
    r.Relaid r' → i.Relaid l i' → Stmt.Relaid (.goto r i) (.goto r' i')
  | labeled {r r' : Range} {i i' : Identifier} {s s' : Stmt} :
    r.Relaid r' → i.Relaid l i' → Stmt.Relaid s s' →
      Stmt.Relaid (.labeled r i s) (.labeled r' i' s')

inductive Block.Relaid : Block → Block → Prop
  | mk (r r' : Range) (o o' c c' : Leaf) {ss ss' : List Stmt} :
    List.Forall₂ Stmt.Relaid ss ss' → Block.Relaid ⟨r, o, ss, c⟩ ⟨r', o', ss', c'⟩

end

/-! ### Declarations -/

structure Parameter.Relaid (p p' : Parameter) : Prop where
  type : p.type.Relaid l p'.type
  identifier : p.identifier.Relaid l p'.identifier

structure Field.Relaid (f f' : Field) : Prop where
  declaration : f.declaration.Relaid l f'.declaration

structure Method.Relaid (m m' : Method) : Prop where
  returnType : Option.Rel (TypeSyntax.Relaid l) m.returnType? m'.returnType?
  identifier : m.identifier.Relaid l m'.identifier
  parameters : List.Forall₂ (Parameter.Relaid l) m.parameters m'.parameters
  body : Option.Rel (Block.Relaid l) m.body? m'.body?

structure ConversionOperator.Relaid (o o' : ConversionOperator) : Prop where
  kind : o.kind.Alike o'.kind
  type : o.type.Relaid l o'.type
  parameters : List.Forall₂ (Parameter.Relaid l) o.parameters o'.parameters
  body : Option.Rel (Block.Relaid l) o.body? o'.body?

mutual

inductive TypeDeclaration.Relaid : TypeDeclaration → TypeDeclaration → Prop
  | mk (r r' : Range) (isStruct : Bool) (modifiers : Modifiers) {i i' : Identifier}
      {ms ms' : List ClassMember} :
    i.Relaid l i' → List.Forall₂ ClassMember.Relaid ms ms' →
      TypeDeclaration.Relaid ⟨r, isStruct, modifiers, i, ms⟩ ⟨r', isStruct, modifiers, i', ms'⟩

inductive ClassMember.Relaid : ClassMember → ClassMember → Prop
  | field {f f' : Field} : f.Relaid l f' → ClassMember.Relaid (.field f) (.field f')
  | method {m m' : Method} : m.Relaid l m' → ClassMember.Relaid (.method m) (.method m')
  | conversion {o o' : ConversionOperator} :
    o.Relaid l o' → ClassMember.Relaid (.conversion o) (.conversion o')
  | nestedType {d d' : TypeDeclaration} :
    TypeDeclaration.Relaid d d' → ClassMember.Relaid (.nestedType d) (.nestedType d')
  | incomplete (r r' : Range) : ClassMember.Relaid (.incomplete r) (.incomplete r')

end

mutual

inductive Member.Relaid : Member → Member → Prop
  | namespaceMember {n n' : NamespaceDeclaration} :
    NamespaceDeclaration.Relaid n n' → Member.Relaid (.namespaceMember n) (.namespaceMember n')
  | typeMember {d d' : TypeDeclaration} :
    d.Relaid l d' → Member.Relaid (.typeMember d) (.typeMember d')
  | globalStatement {s s' : Stmt} :
    s.Relaid l s' → Member.Relaid (.globalStatement s) (.globalStatement s')
  | incomplete (r r' : Range) : Member.Relaid (.incomplete r) (.incomplete r')

/-- The directives of a namespace mean nothing to later stages. -/
inductive NamespaceDeclaration.Relaid : NamespaceDeclaration → NamespaceDeclaration → Prop
  | mk (r r' : Range) {t t' : TypeSyntax} (us us' : List UsingDirective) {ms ms' : List Member} :
    t.Relaid l t' → List.Forall₂ Member.Relaid ms ms' →
      NamespaceDeclaration.Relaid ⟨r, t, us, ms⟩ ⟨r', t', us', ms'⟩

end

structure CompilationUnit.Relaid (u u' : CompilationUnit) : Prop where
  members : List.Forall₂ (Member.Relaid l) u.members u'.members

end

variable {l : Relayout}

/-! ### What the parser asks of what it has read -/

theorem Expr.Relaid.range {e e' : Expr} (h : e.Relaid l e') : e.range.Relaid e'.range := by
  cases h
  case identifier h => exact h.range
  case literal h => exact h.range
  case initializer h =>
    cases h
    assumption
  case missing => exact Range.relaid_emptyAt _ _
  all_goals assumption

theorem Expr.Relaid.isStatementExpression {e e' : Expr} (h : e.Relaid l e') :
    e.isStatementExpression = e'.isStatementExpression := by
  cases h
  case prefixUnary ho _ => simp only [Expr.isStatementExpression, isStep, ho.kind]
  case postfixUnary ho => simp only [Expr.isStatementExpression, isStep, ho.kind]
  all_goals rfl

mutual

theorem TypeSyntax.containsMissing_relaid :
    (t : TypeSyntax) → {t' : TypeSyntax} → t.Relaid l t' → t.containsMissing = t'.containsMissing
  | .predefined _ _, _, h | .missing _, _, h => by
    cases h
    rfl
  | .name _, _, h => by
    cases h with
    | name hi => exact hi.isMissing
  | .qualified _ a b, _, h => by
    cases h with
    | qualified _ _ ha hb =>
      rw [containsMissing, containsMissing, a.containsMissing_relaid ha,
        b.containsMissing_relaid hb]
  | .generic _ _ ts, _, h => by
    cases h with
    | generic _ _ hi hts =>
      rw [containsMissing, containsMissing, hi.isMissing, anyMissing_relaid ts hts]
  | .nullable _ t, _, h => by
    cases h with
    | nullable _ _ ht =>
      rw [containsMissing, containsMissing, t.containsMissing_relaid ht]
  | .array _ t _, _, h => by
    cases h with
    | array _ _ _ ht =>
      rw [containsMissing, containsMissing, t.containsMissing_relaid ht]

theorem TypeSyntax.anyMissing_relaid :
    (ts : List TypeSyntax) → {ts' : List TypeSyntax} → List.Forall₂ (TypeSyntax.Relaid l) ts ts' →
      anyMissing ts = anyMissing ts'
  | [], _, .nil => rfl
  | t :: ts, _, .cons ht hts => by
    rw [anyMissing, anyMissing, t.containsMissing_relaid ht, anyMissing_relaid ts hts]

end

mutual

theorem Expr.containsMissing_relaid :
    (e : Expr) → {e' : Expr} → e.Relaid l e' → e.containsMissing = e'.containsMissing
  | .literal _, _, h | .thisWord _, _, h | .predefinedType _ _, _, h | .missing _, _, h => by
    cases h
    rfl
  | .identifier _, _, h => by
    cases h with
    | identifier hi => exact hi.isMissing
  | .parenthesized _ e, _, h | .prefixUnary _ _ e, _, h | .postfixUnary _ e _, _, h
  | .await _ e, _, h => by
    cases h
    have he := e.containsMissing_relaid ‹Expr.Relaid l e _›
    exact he
  | .binary _ a _ b, _, h => by
    cases h with
    | binary _ ha _ hb =>
      exact congrArg₂ or (a.containsMissing_relaid ha) (b.containsMissing_relaid hb)
  | .assignment _ a _ b, _, h => by
    cases h with
    | assignment _ ha _ hb =>
      exact congrArg₂ or (a.containsMissing_relaid ha) (b.containsMissing_relaid hb)
  | .conditional _ c t f, _, h => by
    cases h with
    | conditional _ hc ht hf =>
      exact congrArg₂ or
        (congrArg₂ or (c.containsMissing_relaid hc) (t.containsMissing_relaid ht))
        (f.containsMissing_relaid hf)
  | .cast _ t e, _, h => by
    cases h with
    | cast _ ht he =>
      exact congrArg₂ or (t.containsMissing_relaid ht) (e.containsMissing_relaid he)
  | .typeTest _ e _ t, _, h => by
    cases h with
    | typeTest _ he _ ht =>
      exact congrArg₂ or (e.containsMissing_relaid he) (t.containsMissing_relaid ht)
  | .memberAccess _ e _ _, _, h => by
    cases h with
    | memberAccess _ he _ hi => exact congrArg₂ or (e.containsMissing_relaid he) hi.isMissing
  | .invocation _ e es, _, h => by
    cases h with
    | invocation _ he hes =>
      exact congrArg₂ or (e.containsMissing_relaid he) (Expr.anyMissing_relaid es hes)
  | .elementAccess _ e es, _, h => by
    cases h with
    | elementAccess _ he hes =>
      exact congrArg₂ or (e.containsMissing_relaid he) (Expr.anyMissing_relaid es hes)
  | .objectCreation _ t _ _, _, h => by
    cases h with
    | objectCreation _ ht hes hi =>
      have ht := t.containsMissing_relaid ht
      cases hes with
      | none =>
        cases hi with
        | none => exact congrArg₂ or (congrArg₂ or ht rfl) rfl
        | some hi =>
          exact congrArg₂ or (congrArg₂ or ht rfl) (Initializer.containsMissing_relaid _ hi)
      | some hes =>
        have hes := congrArg₂ or ht (Expr.anyMissing_relaid _ hes)
        cases hi with
        | none => exact congrArg₂ or hes rfl
        | some hi => exact congrArg₂ or hes (Initializer.containsMissing_relaid _ hi)
  | .arrayCreation _ t es _, _, h => by
    cases h with
    | arrayCreation _ ht hes hi =>
      have hes := congrArg₂ or (t.containsMissing_relaid ht) (Expr.anyMissing_relaid es hes)
      cases hi with
      | none => exact congrArg₂ or hes rfl
      | some hi => exact congrArg₂ or hes (Initializer.containsMissing_relaid _ hi)
  | .implicitArrayCreation _ i, _, h => by
    cases h with
    | implicitArrayCreation _ hi => exact i.containsMissing_relaid hi
  | .initializer i, _, h => by
    cases h with
    | initializer hi => exact i.containsMissing_relaid hi
  | .query _ c b, _, h => by
    cases h with
    | query _ hc hb =>
      exact congrArg₂ or (c.containsMissing_relaid hc) (b.containsMissing_relaid hb)
termination_by structural x => x

theorem Expr.anyMissing_relaid :
    (es : List Expr) → {es' : List Expr} → List.Forall₂ (Expr.Relaid l) es es' →
      Expr.anyMissing es = Expr.anyMissing es'
  | [], _, .nil => rfl
  | e :: es, _, .cons he hes =>
    congrArg₂ or (e.containsMissing_relaid he) (Expr.anyMissing_relaid es hes)
termination_by structural x => x

theorem Initializer.containsMissing_relaid :
    (i : Initializer) → {i' : Initializer} → i.Relaid l i' → i.containsMissing = i'.containsMissing
  | ⟨_, es⟩, _, .mk _ hes => Expr.anyMissing_relaid es hes
termination_by structural x => x

theorem FromClause.containsMissing_relaid :
    (c : FromClause) → {c' : FromClause} → c.Relaid l c' → c.containsMissing = c'.containsMissing
  | ⟨_, _, _, e⟩, _, .mk _ _ ht hi he => by
    have he := e.containsMissing_relaid he
    cases ht with
    | none => exact congrArg₂ or (congrArg₂ or rfl hi.isMissing) he
    | some ht =>
      exact congrArg₂ or (congrArg₂ or (TypeSyntax.containsMissing_relaid _ ht) hi.isMissing) he
termination_by structural x => x

theorem SortKey.anyMissing_relaid :
    (ks : List SortKey) → {ks' : List SortKey} → List.Forall₂ (SortKey.Relaid l) ks ks' →
      SortKey.anyMissing ks = SortKey.anyMissing ks'
  | [], _, .nil => rfl
  | ⟨_, e, _⟩ :: ks, _, .cons (.mk _ _ _ he) hks =>
    congrArg₂ or (e.containsMissing_relaid he) (SortKey.anyMissing_relaid ks hks)
termination_by structural x => x

theorem QueryClause.anyMissing_relaid :
    (qs : List QueryClause) → {qs' : List QueryClause} →
      List.Forall₂ (QueryClause.Relaid l) qs qs' →
      QueryClause.anyMissing qs = QueryClause.anyMissing qs'
  | [], _, .nil => rfl
  | .fromClause c :: qs, _, .cons (.fromClause hc) hqs =>
    congrArg₂ or (c.containsMissing_relaid hc) (QueryClause.anyMissing_relaid qs hqs)
  | .letClause _ _ e :: qs, _, .cons (.letClause _ _ hi he) hqs =>
    congrArg₂ or (congrArg₂ or hi.isMissing (e.containsMissing_relaid he))
      (QueryClause.anyMissing_relaid qs hqs)
  | .whereClause _ e :: qs, _, .cons (.whereClause _ _ he) hqs =>
    congrArg₂ or (e.containsMissing_relaid he) (QueryClause.anyMissing_relaid qs hqs)
  | .orderByClause _ ks :: qs, _, .cons (.orderByClause _ _ hks) hqs =>
    congrArg₂ or (SortKey.anyMissing_relaid ks hks) (QueryClause.anyMissing_relaid qs hqs)
termination_by structural x => x

theorem QueryEnding.containsMissing_relaid :
    (q : QueryEnding) → {q' : QueryEnding} → q.Relaid l q' →
      q.containsMissing = q'.containsMissing
  | .select _ e, _, .select _ _ he => e.containsMissing_relaid he
  | .group _ e k, _, .group _ _ he hk =>
    congrArg₂ or (e.containsMissing_relaid he) (k.containsMissing_relaid hk)
  | .missing _, _, .missing _ _ => rfl
termination_by structural x => x

theorem QueryBody.containsMissing_relaid :
    (b : QueryBody) → {b' : QueryBody} → b.Relaid l b' → b.containsMissing = b'.containsMissing
  | ⟨_, qs, e, _⟩, _, .mk _ _ hqs he hk => by
    have he := congrArg₂ or (QueryClause.anyMissing_relaid qs hqs) (e.containsMissing_relaid he)
    cases hk with
    | none => exact congrArg₂ or he rfl
    | some hk => exact congrArg₂ or he (Continuation.containsMissing_relaid _ hk)
termination_by structural x => x

theorem Continuation.containsMissing_relaid :
    (k : Continuation) → {k' : Continuation} → k.Relaid l k' →
      k.containsMissing = k'.containsMissing
  | ⟨_, _, b⟩, _, .mk _ _ hi hb => congrArg₂ or hi.isMissing (b.containsMissing_relaid hb)
termination_by structural x => x

end

/-! ### Bodies in two layouts -/

theorem Block.statementsOf_relaid {b? b?' : Option Block}
    (h : Option.Rel (Block.Relaid l) b? b?') :
    List.Forall₂ (List.Forall₂ (Stmt.Relaid l)) (statementsOf b?) (statementsOf b?') := by
  cases h with
  | none => exact .nil
  | some h =>
    cases h with
    | mk _ _ _ _ _ _ hss => exact .cons hss .nil

mutual

theorem TypeDeclaration.bodies_relaid :
    (d : TypeDeclaration) → {d' : TypeDeclaration} → d.Relaid l d' →
      List.Forall₂ (List.Forall₂ (Stmt.Relaid l)) d.bodies d'.bodies
  | ⟨_, _, _, _, ms⟩, _, .mk _ _ _ _ _ hms => ClassMember.allBodies_relaid ms hms

theorem ClassMember.bodies_relaid :
    (m : ClassMember) → {m' : ClassMember} → m.Relaid l m' →
      List.Forall₂ (List.Forall₂ (Stmt.Relaid l)) m.bodies m'.bodies
  | .method _, _, .method h => Block.statementsOf_relaid h.body
  | .conversion _, _, .conversion h => Block.statementsOf_relaid h.body
  | .nestedType d, _, .nestedType hd => d.bodies_relaid hd
  | .field _, _, .field _ | .incomplete _, _, .incomplete _ _ => .nil

theorem ClassMember.allBodies_relaid :
    (ms : List ClassMember) → {ms' : List ClassMember} →
      List.Forall₂ (ClassMember.Relaid l) ms ms' →
      List.Forall₂ (List.Forall₂ (Stmt.Relaid l)) (ClassMember.allBodies ms)
        (ClassMember.allBodies ms')
  | [], _, .nil => .nil
  | m :: ms, _, .cons hm hms =>
    List.rel_append (m.bodies_relaid hm) (ClassMember.allBodies_relaid ms hms)

end

mutual

theorem Member.bodies_relaid :
    (m : Member) → {m' : Member} → m.Relaid l m' →
      List.Forall₂ (List.Forall₂ (Stmt.Relaid l)) m.bodies m'.bodies
  | .namespaceMember n, _, .namespaceMember hn => n.bodies_relaid hn
  | .typeMember d, _, .typeMember hd => d.bodies_relaid hd
  | .globalStatement _, _, .globalStatement _ | .incomplete _, _, .incomplete _ _ => .nil

theorem Member.allBodies_relaid :
    (ms : List Member) → {ms' : List Member} → List.Forall₂ (Member.Relaid l) ms ms' →
      List.Forall₂ (List.Forall₂ (Stmt.Relaid l)) (Member.allBodies ms) (Member.allBodies ms')
  | [], _, .nil => .nil
  | m :: ms, _, .cons hm hms =>
    List.rel_append (m.bodies_relaid hm) (Member.allBodies_relaid ms hms)

theorem NamespaceDeclaration.bodies_relaid :
    (n : NamespaceDeclaration) → {n' : NamespaceDeclaration} → n.Relaid l n' →
      List.Forall₂ (List.Forall₂ (Stmt.Relaid l)) n.bodies n'.bodies
  | ⟨_, _, _, ms⟩, _, .mk _ _ _ _ _ hms => Member.allBodies_relaid ms hms

end

namespace CompilationUnit.Relaid

variable {u u' : CompilationUnit}

theorem globalStatements (h : u.Relaid l u') :
    List.Forall₂ (Stmt.Relaid l) u.globalStatements u'.globalStatements :=
  List.rel_filterMap (fun _ _ hm => by
    cases hm with
    | globalStatement hs => exact .some hs
    | namespaceMember | typeMember | incomplete => exact .none) h.members

theorem bodies (h : u.Relaid l u') :
    List.Forall₂ (List.Forall₂ (Stmt.Relaid l)) u.bodies u'.bodies :=
  .cons h.globalStatements (Member.allBodies_relaid _ h.members)

end CompilationUnit.Relaid

end CSharpFront
