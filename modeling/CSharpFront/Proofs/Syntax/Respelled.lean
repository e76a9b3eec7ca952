import CSharpFront.Syntax.Tree
import Mathlib.Data.List.Forall2
/-!
Trees that are the same but for their names. `Respelled` relates trees of one shape with the same
places, literals and tokens, in which the identifiers correspond one by one to each other.
-/

namespace CSharpFront

section

variable (names : Identifier → Identifier → Prop)

/-! ### Types and expressions -/

inductive TypeSyntax.Respelled : TypeSyntax → TypeSyntax → Prop
  | predefined (r : Range) (s : SpecialType) : Respelled (.predefined r s) (.predefined r s)
  | name {i i' : Identifier} : names i i' → Respelled (.name i) (.name i')
  | qualified (r : Range) {a a' b b' : TypeSyntax} :
    Respelled a a' → Respelled b b' → Respelled (.qualified r a b) (.qualified r a' b')
  | generic (r : Range) {i i' : Identifier} {ts ts' : List TypeSyntax} :
    names i i' → List.Forall₂ Respelled ts ts' → Respelled (.generic r i ts) (.generic r i' ts')
  | nullable (r : Range) {t t' : TypeSyntax} :
    Respelled t t' → Respelled (.nullable r t) (.nullable r t')
  | array (r : Range) {t t' : TypeSyntax} (rank : Nat) :
    Respelled t t' → Respelled (.array r t rank) (.array r t' rank)
  | missing (p : Nat) : Respelled (.missing p) (.missing p)

mutual

inductive Expr.Respelled : Expr → Expr → Prop
  | identifier {i i' : Identifier} :
    names i i' → Expr.Respelled (.identifier i) (.identifier i')
  | literal (a : Literal) : Expr.Respelled (.literal a) (.literal a)
  | thisWord (r : Range) : Expr.Respelled (.thisWord r) (.thisWord r)
  | predefinedType (r : Range) (s : SpecialType) :
    Expr.Respelled (.predefinedType r s) (.predefinedType r s)
  | parenthesized (r : Range) {e e' : Expr} :
    Expr.Respelled e e' → Expr.Respelled (.parenthesized r e) (.parenthesized r e')
  | binary (r : Range) {a a' b b' : Expr} (o : Leaf) :
    Expr.Respelled a a' → Expr.Respelled b b' → Expr.Respelled (.binary r a o b) (.binary r a' o b')
  | assignment (r : Range) {a a' b b' : Expr} (o : Leaf) :
    Expr.Respelled a a' → Expr.Respelled b b' →
      Expr.Respelled (.assignment r a o b) (.assignment r a' o b')
  | conditional (r : Range) {c c' t t' f f' : Expr} :
    Expr.Respelled c c' → Expr.Respelled t t' → Expr.Respelled f f' →
      Expr.Respelled (.conditional r c t f) (.conditional r c' t' f')
  | prefixUnary (r : Range) (o : Leaf) {e e' : Expr} :
    Expr.Respelled e e' → Expr.Respelled (.prefixUnary r o e) (.prefixUnary r o e')
  | postfixUnary (r : Range) {e e' : Expr} (o : Leaf) :
    Expr.Respelled e e' → Expr.Respelled (.postfixUnary r e o) (.postfixUnary r e' o)
  | cast (r : Range) {t t' : TypeSyntax} {e e' : Expr} :
    t.Respelled names t' → Expr.Respelled e e' → Expr.Respelled (.cast r t e) (.cast r t' e')
  | typeTest (r : Range) {e e' : Expr} (o : Leaf) {t t' : TypeSyntax} :
    Expr.Respelled e e' → t.Respelled names t' →
      Expr.Respelled (.typeTest r e o t) (.typeTest r e' o t')
  | memberAccess (r : Range) {e e' : Expr} (o : Leaf) {i i' : Identifier} :
    Expr.Respelled e e' → names i i' →
      Expr.Respelled (.memberAccess r e o i) (.memberAccess r e' o i')
  | invocation (r : Range) {e e' : Expr} {es es' : List Expr} :
    Expr.Respelled e e' → List.Forall₂ Expr.Respelled es es' →
      Expr.Respelled (.invocation r e es) (.invocation r e' es')
  | elementAccess (r : Range) {e e' : Expr} {es es' : List Expr} :
    Expr.Respelled e e' → List.Forall₂ Expr.Respelled es es' →
      Expr.Respelled (.elementAccess r e es) (.elementAccess r e' es')
  | objectCreation (r : Range) {t t' : TypeSyntax} {es? es?' : Option (List Expr)}
      {i? i?' : Option Initializer} :
    t.Respelled names t' → Option.Rel (List.Forall₂ Expr.Respelled) es? es?' →
      Option.Rel Initializer.Respelled i? i?' →
      Expr.Respelled (.objectCreation r t es? i?) (.objectCreation r t' es?' i?')
  | arrayCreation (r : Range) {t t' : TypeSyntax} {es es' : List Expr}
      {i? i?' : Option Initializer} :
    t.Respelled names t' → List.Forall₂ Expr.Respelled es es' →
      Option.Rel Initializer.Respelled i? i?' →
      Expr.Respelled (.arrayCreation r t es i?) (.arrayCreation r t' es' i?')
  | implicitArrayCreation (r : Range) {i i' : Initializer} :
    Initializer.Respelled i i' →
      Expr.Respelled (.implicitArrayCreation r i) (.implicitArrayCreation r i')
  | initializer {i i' : Initializer} :
    Initializer.Respelled i i' → Expr.Respelled (.initializer i) (.initializer i')
  | await (r : Range) {e e' : Expr} :
    Expr.Respelled e e' → Expr.Respelled (.await r e) (.await r e')
  | query (r : Range) {c c' : FromClause} {b b' : QueryBody} :
    FromClause.Respelled c c' → QueryBody.Respelled b b' →
      Expr.Respelled (.query r c b) (.query r c' b')
  | missing (p : Nat) : Expr.Respelled (.missing p) (.missing p)

inductive Initializer.Respelled : Initializer → Initializer → Prop
  | mk (r : Range) {es es' : List Expr} :
    List.Forall₂ Expr.Respelled es es' → Initializer.Respelled ⟨r, es⟩ ⟨r, es'⟩

inductive FromClause.Respelled : FromClause → FromClause → Prop
  | mk (r : Range) {t? t?' : Option TypeSyntax} {i i' : Identifier} {e e' : Expr} :
    Option.Rel (TypeSyntax.Respelled names) t? t?' → names i i' → Expr.Respelled e e' →
      FromClause.Respelled ⟨r, t?, i, e⟩ ⟨r, t?', i', e'⟩

inductive SortKey.Respelled : SortKey → SortKey → Prop
  | mk (r : Range) {e e' : Expr} (isDescending : Bool) :
    Expr.Respelled e e' → SortKey.Respelled ⟨r, e, isDescending⟩ ⟨r, e', isDescending⟩

inductive QueryClause.Respelled : QueryClause → QueryClause → Prop
  | fromClause {c c' : FromClause} :
    FromClause.Respelled c c' → QueryClause.Respelled (.fromClause c) (.fromClause c')
  | letClause (r : Range) {i i' : Identifier} {e e' : Expr} :
    names i i' → Expr.Respelled e e' → QueryClause.Respelled (.letClause r i e) (.letClause r i' e')
  | whereClause (r : Range) {e e' : Expr} :
    Expr.Respelled e e' → QueryClause.Respelled (.whereClause r e) (.whereClause r e')
  | orderByClause (r : Range) {ks ks' : List SortKey} :
    List.Forall₂ SortKey.Respelled ks ks' →
      QueryClause.Respelled (.orderByClause r ks) (.orderByClause r ks')

inductive QueryEnding.Respelled : QueryEnding → QueryEnding → Prop
  | select (r : Range) {e e' : Expr} :
    Expr.Respelled e e' → QueryEnding.Respelled (.select r e) (.select r e')
  | group (r : Range) {e e' k k' : Expr} :
    Expr.Respelled e e' → Expr.Respelled k k' →
      QueryEnding.Respelled (.group r e k) (.group r e' k')
  | missing (p : Nat) : QueryEnding.Respelled (.missing p) (.missing p)

inductive QueryBody.Respelled : QueryBody → QueryBody → Prop
  | mk (r : Range) {qs qs' : List QueryClause} {e e' : QueryEnding}
      {k? k?' : Option Continuation} :
    List.Forall₂ QueryClause.Respelled qs qs' → QueryEnding.Respelled e e' →
      Option.Rel Continuation.Respelled k? k?' →
      QueryBody.Respelled ⟨r, qs, e, k?⟩ ⟨r, qs', e', k?'⟩

inductive Continuation.Respelled : Continuation → Continuation → Prop
  | mk (r : Range) {i i' : Identifier} {b b' : QueryBody} :
    names i i' → QueryBody.Respelled b b' → Continuation.Respelled ⟨r, i, b⟩ ⟨r, i', b'⟩

end

/-! ### Statements -/

structure Declarator.Respelled (d d' : Declarator) : Prop where
  range : d.range = d'.range
  identifier : names d.identifier d'.identifier
  initializer : Option.Rel (Expr.Respelled names) d.initializer? d'.initializer?

structure VariableDeclaration.Respelled (d d' : VariableDeclaration) : Prop where
  range : d.range = d'.range
  type : d.type.Respelled names d'.type
  declarators : List.Forall₂ (Declarator.Respelled names) d.declarators d'.declarators

inductive ForInitializer.Respelled : ForInitializer → ForInitializer → Prop
  | declaration {d d' : VariableDeclaration} :
    d.Respelled names d' → Respelled (.declaration d) (.declaration d')
  | expressions {es es' : List Expr} :
    List.Forall₂ (Expr.Respelled names) es es' → Respelled (.expressions es) (.expressions es')

structure ForHeader.Respelled (h h' : ForHeader) : Prop where
  forWord : h.forWord = h'.forWord
  openParen : h.openParen = h'.openParen
  initializer : Option.Rel (ForInitializer.Respelled names) h.initializer? h'.initializer?
  firstSemicolon : h.firstSemicolon = h'.firstSemicolon
  condition : Option.Rel (Expr.Respelled names) h.condition? h'.condition?
  secondSemicolon : h.secondSemicolon = h'.secondSemicolon
  incrementors : List.Forall₂ (Expr.Respelled names) h.incrementors h'.incrementors
  closeParen : h.closeParen = h'.closeParen

mutual

inductive Stmt.Respelled : Stmt → Stmt → Prop
  | block {b b' : Block} : Block.Respelled b b' → Stmt.Respelled (.block b) (.block b')
  | empty (r : Range) : Stmt.Respelled (.empty r) (.empty r)
  | localDeclaration (r : Range) (ms : Modifiers) {d d' : VariableDeclaration} (o : Leaf) :
    d.Respelled names d' → Stmt.Respelled (.localDeclaration r ms d o) (.localDeclaration r ms d' o)
  | expression (r : Range) {e e' : Expr} (o : Leaf) :
    e.Respelled names e' → Stmt.Respelled (.expression r e o) (.expression r e' o)
  | ifElse (r : Range) {e e' : Expr} {s s' : Stmt} {s? s?' : Option Stmt} :
    e.Respelled names e' → Stmt.Respelled s s' → Option.Rel Stmt.Respelled s? s?' →
      Stmt.Respelled (.ifElse r e s s?) (.ifElse r e' s' s?')
  | whileLoop (r : Range) {e e' : Expr} {s s' : Stmt} :
    e.Respelled names e' → Stmt.Respelled s s' →
      Stmt.Respelled (.whileLoop r e s) (.whileLoop r e' s')
  | doLoop (r : Range) {s s' : Stmt} {e e' : Expr} :
    Stmt.Respelled s s' → e.Respelled names e' → Stmt.Respelled (.doLoop r s e) (.doLoop r s' e')
  | forLoop (r : Range) {h h' : ForHeader} {s s' : Stmt} :
    h.Respelled names h' → Stmt.Respelled s s' → Stmt.Respelled (.forLoop r h s) (.forLoop r h' s')
  | returnValue (r : Range) {e? e?' : Option Expr} :
    Option.Rel (Expr.Respelled names) e? e?' →
      Stmt.Respelled (.returnValue r e?) (.returnValue r e?')
  | breakLoop (r : Range) : Stmt.Respelled (.breakLoop r) (.breakLoop r)
  | continueLoop (r : Range) : Stmt.Respelled (.continueLoop r) (.continueLoop r)
  | goto (r : Range) {i i' : Identifier} :
    names i i' → Stmt.Respelled (.goto r i) (.goto r i')
  | labeled (r : Range) {i i' : Identifier} {s s' : Stmt} :
    names i i' → Stmt.Respelled s s' → Stmt.Respelled (.labeled r i s) (.labeled r i' s')

inductive Block.Respelled : Block → Block → Prop
  | mk (r : Range) (o c : Leaf) {ss ss' : List Stmt} :
    List.Forall₂ Stmt.Respelled ss ss' → Block.Respelled ⟨r, o, ss, c⟩ ⟨r, o, ss', c⟩

end

/-! ### Declarations -/

structure UsingDirective.Respelled (d d' : UsingDirective) : Prop where
  range : d.range = d'.range
  isStatic : d.isStatic = d'.isStatic
  alias? : Option.Rel names d.alias? d'.alias?
  name : d.name.Respelled names d'.name

structure Parameter.Respelled (p p' : Parameter) : Prop where
  range : p.range = p'.range
  modifier : p.modifier? = p'.modifier?
  type : p.type.Respelled names p'.type
  identifier : names p.identifier p'.identifier

structure Field.Respelled (f f' : Field) : Prop where
  range : f.range = f'.range
  modifiers : f.modifiers = f'.modifiers
  declaration : f.declaration.Respelled names f'.declaration

structure Method.Respelled (m m' : Method) : Prop where
  range : m.range = m'.range
  modifiers : m.modifiers = m'.modifiers
  returnType : Option.Rel (TypeSyntax.Respelled names) m.returnType? m'.returnType?
  identifier : names m.identifier m'.identifier
  parameters : List.Forall₂ (Parameter.Respelled names) m.parameters m'.parameters
  body : Option.Rel (Block.Respelled names) m.body? m'.body?

structure ConversionOperator.Respelled (o o' : ConversionOperator) : Prop where
  range : o.range = o'.range
  modifiers : o.modifiers = o'.modifiers
  kind : o.kind = o'.kind
  type : o.type.Respelled names o'.type
  parameters : List.Forall₂ (Parameter.Respelled names) o.parameters o'.parameters
  body : Option.Rel (Block.Respelled names) o.body? o'.body?

mutual

inductive TypeDeclaration.Respelled : TypeDeclaration → TypeDeclaration → Prop
  | mk (r : Range) (isStruct : Bool) (modifiers : Modifiers) {i i' : Identifier}
      {ms ms' : List ClassMember} :
    names i i' → List.Forall₂ ClassMember.Respelled ms ms' →
      TypeDeclaration.Respelled ⟨r, isStruct, modifiers, i, ms⟩ ⟨r, isStruct, modifiers, i', ms'⟩

inductive ClassMember.Respelled : ClassMember → ClassMember → Prop
  | field {f f' : Field} : f.Respelled names f' → ClassMember.Respelled (.field f) (.field f')
  | method {m m' : Method} : m.Respelled names m' → ClassMember.Respelled (.method m) (.method m')
  | conversion {o o' : ConversionOperator} :
    o.Respelled names o' → ClassMember.Respelled (.conversion o) (.conversion o')
  | nestedType {d d' : TypeDeclaration} :
    TypeDeclaration.Respelled d d' → ClassMember.Respelled (.nestedType d) (.nestedType d')
  | incomplete (r : Range) : ClassMember.Respelled (.incomplete r) (.incomplete r)

end

mutual

inductive Member.Respelled : Member → Member → Prop
  | namespaceMember {n n' : NamespaceDeclaration} :
    NamespaceDeclaration.Respelled n n' →
      Member.Respelled (.namespaceMember n) (.namespaceMember n')
  | typeMember {d d' : TypeDeclaration} :
    d.Respelled names d' → Member.Respelled (.typeMember d) (.typeMember d')
  | globalStatement {s s' : Stmt} :
    s.Respelled names s' → Member.Respelled (.globalStatement s) (.globalStatement s')
  | incomplete (r : Range) : Member.Respelled (.incomplete r) (.incomplete r)

inductive NamespaceDeclaration.Respelled : NamespaceDeclaration → NamespaceDeclaration → Prop
  | mk (r : Range) {t t' : TypeSyntax} {us us' : List UsingDirective} {ms ms' : List Member} :
    t.Respelled names t' → List.Forall₂ (UsingDirective.Respelled names) us us' →
      List.Forall₂ Member.Respelled ms ms' →
      NamespaceDeclaration.Respelled ⟨r, t, us, ms⟩ ⟨r, t', us', ms'⟩

end

structure CompilationUnit.Respelled (u u' : CompilationUnit) : Prop where
  range : u.range = u'.range
  usings : List.Forall₂ (UsingDirective.Respelled names) u.usings u'.usings
  members : List.Forall₂ (Member.Respelled names) u.members u'.members
  endOfFile : u.endOfFile = u'.endOfFile

end

/-! ### What the parser asks of what it has read -/

variable {names : Identifier → Identifier → Prop}

theorem Expr.Respelled.isStatementExpression {e e' : Expr} (h : e.Respelled names e') :
    e.isStatementExpression = e'.isStatementExpression := by
  cases h <;> rfl

/-- Names that correspond stand in one place. -/
abbrev SameRange (names : Identifier → Identifier → Prop) : Prop :=
  ∀ i i', names i i' → i.range = i'.range

theorem TypeSyntax.Respelled.range (hr : SameRange names) {t t' : TypeSyntax}
    (h : t.Respelled names t') : t.range = t'.range := by
  cases h
  case name h => exact hr _ _ h
  all_goals rfl

theorem Expr.Respelled.range (hr : SameRange names) {e e' : Expr} (h : e.Respelled names e') :
    e.range = e'.range := by
  cases h
  case identifier h => exact hr _ _ h
  case initializer h =>
    cases h
    rfl
  all_goals rfl

/-- Names that have been made up correspond to such names. -/
abbrev SameMissing (names : Identifier → Identifier → Prop) : Prop :=
  ∀ i i', names i i' → i.isMissing = i'.isMissing

mutual

theorem TypeSyntax.containsMissing_respelled (hm : SameMissing names) :
    (t : TypeSyntax) → {t' : TypeSyntax} → t.Respelled names t' →
      t.containsMissing = t'.containsMissing
  | .predefined _ _, _, h | .missing _, _, h => by
    cases h
    rfl
  | .name _, _, h => by
    cases h with
    | name hi => exact hm _ _ hi
  | .qualified _ a b, _, h => by
    cases h with
    | qualified _ ha hb =>
      rw [containsMissing, containsMissing, a.containsMissing_respelled hm ha,
        b.containsMissing_respelled hm hb]
  | .generic _ _ ts, _, h => by
    cases h with
    | generic _ hi hts =>
      rw [containsMissing, containsMissing, hm _ _ hi, anyMissing_respelled hm ts hts]
  | .nullable _ t, _, h => by
    cases h with
    | nullable _ ht =>
      rw [containsMissing, containsMissing, t.containsMissing_respelled hm ht]
  | .array _ t _, _, h => by
    cases h with
    | array _ _ ht =>
      rw [containsMissing, containsMissing, t.containsMissing_respelled hm ht]

theorem TypeSyntax.anyMissing_respelled (hm : SameMissing names) :
    (ts : List TypeSyntax) → {ts' : List TypeSyntax} →
      List.Forall₂ (TypeSyntax.Respelled names) ts ts' → anyMissing ts = anyMissing ts'
  | [], _, .nil => rfl
  | t :: ts, _, .cons ht hts => by
    rw [anyMissing, anyMissing, t.containsMissing_respelled hm ht, anyMissing_respelled hm ts hts]

end

mutual

theorem Expr.containsMissing_respelled (hm : SameMissing names) :
    (e : Expr) → {e' : Expr} → e.Respelled names e' → e.containsMissing = e'.containsMissing
  | .literal _, _, h | .thisWord _, _, h | .predefinedType _ _, _, h | .missing _, _, h => by
    cases h
    rfl
  | .identifier _, _, h => by
    cases h with
    | identifier hi => exact hm _ _ hi
  | .parenthesized _ e, _, h | .prefixUnary _ _ e, _, h | .postfixUnary _ e _, _, h
  | .await _ e, _, h => by
    cases h
    have he := e.containsMissing_respelled hm ‹Expr.Respelled names e _›
    exact he
  | .binary _ a _ b, _, h => by
    cases h with
    | binary _ _ ha hb =>
      exact congrArg₂ or (a.containsMissing_respelled hm ha) (b.containsMissing_respelled hm hb)
  | .assignment _ a _ b, _, h => by
    cases h with
    | assignment _ _ ha hb =>
      exact congrArg₂ or (a.containsMissing_respelled hm ha) (b.containsMissing_respelled hm hb)
  | .conditional _ c t f, _, h => by
    cases h with
    | conditional _ hc ht hf =>
      exact congrArg₂ or
        (congrArg₂ or (c.containsMissing_respelled hm hc) (t.containsMissing_respelled hm ht))
        (f.containsMissing_respelled hm hf)
  | .cast _ t e, _, h => by
    cases h with
    | cast _ ht he =>
      exact congrArg₂ or (t.containsMissing_respelled hm ht) (e.containsMissing_respelled hm he)
  | .typeTest _ e _ t, _, h => by
    cases h with
    | typeTest _ _ he ht =>
      exact congrArg₂ or (e.containsMissing_respelled hm he) (t.containsMissing_respelled hm ht)
  | .memberAccess _ e _ _, _, h => by
    cases h with
    | memberAccess _ _ he hi => exact congrArg₂ or (e.containsMissing_respelled hm he) (hm _ _ hi)
  | .invocation _ e es, _, h => by
    cases h with
    | invocation _ he hes =>
      exact congrArg₂ or (e.containsMissing_respelled hm he) (Expr.anyMissing_respelled hm es hes)
  | .elementAccess _ e es, _, h => by
    cases h with
    | elementAccess _ he hes =>
      exact congrArg₂ or (e.containsMissing_respelled hm he) (Expr.anyMissing_respelled hm es hes)
  | .objectCreation _ t _ _, _, h => by
    cases h with
    | objectCreation _ ht hes hi =>
      have ht := t.containsMissing_respelled hm ht
      cases hes with
      | none =>
        cases hi with
        | none => exact congrArg₂ or (congrArg₂ or ht rfl) rfl
        | some hi =>
          exact congrArg₂ or (congrArg₂ or ht rfl) (Initializer.containsMissing_respelled hm _ hi)
      | some hes =>
        have hes := congrArg₂ or ht (Expr.anyMissing_respelled hm _ hes)
        cases hi with
        | none => exact congrArg₂ or hes rfl
        | some hi => exact congrArg₂ or hes (Initializer.containsMissing_respelled hm _ hi)
  | .arrayCreation _ t es _, _, h => by
    cases h with
    | arrayCreation _ ht hes hi =>
      have hes := congrArg₂ or (t.containsMissing_respelled hm ht)
        (Expr.anyMissing_respelled hm es hes)
      cases hi with
      | none => exact congrArg₂ or hes rfl
      | some hi => exact congrArg₂ or hes (Initializer.containsMissing_respelled hm _ hi)
  | .implicitArrayCreation _ i, _, h => by
    cases h with
    | implicitArrayCreation _ hi => exact i.containsMissing_respelled hm hi
  | .initializer i, _, h => by
    cases h with
    | initializer hi => exact i.containsMissing_respelled hm hi
  | .query _ c b, _, h => by
    cases h with
    | query _ hc hb =>
      exact congrArg₂ or (c.containsMissing_respelled hm hc) (b.containsMissing_respelled hm hb)
termination_by structural x => x

theorem Expr.anyMissing_respelled (hm : SameMissing names) :
    (es : List Expr) → {es' : List Expr} → List.Forall₂ (Expr.Respelled names) es es' →
      Expr.anyMissing es = Expr.anyMissing es'
  | [], _, .nil => rfl
  | e :: es, _, .cons he hes =>
    congrArg₂ or (e.containsMissing_respelled hm he) (Expr.anyMissing_respelled hm es hes)
termination_by structural x => x

theorem Initializer.containsMissing_respelled (hm : SameMissing names) :
    (i : Initializer) → {i' : Initializer} → i.Respelled names i' →
      i.containsMissing = i'.containsMissing
  | ⟨_, es⟩, _, .mk _ hes => Expr.anyMissing_respelled hm es hes
termination_by structural x => x

theorem FromClause.containsMissing_respelled (hm : SameMissing names) :
    (c : FromClause) → {c' : FromClause} → c.Respelled names c' →
      c.containsMissing = c'.containsMissing
  | ⟨_, _, _, e⟩, _, .mk _ ht hi he => by
    have he := e.containsMissing_respelled hm he
    cases ht with
    | none => exact congrArg₂ or (congrArg₂ or rfl (hm _ _ hi)) he
    | some ht =>
      have ht := TypeSyntax.containsMissing_respelled hm _ ht
      exact congrArg₂ or (congrArg₂ or ht (hm _ _ hi)) he
termination_by structural x => x

theorem SortKey.anyMissing_respelled (hm : SameMissing names) :
    (ks : List SortKey) → {ks' : List SortKey} → List.Forall₂ (SortKey.Respelled names) ks ks' →
      SortKey.anyMissing ks = SortKey.anyMissing ks'
  | [], _, .nil => rfl
  | ⟨_, e, _⟩ :: ks, _, .cons (.mk _ _ he) hks =>
    congrArg₂ or (e.containsMissing_respelled hm he) (SortKey.anyMissing_respelled hm ks hks)
termination_by structural x => x

theorem QueryClause.anyMissing_respelled (hm : SameMissing names) :
    (qs : List QueryClause) → {qs' : List QueryClause} →
      List.Forall₂ (QueryClause.Respelled names) qs qs' →
      QueryClause.anyMissing qs = QueryClause.anyMissing qs'
  | [], _, .nil => rfl
  | .fromClause c :: qs, _, .cons (.fromClause hc) hqs =>
    congrArg₂ or (c.containsMissing_respelled hm hc) (QueryClause.anyMissing_respelled hm qs hqs)
  | .letClause _ _ e :: qs, _, .cons (.letClause _ hi he) hqs =>
    congrArg₂ or (congrArg₂ or (hm _ _ hi) (e.containsMissing_respelled hm he))
      (QueryClause.anyMissing_respelled hm qs hqs)
  | .whereClause _ e :: qs, _, .cons (.whereClause _ he) hqs =>
    congrArg₂ or (e.containsMissing_respelled hm he) (QueryClause.anyMissing_respelled hm qs hqs)
  | .orderByClause _ ks :: qs, _, .cons (.orderByClause _ hks) hqs =>
    congrArg₂ or (SortKey.anyMissing_respelled hm ks hks)
      (QueryClause.anyMissing_respelled hm qs hqs)
termination_by structural x => x

theorem QueryEnding.containsMissing_respelled (hm : SameMissing names) :
    (q : QueryEnding) → {q' : QueryEnding} → q.Respelled names q' →
      q.containsMissing = q'.containsMissing
  | .select _ e, _, .select _ he => e.containsMissing_respelled hm he
  | .group _ e k, _, .group _ he hk =>
    congrArg₂ or (e.containsMissing_respelled hm he) (k.containsMissing_respelled hm hk)
  | .missing _, _, .missing _ => rfl
termination_by structural x => x

theorem QueryBody.containsMissing_respelled (hm : SameMissing names) :
    (b : QueryBody) → {b' : QueryBody} → b.Respelled names b' →
      b.containsMissing = b'.containsMissing
  | ⟨_, qs, e, _⟩, _, .mk _ hqs he hk => by
    have he := congrArg₂ or (QueryClause.anyMissing_respelled hm qs hqs)
      (e.containsMissing_respelled hm he)
    cases hk with
    | none => exact congrArg₂ or he rfl
    | some hk => exact congrArg₂ or he (Continuation.containsMissing_respelled hm _ hk)
termination_by structural x => x

theorem Continuation.containsMissing_respelled (hm : SameMissing names) :
    (k : Continuation) → {k' : Continuation} → k.Respelled names k' →
      k.containsMissing = k'.containsMissing
  | ⟨_, _, b⟩, _, .mk _ hi hb => congrArg₂ or (hm _ _ hi) (b.containsMissing_respelled hm hb)
termination_by structural x => x

end

end CSharpFront
