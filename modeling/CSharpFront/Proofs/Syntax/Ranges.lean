import CSharpFront.Syntax.Bodies
/-!
All ranges of a tree. `Ranges ok` says that a range is `ok` wherever a node, a token or a name of a
tree has one, down to the leaves.
-/

namespace CSharpFront

section

variable (ok : Range → Prop)

inductive TypeSyntax.Ranges : TypeSyntax → Prop
  | predefined {r : Range} (s : SpecialType) : ok r → Ranges (.predefined r s)
  | name {i : Identifier} : ok i.range → Ranges (.name i)
  | qualified {r : Range} {left right : TypeSyntax} :
    ok r → left.Ranges → right.Ranges → Ranges (.qualified r left right)
  | generic {r : Range} {i : Identifier} {ts : List TypeSyntax} :
    ok r → ok i.range → (∀ t ∈ ts, t.Ranges) → Ranges (.generic r i ts)
  | nullable {r : Range} {t : TypeSyntax} : ok r → t.Ranges → Ranges (.nullable r t)
  | array {r : Range} {t : TypeSyntax} (rank : Nat) : ok r → t.Ranges → Ranges (.array r t rank)
  | missing {pos : Nat} : ok (.emptyAt pos) → Ranges (.missing pos)

mutual

inductive Expr.Ranges : Expr → Prop
  | identifier {i : Identifier} : ok i.range → Expr.Ranges (.identifier i)
  | literal {l : Literal} : ok l.range → Expr.Ranges (.literal l)
  | thisWord {r : Range} : ok r → Expr.Ranges (.thisWord r)
  | predefinedType {r : Range} (s : SpecialType) : ok r → Expr.Ranges (.predefinedType r s)
  | parenthesized {r : Range} {e : Expr} : ok r → e.Ranges → Expr.Ranges (.parenthesized r e)
  | binary {r : Range} {left : Expr} {o : Leaf} {right : Expr} :
    ok r → left.Ranges → ok o.range → right.Ranges → Expr.Ranges (.binary r left o right)
  | assignment {r : Range} {left : Expr} {o : Leaf} {right : Expr} :
    ok r → left.Ranges → ok o.range → right.Ranges → Expr.Ranges (.assignment r left o right)
  | conditional {r : Range} {c t f : Expr} :
    ok r → c.Ranges → t.Ranges → f.Ranges → Expr.Ranges (.conditional r c t f)
  | prefixUnary {r : Range} {o : Leaf} {e : Expr} :
    ok r → ok o.range → e.Ranges → Expr.Ranges (.prefixUnary r o e)
  | postfixUnary {r : Range} {e : Expr} {o : Leaf} :
    ok r → e.Ranges → ok o.range → Expr.Ranges (.postfixUnary r e o)
  | cast {r : Range} {t : TypeSyntax} {e : Expr} :
    ok r → t.Ranges ok → e.Ranges → Expr.Ranges (.cast r t e)
  | typeTest {r : Range} {e : Expr} {o : Leaf} {t : TypeSyntax} :
    ok r → e.Ranges → ok o.range → t.Ranges ok → Expr.Ranges (.typeTest r e o t)
  | memberAccess {r : Range} {e : Expr} {o : Leaf} {i : Identifier} :
    ok r → e.Ranges → ok o.range → ok i.range → Expr.Ranges (.memberAccess r e o i)
  | invocation {r : Range} {e : Expr} {es : List Expr} :
    ok r → e.Ranges → (∀ a ∈ es, a.Ranges) → Expr.Ranges (.invocation r e es)
  | elementAccess {r : Range} {e : Expr} {es : List Expr} :
    ok r → e.Ranges → (∀ a ∈ es, a.Ranges) → Expr.Ranges (.elementAccess r e es)
  | objectCreation {r : Range} {t : TypeSyntax} {es? : Option (List Expr)}
      {i? : Option Initializer} :
    ok r → t.Ranges ok → (∀ es ∈ es?, ∀ e ∈ es, e.Ranges) → (∀ i ∈ i?, i.Ranges) →
      Expr.Ranges (.objectCreation r t es? i?)
  | arrayCreation {r : Range} {t : TypeSyntax} {es : List Expr} {i? : Option Initializer} :
    ok r → t.Ranges ok → (∀ e ∈ es, e.Ranges) → (∀ i ∈ i?, i.Ranges) →
      Expr.Ranges (.arrayCreation r t es i?)
  | implicitArrayCreation {r : Range} {i : Initializer} :
    ok r → i.Ranges → Expr.Ranges (.implicitArrayCreation r i)
  | initializer {i : Initializer} : i.Ranges → Expr.Ranges (.initializer i)
  | await {r : Range} {e : Expr} : ok r → e.Ranges → Expr.Ranges (.await r e)
  | query {r : Range} {source : FromClause} {body : QueryBody} :
    ok r → source.Ranges → body.Ranges → Expr.Ranges (.query r source body)
  | missing {pos : Nat} : ok (.emptyAt pos) → Expr.Ranges (.missing pos)

inductive Initializer.Ranges : Initializer → Prop
  | mk {r : Range} {es : List Expr} : ok r → (∀ e ∈ es, e.Ranges) → Initializer.Ranges ⟨r, es⟩

inductive FromClause.Ranges : FromClause → Prop
  | mk {r : Range} {t? : Option TypeSyntax} {i : Identifier} {e : Expr} :
    ok r → (∀ t ∈ t?, t.Ranges ok) → ok i.range → e.Ranges → FromClause.Ranges ⟨r, t?, i, e⟩

inductive SortKey.Ranges : SortKey → Prop
  | mk {r : Range} {e : Expr} (isDescending : Bool) :
    ok r → e.Ranges → SortKey.Ranges ⟨r, e, isDescending⟩

inductive QueryClause.Ranges : QueryClause → Prop
  | fromClause {c : FromClause} : c.Ranges → QueryClause.Ranges (.fromClause c)
  | letClause {r : Range} {i : Identifier} {e : Expr} :
    ok r → ok i.range → e.Ranges → QueryClause.Ranges (.letClause r i e)
  | whereClause {r : Range} {e : Expr} : ok r → e.Ranges → QueryClause.Ranges (.whereClause r e)
  | orderByClause {r : Range} {ks : List SortKey} :
    ok r → (∀ k ∈ ks, k.Ranges) → QueryClause.Ranges (.orderByClause r ks)

inductive QueryEnding.Ranges : QueryEnding → Prop
  | select {r : Range} {e : Expr} : ok r → e.Ranges → QueryEnding.Ranges (.select r e)
  | group {r : Range} {e k : Expr} :
    ok r → e.Ranges → k.Ranges → QueryEnding.Ranges (.group r e k)
  | missing {pos : Nat} : ok (.emptyAt pos) → QueryEnding.Ranges (.missing pos)

inductive QueryBody.Ranges : QueryBody → Prop
  | mk {r : Range} {qs : List QueryClause} {e : QueryEnding} {k? : Option Continuation} :
    ok r → (∀ q ∈ qs, q.Ranges) → e.Ranges → (∀ k ∈ k?, k.Ranges) →
      QueryBody.Ranges ⟨r, qs, e, k?⟩

inductive Continuation.Ranges : Continuation → Prop
  | mk {r : Range} {i : Identifier} {body : QueryBody} :
    ok r → ok i.range → body.Ranges → Continuation.Ranges ⟨r, i, body⟩

end

/-! ### Statements -/

structure Declarator.Ranges (d : Declarator) : Prop where
  range : ok d.range
  identifier : ok d.identifier.range
  initializer : ∀ e ∈ d.initializer?, e.Ranges ok

structure VariableDeclaration.Ranges (d : VariableDeclaration) : Prop where
  range : ok d.range
  type : d.type.Ranges ok
  declarators : ∀ v ∈ d.declarators, v.Ranges ok

inductive ForInitializer.Ranges : ForInitializer → Prop
  | declaration {d : VariableDeclaration} : d.Ranges ok → Ranges (.declaration d)
  | expressions {es : List Expr} : (∀ e ∈ es, e.Ranges ok) → Ranges (.expressions es)

structure ForHeader.Ranges (h : ForHeader) : Prop where
  forWord : ok h.forWord.range
  openParen : ok h.openParen.range
  initializer : ∀ i ∈ h.initializer?, i.Ranges ok
  firstSemicolon : ok h.firstSemicolon.range
  condition : ∀ e ∈ h.condition?, e.Ranges ok
  secondSemicolon : ok h.secondSemicolon.range
  incrementors : ∀ e ∈ h.incrementors, e.Ranges ok
  closeParen : ok h.closeParen.range

mutual

inductive Stmt.Ranges : Stmt → Prop
  | block {b : Block} : b.Ranges → Stmt.Ranges (.block b)
  | empty {r : Range} : ok r → Stmt.Ranges (.empty r)
  | localDeclaration {r : Range} (ms : Modifiers) {d : VariableDeclaration} {o : Leaf} :
    ok r → d.Ranges ok → ok o.range → Stmt.Ranges (.localDeclaration r ms d o)
  | expression {r : Range} {e : Expr} {o : Leaf} :
    ok r → e.Ranges ok → ok o.range → Stmt.Ranges (.expression r e o)
  | ifElse {r : Range} {e : Expr} {s : Stmt} {s? : Option Stmt} :
    ok r → e.Ranges ok → s.Ranges → (∀ t ∈ s?, t.Ranges) → Stmt.Ranges (.ifElse r e s s?)
  | whileLoop {r : Range} {e : Expr} {s : Stmt} :
    ok r → e.Ranges ok → s.Ranges → Stmt.Ranges (.whileLoop r e s)
  | doLoop {r : Range} {s : Stmt} {e : Expr} :
    ok r → s.Ranges → e.Ranges ok → Stmt.Ranges (.doLoop r s e)
  | forLoop {r : Range} {h : ForHeader} {s : Stmt} :
    ok r → h.Ranges ok → s.Ranges → Stmt.Ranges (.forLoop r h s)
  | returnValue {r : Range} {e? : Option Expr} :
    ok r → (∀ e ∈ e?, e.Ranges ok) → Stmt.Ranges (.returnValue r e?)
  | breakLoop {r : Range} : ok r → Stmt.Ranges (.breakLoop r)
  | continueLoop {r : Range} : ok r → Stmt.Ranges (.continueLoop r)
  | goto {r : Range} {l : Identifier} : ok r → ok l.range → Stmt.Ranges (.goto r l)
  | labeled {r : Range} {l : Identifier} {s : Stmt} :
    ok r → ok l.range → s.Ranges → Stmt.Ranges (.labeled r l s)

inductive Block.Ranges : Block → Prop
  | mk {r : Range} {o o' : Leaf} {ss : List Stmt} :
    ok r → ok o.range → (∀ s ∈ ss, s.Ranges) → ok o'.range → Block.Ranges ⟨r, o, ss, o'⟩

end

/-! ### Declarations -/

structure UsingDirective.Ranges (u : UsingDirective) : Prop where
  range : ok u.range
  alias? : ∀ i ∈ u.alias?, ok i.range
  name : u.name.Ranges ok

structure Parameter.Ranges (p : Parameter) : Prop where
  range : ok p.range
  modifier : ∀ o ∈ p.modifier?, ok o.range
  type : p.type.Ranges ok
  identifier : ok p.identifier.range

structure Field.Ranges (f : Field) : Prop where
  range : ok f.range
  declaration : f.declaration.Ranges ok

structure Method.Ranges (m : Method) : Prop where
  range : ok m.range
  returnType : ∀ t ∈ m.returnType?, t.Ranges ok
  identifier : ok m.identifier.range
  parameters : ∀ p ∈ m.parameters, p.Ranges ok
  body : ∀ b ∈ m.body?, b.Ranges ok

structure ConversionOperator.Ranges (o : ConversionOperator) : Prop where
  range : ok o.range
  kind : ok o.kind.range
  type : o.type.Ranges ok
  parameters : ∀ p ∈ o.parameters, p.Ranges ok
  body : ∀ b ∈ o.body?, b.Ranges ok

mutual

inductive TypeDeclaration.Ranges : TypeDeclaration → Prop
  | mk {r : Range} (isStruct : Bool) (modifiers : Modifiers) {i : Identifier}
      {ms : List ClassMember} :
    ok r → ok i.range → (∀ m ∈ ms, m.Ranges) →
      TypeDeclaration.Ranges ⟨r, isStruct, modifiers, i, ms⟩

inductive ClassMember.Ranges : ClassMember → Prop
  | field {f : Field} : f.Ranges ok → ClassMember.Ranges (.field f)
  | method {m : Method} : m.Ranges ok → ClassMember.Ranges (.method m)
  | conversion {o : ConversionOperator} : o.Ranges ok → ClassMember.Ranges (.conversion o)
  | nestedType {d : TypeDeclaration} : d.Ranges → ClassMember.Ranges (.nestedType d)
  | incomplete {r : Range} : ok r → ClassMember.Ranges (.incomplete r)

end

mutual

inductive Member.Ranges : Member → Prop
  | namespaceMember {n : NamespaceDeclaration} : n.Ranges → Member.Ranges (.namespaceMember n)
  | typeMember {d : TypeDeclaration} : d.Ranges ok → Member.Ranges (.typeMember d)
  | globalStatement {s : Stmt} : s.Ranges ok → Member.Ranges (.globalStatement s)
  | incomplete {r : Range} : ok r → Member.Ranges (.incomplete r)

inductive NamespaceDeclaration.Ranges : NamespaceDeclaration → Prop
  | mk {r : Range} {t : TypeSyntax} {us : List UsingDirective} {ms : List Member} :
    ok r → t.Ranges ok → (∀ u ∈ us, u.Ranges ok) → (∀ m ∈ ms, m.Ranges) →
      NamespaceDeclaration.Ranges ⟨r, t, us, ms⟩

end

structure CompilationUnit.Ranges (u : CompilationUnit) : Prop where
  range : ok u.range
  usings : ∀ d ∈ u.usings, d.Ranges ok
  members : ∀ m ∈ u.members, m.Ranges ok
  endOfFile : ok u.endOfFile.range

end

variable {ok : Range → Prop}

theorem TypeSyntax.Ranges.range {t : TypeSyntax} (h : t.Ranges ok) : ok t.range := by
  cases h <;> assumption

theorem Expr.Ranges.range {e : Expr} (h : e.Ranges ok) : ok e.range := by
  cases h
  case initializer h => cases h; assumption
  all_goals assumption

/-! ### The ranges of bodies -/

theorem CompilationUnit.Ranges.globalStatements {u : CompilationUnit} (h : u.Ranges ok) :
    ∀ s ∈ u.globalStatements, s.Ranges ok := by
  intro s hs
  obtain ⟨m, hm, hms⟩ := List.mem_filterMap.mp hs
  have hr := h.members m hm
  cases hr <;> simp at hms
  case globalStatement hr => exact hms ▸ hr

theorem Block.ranges_of_mem_statementsOf {b? : Option Block} (h : ∀ b ∈ b?, b.Ranges ok) :
    ∀ ss ∈ Block.statementsOf b?, ∀ s ∈ ss, s.Ranges ok := by
  intro ss hss
  cases b? with
  | none => simp [Block.statementsOf] at hss
  | some b =>
    obtain rfl := List.mem_singleton.mp hss
    cases h b rfl
    assumption

mutual

theorem TypeDeclaration.ranges_of_mem_bodies :
    (d : TypeDeclaration) → d.Ranges ok → ∀ ss ∈ d.bodies, ∀ s ∈ ss, s.Ranges ok
  | ⟨_, _, _, _, ms⟩, h => by
    cases h with
    | mk _ _ _ _ h =>
      rw [TypeDeclaration.bodies]
      exact ClassMember.ranges_of_mem_allBodies ms h

theorem ClassMember.ranges_of_mem_bodies :
    (m : ClassMember) → m.Ranges ok → ∀ ss ∈ m.bodies, ∀ s ∈ ss, s.Ranges ok
  | .method m, h => by
    cases h with
    | method h => exact Block.ranges_of_mem_statementsOf h.body
  | .conversion o, h => by
    cases h with
    | conversion h => exact Block.ranges_of_mem_statementsOf h.body
  | .nestedType d, h => by
    cases h with
    | nestedType h => exact TypeDeclaration.ranges_of_mem_bodies d h
  | .field _, _ | .incomplete _, _ => by simp [ClassMember.bodies]

theorem ClassMember.ranges_of_mem_allBodies :
    (ms : List ClassMember) → (∀ m ∈ ms, m.Ranges ok) →
      ∀ ss ∈ ClassMember.allBodies ms, ∀ s ∈ ss, s.Ranges ok
  | [], _ => by simp [ClassMember.allBodies]
  | m :: ms, h => by
    obtain ⟨hm, hms⟩ := List.forall_mem_cons.mp h
    intro ss hss
    rcases List.mem_append.mp hss with hss | hss
    · exact ClassMember.ranges_of_mem_bodies m hm ss hss
    · exact ClassMember.ranges_of_mem_allBodies ms hms ss hss

end

mutual

theorem Member.ranges_of_mem_bodies :
    (m : Member) → m.Ranges ok → ∀ ss ∈ m.bodies, ∀ s ∈ ss, s.Ranges ok
  | .namespaceMember n, h => by
    cases h with
    | namespaceMember h => exact NamespaceDeclaration.ranges_of_mem_bodies n h
  | .typeMember d, h => by
    cases h with
    | typeMember h => exact d.ranges_of_mem_bodies h
  | .globalStatement _, _ | .incomplete _, _ => by simp [Member.bodies]

theorem Member.ranges_of_mem_allBodies :
    (ms : List Member) → (∀ m ∈ ms, m.Ranges ok) →
      ∀ ss ∈ Member.allBodies ms, ∀ s ∈ ss, s.Ranges ok
  | [], _ => by simp [Member.allBodies]
  | m :: ms, h => by
    obtain ⟨hm, hms⟩ := List.forall_mem_cons.mp h
    intro ss hss
    rcases List.mem_append.mp hss with hss | hss
    · exact Member.ranges_of_mem_bodies m hm ss hss
    · exact Member.ranges_of_mem_allBodies ms hms ss hss

theorem NamespaceDeclaration.ranges_of_mem_bodies :
    (n : NamespaceDeclaration) → n.Ranges ok → ∀ ss ∈ n.bodies, ∀ s ∈ ss, s.Ranges ok
  | ⟨_, _, _, ms⟩, h => by
    cases h with
    | mk _ _ _ h =>
      rw [NamespaceDeclaration.bodies]
      exact Member.ranges_of_mem_allBodies ms h

end

theorem CompilationUnit.Ranges.bodies {u : CompilationUnit} (h : u.Ranges ok) :
    ∀ ss ∈ u.bodies, ∀ s ∈ ss, s.Ranges ok := by
  intro ss hss
  rcases List.mem_cons.mp hss with rfl | hss
  · exact h.globalStatements
  · exact Member.ranges_of_mem_allBodies u.members h.members ss hss

end CSharpFront
