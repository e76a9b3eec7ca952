import CSharpFront.Proofs.Parser.Marks
/-!
The casts of expressions, each of which begins with the parenthesis before its type; the casts and
labels of statements, and from them what all rules find.
-/

namespace CSharpFront

/-! ## Expressions -/

section

-- casts are found by these equations in all that follows
attribute [local simp] Expr.casts Expr.allCasts Expr.propertyCasts QueryClause.allCasts
  SortKey.allCasts QueryEnding.casts QueryBody.casts

/-! ### Where the casts of an expression begin -/

def Expr.starts (e : Expr) : List Nat := (e.casts .everywhere).map (·.range.start)

def Initializer.starts (i : Initializer) : List Nat := i.elements.flatMap Expr.starts

def SortKey.starts (k : SortKey) : List Nat := k.key.starts

def QueryClause.starts : QueryClause → List Nat
  | .fromClause c => c.source.starts
  | .letClause _ _ e | .whereClause _ e => e.starts
  | .orderByClause _ ks => ks.flatMap SortKey.starts

def QueryEnding.starts (q : QueryEnding) : List Nat := (q.casts .everywhere).map (·.range.start)

def QueryBody.starts (b : QueryBody) : List Nat := (b.casts .everywhere).map (·.range.start)

def Continuation.starts (k : Continuation) : List Nat := k.body.starts

def Stmt.starts (s : Stmt) : List Nat := (s.marks .everywhere).map Mark.start

@[simp] theorem Expr.map_allCasts (es : List Expr) :
    (Expr.allCasts .everywhere es).map (·.range.start) = es.flatMap Expr.starts := by
  induction es with
  | nil => rfl
  | cons e es ih => simp [ih, starts]

@[simp] theorem SortKey.map_allCasts (ks : List SortKey) :
    (SortKey.allCasts .everywhere ks).map (·.range.start) = ks.flatMap SortKey.starts := by
  induction ks with
  | nil => rfl
  | cons k ks ih =>
    obtain ⟨_, e, _⟩ := k
    simp [ih, starts, Expr.starts]

@[simp] theorem QueryClause.map_allCasts (qs : List QueryClause) :
    (QueryClause.allCasts .everywhere qs).map (·.range.start) =
      qs.flatMap QueryClause.starts := by
  induction qs with
  | nil => rfl
  | cons q qs ih =>
    rcases q with ⟨_, _, _, e⟩ | _ | _ | _ <;> simp [ih, starts, Expr.starts]

namespace Parser

variable {tokens : List Token} {before : List Nat} {r : Rules}

/-- Rules that find the marks of their results after those that were found before. -/
structure Rules.Marks (tokens : List Token) (r : Rules) : Prop where
  statement (before : List Nat) :
    Parser.Marks tokens before r.statement fun s => before ++ s.starts
  expression (before : List Nat) :
    Parser.Marks tokens before r.expression fun e => before ++ e.starts
  unary (before : List Nat) : Parser.Marks tokens before r.unary fun e => before ++ e.starts
  type : TypesPlain tokens r
  binaryTail (before : List Nat) (levels least start : Nat) (left : Expr) :
    Parser.Marks tokens (before ++ left.starts) (r.binaryTail levels least start left)
      fun e => before ++ e.starts
  postfixTail (before : List Nat) (levels start : Nat) (operand : Expr) :
    Parser.Marks tokens (before ++ operand.starts) (r.postfixTail levels start operand)
      fun e => before ++ e.starts
  elements (before : List Nat) :
    Parser.Marks tokens before r.elements fun es => before ++ es.flatMap Expr.starts
  continuationBody (before : List Nat) :
    Parser.Marks tokens before r.continuationBody fun b? => before ++ b?.elim [] QueryBody.starts

/-! ### Lists of expressions -/

theorem marks_missingExpression :
    Marks tokens before missingExpression fun e => before ++ e.starts :=
  .next .get fun _ => .pure (List.append_nil _)

theorem marks_initializer (hr : r.Marks tokens) :
    Marks tokens before (initializer r) fun i => before ++ i.starts := by
  refine .next plain_current fun _ => .next (plain_eat _) fun _ => ?_
  refine .bind (hr.elements _) fun _ => .next (plain_eat _) fun _ => ?_
  exact .next (plain_rangeFrom _) fun _ => .pure rfl

theorem marks_element (hr : r.Marks tokens) :
    Marks tokens before (element r) fun e => before ++ e.starts := by
  refine .next plain_currentKind fun _ => .ite ?_ (hr.expression _)
  exact (marks_initializer hr).map fun ⟨_, es⟩ => by
    simp [Expr.starts, Initializer.starts]

theorem marks_elementsBody (hr : r.Marks tokens) :
    Marks tokens before (elementsBody r) fun es => before ++ es.flatMap Expr.starts := by
  refine .gather fun es => .next plain_currentKind fun _ => .ite (.pure rfl) ?_
  refine .bind (marks_element hr) fun _ => .next (plain_accept _) fun _ => ?_
  exact .ite (.pure (by simp)) (.pure (by simp))

theorem marks_optionalInitializer (hr : r.Marks tokens) :
    Marks tokens before (optionalInitializer r)
      fun i? => before ++ i?.elim [] Initializer.starts :=
  .next plain_currentKind fun _ =>
    .ite ((marks_initializer hr).map fun _ => rfl) (.pure (List.append_nil _))

theorem marks_argument (hr : r.Marks tokens) :
    Marks tokens before (argument r) fun e => before ++ e.starts :=
  .next plain_currentKind fun _ =>
    .ite (.next plain_advance fun _ => hr.expression _) (hr.expression _)

theorem marks_arguments (hr : r.Marks tokens) (opening closing : Punctuator) :
    Marks tokens before (arguments r opening closing)
      fun es => before ++ es.flatMap Expr.starts := by
  have hlast (es : List Expr) : Marks tokens (before ++ es.flatMap Expr.starts)
      (do let _ ← eat (.punct closing); return es) fun es => before ++ es.flatMap Expr.starts :=
    .next (plain_eat _) fun _ => .pure rfl
  refine .next (plain_eat _) fun _ => .next plain_currentKind fun _ => ?_
  exact .iteBind (.pure (List.append_nil _)) (marks_separated fun _ => marks_argument hr) hlast

/-! ### Operands -/

theorem marks_sizes (hr : r.Marks tokens) :
    Marks tokens before (sizes r) fun s => before ++ s.1.flatMap Expr.starts := by
  refine .loopMap (fun s => before ++ s.1.reverse.flatMap Expr.starts)
    (List.append_nil before) (fun s => ?_) fun _ => rfl
  refine .next plain_currentKind fun _ => .ite (.pure rfl) (.ite ?_ ?_)
  · exact .next plain_advance fun _ => .pure rfl
  · refine .bind (hr.expression _) fun _ => .next (plain_accept _) fun _ => ?_
    exact .ite (.pure (by simp)) (.pure (by simp))

theorem marks_arrayCreationRest (hr : r.Marks tokens) (start : Nat) (element : TypeSyntax) :
    Marks tokens before (arrayCreationRest r start element) fun e => before ++ e.starts := by
  refine .next (plain_eat _) fun _ => .bind (marks_sizes hr) fun _ => ?_
  refine .next (plain_eat _) fun _ => .next (plain_rangeFrom _) fun _ => ?_
  refine .next (plain_rankSpecifiers _ _) fun _ => ?_
  refine .bind (marks_optionalInitializer hr) fun i? => .next (plain_rangeFrom _) fun _ => ?_
  refine .pure ?_
  rcases i? with _ | ⟨_, es⟩ <;> simp [Expr.starts, Initializer.starts]

theorem marks_objectCreationRest (hr : r.Marks tokens) (start : Nat) (type : TypeSyntax) :
    Marks tokens before (objectCreationRest r start type) fun e => before ++ e.starts := by
  have hrest (es? : Option (List Expr)) :
      Marks tokens (before ++ es?.elim [] (List.flatMap Expr.starts))
        (do
          let initializer? ← optionalInitializer r
          return Expr.objectCreation (← rangeFrom start) type es? initializer?)
        fun e => before ++ e.starts := by
    refine .bind (marks_optionalInitializer hr) fun i? => .next (plain_rangeFrom _) fun _ => ?_
    refine .pure ?_
    rcases i? with _ | ⟨_, es⟩ <;> cases es? <;>
      simp [Expr.starts, Initializer.starts, Expr.propertyCasts_everywhere]
  refine .next plain_currentKind fun _ => .ite ?_ (.bind (.pure (List.append_nil _)) hrest)
  exact .bind (marks_arguments hr _ _) fun es => hrest (some es)

theorem marks_creation (hr : r.Marks tokens) :
    Marks tokens before (creation r) fun e => before ++ e.starts := by
  refine .next plain_current fun _ => .next (plain_eat _) fun _ => ?_
  refine .next (plain_accept _) fun _ => .ite ?_ ?_
  · refine .next .get fun _ => .next (plain_advanceBy _) fun _ => .next (plain_eat _) fun _ => ?_
    refine .bind (marks_initializer hr) fun ⟨_, es⟩ => .next (plain_rangeFrom _) fun _ => ?_
    exact .pure (by simp [Expr.starts, Initializer.starts])
  · refine .next (hr.type false) fun type => .next plain_currentKind fun _ => ?_
    split
    · exact marks_arrayCreationRest hr _ type
    · exact marks_objectCreationRest hr _ type
    · exact marks_objectCreationRest hr _ type
    · refine .next plain_expectedSpan fun _ => .next plain_report fun _ => ?_
      exact .next (plain_rangeFrom _) fun _ => .pure (by simp [Expr.starts])

theorem marks_invalidTerm : Marks tokens before invalidTerm fun e => before ++ e.starts :=
  .next plain_current fun _ => .ite (.next plain_report fun _ => marks_missingExpression)
    (.next plain_report fun _ => marks_missingExpression)

theorem marks_primary (hr : r.Marks tokens) :
    Marks tokens before (primary r) fun e => before ++ e.starts := by
  refine .next plain_current fun t => ?_
  split
  · exact .next plain_advance fun _ => .pure (List.append_nil _)
  split
  · exact .next plain_advance fun _ => .pure (List.append_nil _)
  split
  · refine .next plain_advance fun _ => .next (plain_identifierOf _) fun _ => ?_
    exact .pure (List.append_nil _)
  · exact .next plain_advance fun _ => .pure (List.append_nil _)
  · refine .next plain_advance fun _ => .bind (hr.expression _) fun _ => ?_
    exact .next (plain_eat _) fun _ => .next (plain_rangeFrom _) fun _ => .pure rfl
  · exact marks_creation hr
  · exact marks_invalidTerm

/-- A cast begins with a parenthesis, which is taken. -/
theorem marksAt_castExpression (hr : r.Marks tokens) {t : Token}
    (hk : t.kind = .punct .openParen) :
    MarksAt tokens before t (castExpression r) fun e => before ++ e.starts := by
  refine .current (.eat hk nofun fun _ => ?_)
  refine .next (hr.type true) fun _ => .next (plain_eat _) fun _ => .bind (hr.unary _) fun e => ?_
  exact .rangeFrom fun _ => .pure (List.append_cons ..)

theorem marks_unaryBody (hr : r.Marks tokens) :
    Marks tokens before (unaryBody r) fun e => before ++ e.starts := by
  refine .current fun t => .ite (fun _ => Marks.at ?_) (.read fun _ => .ite (fun _ => Marks.at ?_) ?_)
  · refine .next plain_take fun _ => .bind (hr.unary _) fun _ => ?_
    exact .next (plain_rangeFrom _) fun _ => .pure rfl
  · refine .next plain_advance fun _ => .bind (hr.unary _) fun _ => ?_
    exact .next (plain_rangeFrom _) fun _ => .pure rfl
  refine .read fun _ => .get fun _ => .ite (fun h => marksAt_castExpression hr h.1) (Marks.at ?_)
  exact .bind (marks_primary hr) fun e => hr.postfixTail before 0 t.start e

theorem marks_postfixStep (hr : r.Marks tokens) (start : Nat) (operand : Expr) :
    Marks tokens (before ++ operand.starts) (postfixStep r start operand)
      fun e => before ++ e.starts := by
  have hmember : Marks tokens (before ++ operand.starts) (do
      let operator ← take
      let name ← identifier
      return Expr.memberAccess (← rangeFrom start) operand operator name)
      fun e => before ++ e.starts :=
    .next plain_take fun _ => .next plain_identifier fun _ => .next (plain_rangeFrom _) fun _ =>
      .pure rfl
  refine .next plain_currentKind fun _ => ?_
  split
  · exact hmember
  · exact hmember
  · refine .bind (marks_arguments hr _ _) fun _ => .next (plain_rangeFrom _) fun _ => ?_
    exact .pure (by simp [Expr.starts])
  · refine .bind (marks_arguments hr _ _) fun _ => .next (plain_rangeFrom _) fun _ => ?_
    exact .pure (by simp [Expr.starts])
  · exact .next plain_take fun _ => .next (plain_rangeFrom _) fun _ => .pure rfl

/-- A chain ends with the operand that it has read. -/
theorem marks_leaveWith (levels : Nat) (e : Expr) :
    Marks tokens (before ++ e.starts) (do leave levels; return e) fun e => before ++ e.starts :=
  .next (plain_leave _) fun _ => .pure rfl

theorem marks_postfixTailBody (hr : r.Marks tokens) (levels start : Nat) (operand : Expr) :
    Marks tokens (before ++ operand.starts) (postfixTailBody r levels start operand)
      fun e => before ++ e.starts := by
  refine .next plain_currentKind fun _ => .ite ?_ (marks_leaveWith _ _)
  refine .next plain_enter fun _ => .ite ?_ (marks_leaveWith _ _)
  exact .bind (marks_postfixStep hr start operand) fun e => hr.postfixTail _ _ _ e

/-! ### Operators -/

theorem marks_binary (hr : r.Marks tokens) (least : Nat) :
    Marks tokens before (binary r least) fun e => before ++ e.starts :=
  .next plain_current fun _ => .bind (hr.unary _) fun e => hr.binaryTail _ _ _ _ e

theorem marks_binaryStep (hr : r.Marks tokens) (start : Nat) (left : Expr) (operator : Operator)
    (p : Precedence) :
    Marks tokens (before ++ left.starts) (binaryStep r start left operator p)
      fun e => before ++ e.starts := by
  refine .next (plain_advanceBy _) fun _ => ?_
  split
  · exact .next (hr.type true) fun _ => .next (plain_rangeFrom _) fun _ => .pure rfl
  · refine .bind (marks_binary hr _) fun _ => .next (plain_rangeFrom _) fun _ => ?_
    exact .pure (by simp [Expr.starts])

theorem plain_nextOperator? (least : Nat) : Plain tokens (nextOperator? least) := by
  refine fun _ => .next .read fun _ => .next .get fun _ => ?_
  dsimp only
  split
  · exact .ite (.pure rfl) (.pure rfl)
  · exact .pure rfl

theorem marks_binaryTailBody (hr : r.Marks tokens) (levels least start : Nat) (left : Expr) :
    Marks tokens (before ++ left.starts) (binaryTailBody r levels least start left)
      fun e => before ++ e.starts := by
  refine .next (plain_nextOperator? _) fun found => ?_
  cases found with
  | none => exact marks_leaveWith _ _
  | some found =>
    refine .next plain_enter fun _ => .ite ?_ (marks_leaveWith _ _)
    exact .bind (marks_binaryStep hr start left _ _) fun e => hr.binaryTail _ _ _ _ e

theorem marks_conditional (hr : r.Marks tokens) :
    Marks tokens before (conditional r) fun e => before ++ e.starts := by
  refine .next plain_current fun _ => .bind (marks_binary hr _) fun _ => ?_
  refine .next (plain_accept _) fun _ => .ite ?_ (.pure rfl)
  refine .bind (hr.expression _) fun _ => .next (plain_eat _) fun _ => ?_
  refine .bind (hr.expression _) fun _ => .next (plain_rangeFrom _) fun _ => ?_
  exact .pure (by simp [Expr.starts])

theorem marks_assignment (hr : r.Marks tokens) :
    Marks tokens before (assignment r) fun e => before ++ e.starts := by
  refine .next plain_current fun _ => .bind (marks_conditional hr) fun _ => ?_
  refine .next .read fun _ => .next .get fun _ => ?_
  dsimp only
  refine .ite (.next (plain_advanceBy _) fun _ => .bind (hr.expression _) fun _ => ?_) (.pure rfl)
  exact .next (plain_rangeFrom _) fun _ => .pure (by simp [Expr.starts])

/-! ### Queries -/

theorem marks_fromClause (hr : r.Marks tokens) :
    Marks tokens before (fromClause r) fun c => before ++ c.source.starts := by
  have hrest (start : Nat) (type? : Option TypeSyntax) : Marks tokens before (do
      let identifier ← identifier
      let _ ← eat (.keyword .kwIn)
      let source ← r.expression
      return FromClause.mk (← rangeFrom start) type? identifier source)
      fun c => before ++ c.source.starts :=
    .next plain_identifier fun _ => .next (plain_eat _) fun _ => .bind (hr.expression _) fun _ =>
      .next (plain_rangeFrom _) fun _ => .pure rfl
  refine .next plain_current fun _ => .next plain_advance fun _ => .next .get fun _ => ?_
  exact .ite (hrest _ none) (.next (hr.type true) fun type => hrest _ (some type))

theorem marks_sortKey (hr : r.Marks tokens) :
    Marks tokens before (sortKey r) fun k => before ++ k.starts := by
  refine .next plain_current fun _ => .bind (hr.expression _) fun e => ?_
  have hmake (start : Nat) (isDescending : Bool) : Marks tokens (before ++ e.starts)
      (do return SortKey.mk (← rangeFrom start) e isDescending) fun k => before ++ k.starts :=
    .next (plain_rangeFrom _) fun _ => .pure rfl
  refine .next plain_current fun _ => ?_
  split
  · exact .next plain_advance fun _ => hmake _ false
  · exact .next plain_advance fun _ => hmake _ true
  · exact hmake _ false

theorem marks_letClause (hr : r.Marks tokens) :
    Marks tokens before (letClause r) fun q => before ++ q.starts := by
  refine .next plain_current fun _ => .next plain_advance fun _ => ?_
  refine .next plain_identifier fun _ => .next (plain_eat _) fun _ => ?_
  exact .bind (hr.expression _) fun _ => .next (plain_rangeFrom _) fun _ => .pure rfl

theorem marks_whereClause (hr : r.Marks tokens) :
    Marks tokens before (whereClause r) fun q => before ++ q.starts := by
  refine .next plain_current fun _ => .next plain_advance fun _ => ?_
  exact .bind (hr.expression _) fun _ => .next (plain_rangeFrom _) fun _ => .pure rfl

theorem marks_orderByClause (hr : r.Marks tokens) :
    Marks tokens before (orderByClause r) fun q => before ++ q.starts := by
  refine .next plain_current fun _ => .next plain_advance fun _ => ?_
  refine .bind (marks_separated fun _ => marks_sortKey hr) fun _ => ?_
  exact .next (plain_rangeFrom _) fun _ => .pure rfl

theorem marks_queryClause? (hr : r.Marks tokens) :
    Marks tokens before (queryClause? r) fun q? => before ++ q?.elim [] QueryClause.starts := by
  refine .next plain_current fun _ => ?_
  split
  · exact .bind (marks_fromClause hr) fun _ => .pure rfl
  · exact .bind (marks_letClause hr) fun _ => .pure rfl
  · exact .bind (marks_whereClause hr) fun _ => .pure rfl
  · exact .bind (marks_orderByClause hr) fun _ => .pure rfl
  · exact .pure (List.append_nil _)

theorem marks_queryEnding (hr : r.Marks tokens) :
    Marks tokens before (queryEnding r) fun q => before ++ q.starts := by
  refine .next plain_current fun _ => ?_
  split
  · refine .next plain_advance fun _ => .bind (hr.expression _) fun _ => ?_
    exact .next (plain_rangeFrom _) fun _ => .pure rfl
  · refine .next plain_advance fun _ => .bind (hr.expression _) fun _ => ?_
    refine .next (plain_eatContextual _) fun _ => .bind (hr.expression _) fun _ => ?_
    refine .next (plain_rangeFrom _) fun _ => .pure ?_
    simp [QueryEnding.starts, Expr.starts]
  · exact .next plain_report fun _ => .next .get fun _ => .pure (List.append_nil _)

theorem marks_continuation? (hr : r.Marks tokens) :
    Marks tokens before (continuation? r) fun k? => before ++ k?.elim [] Continuation.starts := by
  refine .next plain_current fun _ => .ite ?_ (.pure (List.append_nil _))
  refine .next plain_advance fun _ => .next plain_identifier fun _ => ?_
  refine .bind (hr.continuationBody _) fun b? => ?_
  cases b? with
  | none => exact .pure rfl
  | some b => exact .next (plain_rangeFrom _) fun _ => .pure rfl

theorem marks_queryBody (hr : r.Marks tokens) :
    Marks tokens before (queryBody r) fun b => before ++ b.starts := by
  refine .next plain_current fun _ => .bind (.many fun _ => marks_queryClause? hr) fun _ => ?_
  refine .bind (marks_queryEnding hr) fun _ => .bind (marks_continuation? hr) fun k? => ?_
  refine .next (plain_rangeFrom _) fun _ => .pure ?_
  rcases k? with _ | ⟨_, _, b⟩ <;>
    simp [QueryBody.starts, QueryEnding.starts, Continuation.starts]

theorem marks_query (hr : r.Marks tokens) :
    Marks tokens before (query r) fun e => before ++ e.starts := by
  refine .next plain_current fun _ => .bind (marks_fromClause hr) fun ⟨_, _, _, e⟩ => ?_
  refine .bind (marks_queryBody hr) fun _ => .next (plain_rangeFrom _) fun _ => .pure ?_
  simp [Expr.starts, QueryBody.starts]

theorem marks_expressionBody (hr : r.Marks tokens) :
    Marks tokens before (expressionBody r) fun e => before ++ e.starts :=
  .next .get fun _ => .ite (marks_query hr) (marks_assignment hr)

end Parser

end

/-! ## Statements -/

section

attribute [local simp] Stmt.marks Stmt.allMarks

/-! ### Where the marks of a statement begin -/

@[simp] theorem Mark.start_comp_cast : Mark.start ∘ Mark.cast = fun k => k.range.start := rfl

def Declarator.starts (d : Declarator) : List Nat := d.initializer?.elim [] Expr.starts

def ForInitializer.starts : ForInitializer → List Nat
  | .declaration d => d.declarators.flatMap Declarator.starts
  | .expressions es => es.flatMap Expr.starts

def ForHeader.starts (h : ForHeader) : List Nat :=
  h.initializer?.elim [] ForInitializer.starts ++ h.condition?.elim [] Expr.starts ++
    h.incrementors.flatMap Expr.starts

@[simp] theorem Expr.map_casts? (e? : Option Expr) :
    (Expr.casts? .everywhere e?).map (·.range.start) = e?.elim [] Expr.starts := by
  cases e? <;> rfl

@[simp] theorem Declarator.map_allCasts (ds : List Declarator) :
    (Declarator.allCasts .everywhere ds).map (·.range.start) = ds.flatMap Declarator.starts := by
  simp [allCasts, List.map_flatMap]
  rfl

@[simp] theorem ForHeader.map_casts (h : ForHeader) :
    (h.casts .everywhere).map (·.range.start) = h.starts := by
  obtain ⟨_, _, i?, _, _, _, _, _⟩ := h
  rcases i? with _ | _ | _ <;>
    simp [casts, starts, ForInitializer.casts?, ForInitializer.starts]

@[simp] theorem Stmt.map_allMarks (ss : List Stmt) :
    (Stmt.allMarks .everywhere ss).map Mark.start = ss.flatMap Stmt.starts := by
  induction ss with
  | nil => rfl
  | cons s ss ih => simp [ih, starts]

namespace Parser

variable {tokens : List Token} {before : List Nat} {r : Rules}

/-! ### Declarations of variables -/

theorem marks_declarator (hr : r.Marks tokens) (i : Identifier) :
    Marks tokens before (declarator r i) fun d => before ++ d.starts := by
  have hrest (e? : Option Expr) : Marks tokens (before ++ e?.elim [] Expr.starts)
      (do return Declarator.mk (← rangeFrom i.range.start) i e?) fun d => before ++ d.starts :=
    .next (plain_rangeFrom _) fun _ => .pure rfl
  refine .next (plain_accept _) fun _ => .ite ?_ (.bind (.pure (List.append_nil _)) hrest)
  exact .bind (marks_element hr) fun e => hrest (some e)

theorem marks_declarators (hr : r.Marks tokens) (start : Nat) (type : TypeSyntax)
    (first : Identifier) :
    Marks tokens before (declarators r start type first)
      fun d => before ++ d.declarators.flatMap Declarator.starts := by
  have hother (before : List Nat) : Marks tokens before (do
      let identifier ← identifier
      declarator r identifier) fun d => before ++ d.starts :=
    .next plain_identifier fun i => marks_declarator hr i
  refine .bind (marks_declarator hr first) fun _ => .bind (marks_afterCommas hother) fun _ => ?_
  exact .next (plain_rangeFrom _) fun _ => .pure (by simp)

theorem marks_variableDeclaration (hr : r.Marks tokens) :
    Marks tokens before (variableDeclaration r)
      fun d => before ++ d.declarators.flatMap Declarator.starts :=
  .next plain_current fun _ => .next (hr.type true) fun _ => .next plain_identifier fun _ =>
    marks_declarators hr _ _ _

theorem marks_localDeclaration (hr : r.Marks tokens) :
    Marks tokens before (localDeclaration r) fun s => before ++ s.starts := by
  refine .next plain_current fun _ => .next .get fun _ => .next (plain_advanceBy _) fun _ => ?_
  refine .bind (marks_variableDeclaration hr) fun _ => .next (plain_eat _) fun _ => ?_
  refine .next (plain_rangeFrom _) fun _ => .pure ?_
  simp [Stmt.starts]

theorem plain_startsLocalDeclaration : Plain tokens startsLocalDeclaration :=
  .of_rest_eq fun _ _ => rfl

/-! ### Expressions that stand alone -/

theorem plain_checkStatementExpression (e : Expr) : Plain tokens (checkStatementExpression e) :=
  fun _ => .ite (.pure rfl) (plain_report _)

theorem plain_checkStatementExpressions (es : List Expr) :
    Plain tokens (checkStatementExpressions es) := by
  induction es with
  | nil => exact fun _ => .pure rfl
  | cons e es ih => exact fun _ => .next (plain_checkStatementExpression e) fun _ => ih _

theorem marks_expressionStatement (hr : r.Marks tokens) :
    Marks tokens before (expressionStatement r) fun s => before ++ s.starts := by
  refine .next plain_current fun _ => .bind (hr.expression _) fun e => .next (plain_eat _) fun _ => ?_
  refine .next (plain_checkStatementExpression e) fun _ => .next (plain_rangeFrom _) fun _ => ?_
  exact .pure (by simp [Stmt.starts, Expr.starts])

/-! ### Blocks -/

theorem plain_skipToStatement : Plain tokens skipToStatement :=
  fun _ => .next plain_advance fun _ => .next .get fun _ => plain_advanceBy _ _

theorem marks_blockStatement? (hr : r.Marks tokens) :
    Marks tokens before (blockStatement? r) fun s? => before ++ s?.elim [] Stmt.starts := by
  refine .next plain_currentKind fun _ => .ite (.pure (List.append_nil _)) ?_
  refine .next .get fun _ => .bind (hr.statement _) fun _ => .next .get fun _ => .ite ?_ (.pure rfl)
  exact .next plain_skipToStatement fun _ => .pure rfl

theorem marks_block (hr : r.Marks tokens) :
    Marks tokens before (block r) fun b => before ++ b.statements.flatMap Stmt.starts := by
  refine .next plain_current fun _ => .next (plain_eat _) fun _ => ?_
  refine .bind (.many fun _ => marks_blockStatement? hr) fun _ => .next (plain_eat _) fun _ => ?_
  exact .next (plain_rangeFrom _) fun _ => .pure rfl

/-! ### Conditions and loops -/

theorem marks_condition (hr : r.Marks tokens) :
    Marks tokens before (condition r) fun e => before ++ e.starts :=
  .next (plain_eat _) fun _ => .bind (hr.expression _) fun _ => .next (plain_eat _) fun _ =>
    .pure rfl

theorem marks_ifStatement (hr : r.Marks tokens) :
    Marks tokens before (ifStatement r) fun s => before ++ s.starts := by
  refine .next plain_current fun _ => .next (plain_eat _) fun _ => ?_
  refine .bind (marks_condition hr) fun e => .bind (hr.statement _) fun s => ?_
  have hrest (start : Nat) (s? : Option Stmt) :
      Marks tokens (before ++ e.starts ++ s.starts ++ s?.elim [] Stmt.starts)
        (do return Stmt.ifElse (← rangeFrom start) e s s?) fun s => before ++ s.starts := by
    refine .next (plain_rangeFrom _) fun _ => .pure ?_
    cases s? <;> simp [Stmt.starts, Expr.starts]
  refine .next (plain_accept _) fun _ => ?_
  exact .iteBind ((hr.statement _).map fun _ => rfl) (.pure (List.append_nil _)) (hrest _)

theorem marks_whileStatement (hr : r.Marks tokens) :
    Marks tokens before (whileStatement r) fun s => before ++ s.starts := by
  refine .next plain_current fun _ => .next (plain_eat _) fun _ => ?_
  refine .bind (marks_condition hr) fun _ => .bind (hr.statement _) fun _ => ?_
  refine .next (plain_rangeFrom _) fun _ => .pure ?_
  simp [Stmt.starts, Expr.starts]

theorem marks_doStatement (hr : r.Marks tokens) :
    Marks tokens before (doStatement r) fun s => before ++ s.starts := by
  refine .next plain_current fun _ => .next (plain_eat _) fun _ => .bind (hr.statement _) fun _ => ?_
  refine .next (plain_eat _) fun _ => .bind (marks_condition hr) fun _ => ?_
  refine .next (plain_eat _) fun _ => .next (plain_rangeFrom _) fun _ => .pure ?_
  simp [Stmt.starts, Expr.starts]

/-! ### The header of a `for` -/

theorem plain_skipInList (expected : TokenKind) : Plain tokens (skipInList expected) := by
  have hends : Plain tokens (do return !endsList (← currentKind)) :=
    fun _ => .next plain_currentKind fun _ => .pure rfl
  refine fun _ => .next plain_currentKind fun _ => .ite (hends _) ?_
  refine .next (plain_replace _) fun _ => .next .get fun _ => ?_
  exact .next (plain_advanceBy _) fun _ => hends _

theorem plain_listSeparator : Plain tokens listSeparator :=
  fun _ => .next plain_currentKind fun _ =>
    .ite (plain_replace _ _) (.next (plain_eat _) fun _ => .pure rfl)

theorem marks_forExpressionsRest (hr : r.Marks tokens) (allowSemicolon : Bool) :
    Marks tokens before (forExpressionsRest r allowSemicolon)
      fun es => before ++ es.flatMap Expr.starts := by
  refine .gather fun es => .next plain_currentKind fun _ => .ite (.pure rfl) (.ite ?_ ?_)
  · refine .next plain_listSeparator fun _ => .bind (hr.expression _) fun _ => ?_
    exact .pure (by simp)
  · exact .next (plain_skipInList _) fun _ => .ite (.pure rfl) (.pure rfl)

theorem marks_forExpressions (hr : r.Marks tokens) (allowSemicolon : Bool) :
    Marks tokens before (forExpressions r allowSemicolon)
      fun es => before ++ es.flatMap Expr.starts := by
  have hlist : Marks tokens before (do
      let first ← r.expression
      return first :: (← forExpressionsRest r allowSemicolon))
      fun es => before ++ es.flatMap Expr.starts :=
    .bind (hr.expression _) fun _ => .bind (marks_forExpressionsRest hr _) fun _ =>
      .pure (by simp)
  refine .next plain_currentKind fun _ => .ite (.pure (List.append_nil _)) (.ite hlist ?_)
  exact .next (plain_skipInList _) fun _ => .ite hlist (.pure (List.append_nil _))

theorem marks_forInitializer? (hr : r.Marks tokens) :
    Marks tokens before (forInitializer? r)
      fun i? => before ++ i?.elim [] ForInitializer.starts := by
  refine .next plain_startsLocalDeclaration fun _ => .ite ?_ (.next plain_currentKind fun _ => ?_)
  · exact .bind (marks_variableDeclaration hr) fun _ => .pure rfl
  refine .ite (.pure (List.append_nil _)) (.bind (marks_forExpressions hr false) fun es => .pure ?_)
  cases es with
  | nil => rfl
  | cons e es => rfl

theorem plain_forSemicolon : Plain tokens forSemicolon :=
  fun _ => .next plain_currentKind fun _ => .next (plain_eat _) fun _ =>
    .ite (.next plain_advance fun _ => .pure rfl) (.pure rfl)

theorem marks_forCondition? (hr : r.Marks tokens) :
    Marks tokens before (forCondition? r) fun e? => before ++ e?.elim [] Expr.starts :=
  .next plain_currentKind fun _ =>
    .ite (.pure (List.append_nil _)) ((hr.expression _).map fun _ => rfl)

theorem plain_forCloseParen : Plain tokens forCloseParen := by
  refine fun _ => .next (plain_loop fun _ => ?_) fun _ => plain_eat _ _
  refine fun _ => .next plain_currentKind fun _ => .ite ?_ (.pure rfl)
  exact .next (plain_replace _) fun _ => .pure rfl

theorem marks_forHeader (hr : r.Marks tokens) :
    Marks tokens before (forHeader r) fun h => before ++ h.starts := by
  refine .next (plain_eat _) fun w => .next (plain_eat _) fun o => ?_
  refine .bind (marks_forInitializer? hr) fun i? => .next plain_forSemicolon fun s => ?_
  refine .bind (marks_forCondition? hr) fun e? => .next plain_forSemicolon fun s' => ?_
  have hlast (es : List Expr) (o' : Leaf) :
      Marks tokens (before ++ i?.elim [] ForInitializer.starts ++ e?.elim [] Expr.starts ++
          es.flatMap Expr.starts)
        (do checkStatementExpressions es; return ForHeader.mk w o i? s e? s' es o')
        fun h => before ++ h.starts :=
    .next (plain_checkStatementExpressions _) fun _ => .pure (by simp [ForHeader.starts])
  refine .next plain_currentKind fun _ => ?_
  refine .iteBind (.pure (List.append_nil _)) (marks_forExpressions hr true) fun es => ?_
  refine .next plain_forCloseParen fun o' => ?_
  dsimp only
  split
  · exact .next (plain_checkStatementExpressions _) fun _ => hlast es o'
  · exact hlast es o'

theorem marks_forStatement (hr : r.Marks tokens) :
    Marks tokens before (forStatement r) fun s => before ++ s.starts := by
  refine .next plain_current fun _ => .bind (marks_forHeader hr) fun _ => ?_
  refine .bind (hr.statement _) fun _ => .next (plain_rangeFrom _) fun _ => .pure ?_
  simp [Stmt.starts]

/-! ### Jumps and labels -/

theorem marks_returnStatement (hr : r.Marks tokens) :
    Marks tokens before (returnStatement r) fun s => before ++ s.starts := by
  have hrest (start : Nat) (e? : Option Expr) :
      Marks tokens (before ++ e?.elim [] Expr.starts)
        (do
          let _ ← eat (.punct .semicolon)
          return Stmt.returnValue (← rangeFrom start) e?) fun s => before ++ s.starts := by
    refine .next (plain_eat _) fun _ => .next (plain_rangeFrom _) fun _ => .pure ?_
    simp [Stmt.starts]
  refine .next plain_current fun _ => .next (plain_eat _) fun _ => .next plain_currentKind fun _ => ?_
  exact .iteBind (.pure (List.append_nil _)) ((hr.expression _).map fun _ => rfl) (hrest _)

theorem plain_jump : Plain tokens jump :=
  fun _ => .next plain_current fun _ => .next plain_advance fun _ => .next (plain_eat _) fun _ =>
    plain_rangeFrom _ _

theorem marks_gotoStatement : Marks tokens before gotoStatement fun s => before ++ s.starts :=
  .next plain_current fun _ => .next (plain_eat _) fun _ => .next plain_identifier fun _ =>
    .next (plain_eat _) fun _ => .next (plain_rangeFrom _) fun _ => .pure (List.append_nil _)

theorem marks_labeledStatement (hr : r.Marks tokens) :
    Marks tokens before (labeledStatement r) fun s => before ++ s.starts := by
  refine .next plain_current fun _ => .bind marks_identifier fun i => .next (plain_eat _) fun _ => ?_
  refine .bind (hr.statement _) fun _ => .next (plain_rangeFrom _) fun _ => .pure ?_
  rw [Stmt.starts, Stmt.marks, nameStart, List.map_append, List.append_assoc]
  split <;> rfl

theorem marks_wordlessStatement (hr : r.Marks tokens) :
    Marks tokens before (wordlessStatement r) fun s => before ++ s.starts :=
  .next .get fun _ => .ite (marks_labeledStatement hr) <|
    .next plain_startsLocalDeclaration fun _ =>
      .ite (marks_localDeclaration hr) (marks_expressionStatement hr)

theorem marks_statementBody (hr : r.Marks tokens) :
    Marks tokens before (statementBody r) fun s => before ++ s.starts := by
  refine .next plain_current fun _ => ?_
  split
  · refine .bind (marks_block hr) fun ⟨_, _, _, _⟩ => .pure ?_
    simp [Stmt.starts]
  · exact .next plain_advance fun _ => .pure (List.append_nil _)
  · exact marks_ifStatement hr
  · exact marks_whileStatement hr
  · exact marks_doStatement hr
  · exact marks_forStatement hr
  · exact marks_returnStatement hr
  · exact .next plain_jump fun _ => .pure (List.append_nil _)
  · exact .next plain_jump fun _ => .pure (List.append_nil _)
  · exact marks_gotoStatement
  · exact marks_localDeclaration hr
  · exact marks_wordlessStatement hr

/-! ### All rules -/

theorem Rules.marks_none : Rules.none.Marks tokens where
  statement _ := .next .runOut fun _ => .next plain_refuse fun _ =>
    .next .get fun _ => .pure (List.append_nil _)
  expression _ := .next .runOut fun _ => .next plain_refuse fun _ => marks_missingExpression
  unary _ := .next .runOut fun _ => .next plain_refuse fun _ => marks_missingExpression
  type _ := fun _ => .next .runOut fun _ => .next plain_refuse fun _ => plain_missingType _
  binaryTail _ _ _ _ _ := .next .runOut fun _ => .next plain_refuse fun _ => marks_leaveWith _ _
  postfixTail _ _ _ _ := .next .runOut fun _ => .next plain_refuse fun _ => marks_leaveWith _ _
  elements _ := .next .runOut fun _ => .next plain_refuse fun _ => .pure (List.append_nil _)
  continuationBody _ := .next .runOut fun _ => .next plain_refuse fun _ =>
    .pure (List.append_nil _)

/-- Whatever the bound, the rules find the marks of their results in their order. -/
theorem rules_marks (n : Nat) : (rules n).Marks tokens := by
  induction n with
  | zero => exact Rules.marks_none
  | succ n ih =>
    exact
      { statement := fun _ => marks_nested (.next .get fun _ => .pure (List.append_nil _))
          (marks_statementBody ih)
        expression := fun _ => marks_nested marks_missingExpression (marks_expressionBody ih)
        unary := fun _ => marks_nested marks_missingExpression (marks_unaryBody ih)
        type := fun _ _ => marks_nested (plain_missingType _) (plain_typeBody ih.type _ _)
        binaryTail := fun _ levels least start left =>
          marks_binaryTailBody ih levels least start left
        postfixTail := fun _ levels start operand => marks_postfixTailBody ih levels start operand
        elements := fun _ => marks_nested (.pure (List.append_nil _)) (marks_elementsBody ih)
        continuationBody := fun _ => marks_nested (.pure (List.append_nil _))
          ((marks_queryBody ih).map fun _ => rfl) }

end Parser

end

end CSharpFront
