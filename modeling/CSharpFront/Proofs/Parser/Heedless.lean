import CSharpFront.Parser.Declarations
/-!
Parsers that do not heed cancellation. Only the parsers of members ask whether they have been
cancelled; all others neither ask nor depend on how many questions are left, and leave that number
alone. Instances say so of each step and of each way to put steps together, so that it is inferred
of what is put together in these ways.
-/

namespace CSharpFront.Parser

-- A production is put together of more steps than instances are searched through by default.
set_option synthInstance.maxSize 1000

/-- A parser that does not ask for cancellation, and to which it does not matter how many questions
are left. -/
class Heedless {α : Type} (p : P α) : Prop where
  run : ∀ env s polls, p env { s with polls } = ((p env s).1, { (p env s).2 with polls })

/-- Equality by definition, so that it can be inferred. -/
class Same {α : Type} (a b : α) : Prop where
  eq : a = b

instance {α : Type} (a : α) : Same a a := ⟨rfl⟩

namespace Heedless

variable {α β : Type} {p : P α}

instance pure (a : α) : Heedless (Pure.pure a : P α) := ⟨fun _ _ _ => rfl⟩

/-- A step with what comes after it, where that is not inferred. -/
theorem next {f : α → P β} [hp : Heedless p] (hf : ∀ a, Heedless (f a)) : Heedless (p >>= f) := by
  refine ⟨fun env s polls => ?_⟩
  show f (p env { s with polls }).1 env (p env { s with polls }).2 = _
  rw [hp.run]
  exact (hf _).run env _ polls

instance bind {f : α → P β} [Heedless p] [hf : ∀ a, Heedless (f a)] : Heedless (p >>= f) := next hf

theorem first {f : α → P β} (hp : Heedless p) [∀ a, Heedless (f a)] : Heedless (p >>= f) := bind

instance map {f : α → β} [Heedless p] : Heedless (f <$> p) := next fun a => pure (f a)

theorem branch {c : Prop} [Decidable c] {q : P α} (hp : Heedless p) (hq : Heedless q) :
    Heedless (if c then p else q) := by
  split
  · exact hp
  · exact hq

instance ite {c : Prop} [Decidable c] {q : P α} [hp : Heedless p] [hq : Heedless q] :
    Heedless (if c then p else q) :=
  branch hp hq

/-- After a look at the state, what is done must be the same whatever questions are left. -/
theorem look {f : State → P α} (h : ∀ s polls, f { s with polls } = f s)
    (hf : ∀ s, Heedless (f s)) : Heedless (MonadState.get >>= f) := by
  refine ⟨fun env s polls => ?_⟩
  show f { s with polls } env _ = _
  rw [h]
  exact (hf s).run env s polls

instance get {f : State → P α} [h : ∀ s polls, Same (f { s with polls }) (f s)]
    [hf : ∀ s, Heedless (f s)] : Heedless (MonadState.get >>= f) :=
  look (fun s polls => (h s polls).eq) hf

instance read : Heedless MonadReader.read := ⟨fun _ _ _ => rfl⟩

theorem of_modify {f : State → State} (h : ∀ s polls, f { s with polls } = { f s with polls }) :
    Heedless (modify f) :=
  ⟨fun _ s polls => congrArg (((), ·)) (h s polls)⟩

instance withReader {f : Env → Env} [hp : Heedless p] : Heedless (withReader f p) :=
  ⟨fun env s polls => hp.run (f env) s polls⟩

end Heedless

/-! ### Elementary steps -/

instance : Heedless current := by unfold current; infer_instance

instance : Heedless currentKind := by unfold currentKind; infer_instance

@[instance]
theorem heedless_advance : Heedless advance := by
  refine .of_modify fun s polls => ?_
  dsimp only
  split <;> rfl

instance (n : Nat) : Heedless (advanceBy n) := by
  induction n with
  | zero => exact .pure ()
  | succ n ih => unfold advanceBy; infer_instance

instance (start : Nat) : Heedless (rangeFrom start) := by unfold rangeFrom; infer_instance

@[instance]
theorem heedless_report (message : Message) (span : Span) (arguments : List String) :
    Heedless (report message span arguments) := by
  refine .of_modify fun s polls => ?_
  dsimp only
  split <;> rfl

instance : Heedless expectedSpan := by unfold expectedSpan; infer_instance

instance (kind : TokenKind) (span : Span) : Heedless (reportExpected kind span) := by
  unfold reportExpected; infer_instance

instance (kind : TokenKind) : Heedless (eat kind) := by unfold eat; infer_instance

instance (kind : TokenKind) : Heedless (accept kind) := by unfold accept; infer_instance

instance : Heedless take := by unfold take; infer_instance

instance (kind : TokenKind) : Heedless (replace kind) := by unfold replace; infer_instance

instance (word : String) : Heedless (eatContextual word) := by unfold eatContextual; infer_instance

instance (name : String) : Heedless (noteName name) := .of_modify fun _ _ => rfl

instance (t : Token) : Heedless (identifierOf t) := by unfold identifierOf; infer_instance

instance : Heedless identifier := by unfold identifier; infer_instance

instance : Heedless missingExpression := by unfold missingExpression; infer_instance

instance : Heedless missingType := by unfold missingType; infer_instance

instance : Heedless emptyStatement := by unfold emptyStatement; infer_instance

/-! ### Levels and loops -/

instance : Heedless refuse := by
  have (span : Span) (last : Nat) : Heedless (modify fun s : State => s.moveTo { s.toMoment with
      rest := [], prevStop := last, tooDeep := true,
      diagnostics := s.diagnostics.push (.of .tooDeep span) }) := .of_modify fun _ _ => rfl
  unfold refuse; infer_instance

instance : Heedless enter := by
  have : Heedless (modify fun s : State => s.moveTo { s.toMoment with depth := s.depth + 1 }) :=
    .of_modify fun _ _ => rfl
  unfold enter; infer_instance

instance (levels : Nat) : Heedless (leave levels) := .of_modify fun _ _ => rfl

instance : Heedless (runOut : P Unit) := .of_modify fun _ _ => rfl

section

variable {α : Type}

instance {refused body : P α} [Heedless refused] [Heedless body] :
    Heedless (nested refused body) := by
  unfold nested; infer_instance

instance {step : α → P (ForInStep α)} [∀ a, Heedless (step a)] (n : Nat) (a : α) :
    Heedless (iterate step n a) := by
  induction n generalizing a with
  | zero => unfold iterate; infer_instance
  | succ n ih =>
    refine .next fun r => ?_
    cases r with
    | done b => exact .pure b
    | yield b => exact ih b

instance {step : α → P (ForInStep α)} [∀ a, Heedless (step a)] (a : α) :
    Heedless (loop a step) := by
  unfold loop; infer_instance

theorem Heedless.rounds {step : α → P (ForInStep α)} (hs : ∀ a, Heedless (step a)) (a : α) :
    Heedless (loop a step) :=
  inferInstance

@[instance]
theorem heedless_many {item : P (Option α)} [Heedless item] : Heedless (many item) := by
  unfold many
  refine .first (.rounds (fun _ => .next fun _ => ?_) _)
  split <;> infer_instance

instance {item : P α} [Heedless item] : Heedless (afterCommas item) := by
  unfold afterCommas; infer_instance

instance {item : P α} [Heedless item] : Heedless (separated item) := by
  unfold separated; infer_instance

end

/-! ### The rules -/

/-- Rules each of which is heedless. -/
class Rules.Heedless (r : Rules) : Prop where
  statement : Parser.Heedless r.statement
  expression : Parser.Heedless r.expression
  unary : Parser.Heedless r.unary
  type (withRanks : Bool) : Parser.Heedless (r.type withRanks)
  binaryTail (levels least start : Nat) (left : Expr) :
    Parser.Heedless (r.binaryTail levels least start left)
  postfixTail (levels start : Nat) (operand : Expr) :
    Parser.Heedless (r.postfixTail levels start operand)
  elements : Parser.Heedless r.elements
  continuationBody : Parser.Heedless r.continuationBody

attribute [instance] Rules.Heedless.statement Rules.Heedless.expression Rules.Heedless.unary
  Rules.Heedless.type Rules.Heedless.binaryTail Rules.Heedless.postfixTail
  Rules.Heedless.elements Rules.Heedless.continuationBody

section

variable {r : Rules} [r.Heedless]

/-! ### Types and names -/

instance (start : Nat) (type : TypeSyntax) : Heedless (rankSpecifiers start type) := by
  unfold rankSpecifiers; infer_instance

instance : Heedless (simpleName r) := by unfold simpleName; infer_instance

instance : Heedless (name r) := by unfold name; infer_instance

@[instance]
theorem heedless_typeCore? : Heedless (typeCore? r) := by
  unfold typeCore?
  refine .next fun _ => ?_
  split <;> infer_instance

instance (withRanks : Bool) : Heedless (typeBody withRanks r) := by
  unfold typeBody
  refine .next fun _ => .next fun type? => ?_
  cases type? <;> (dsimp only; infer_instance)

/-! ### Expressions -/

instance : Heedless (initializer r) := by unfold initializer; infer_instance

instance : Heedless (element r) := by unfold element; infer_instance

instance : Heedless (elementsBody r) := by unfold elementsBody; infer_instance

instance : Heedless (optionalInitializer r) := by unfold optionalInitializer; infer_instance

instance : Heedless (argument r) := by unfold argument; infer_instance

instance (opening closing : Punctuator) : Heedless (arguments r opening closing) := by
  unfold arguments; infer_instance

instance : Heedless (sizes r) := by unfold sizes; infer_instance

instance (start : Nat) (element : TypeSyntax) : Heedless (arrayCreationRest r start element) := by
  unfold arrayCreationRest; infer_instance

instance (start : Nat) (type : TypeSyntax) : Heedless (objectCreationRest r start type) := by
  unfold objectCreationRest; infer_instance

@[instance]
theorem heedless_creation : Heedless (creation r) := by
  unfold creation
  refine .next fun _ => .next fun _ => .next fun _ => .branch inferInstance ?_
  refine .next fun _ => .next fun _ => ?_
  split <;> infer_instance

instance : Heedless invalidTerm := by unfold invalidTerm; infer_instance

@[instance]
theorem heedless_primary : Heedless (primary r) := by
  unfold primary
  refine .next fun _ => ?_
  split
  · infer_instance
  · split
    · infer_instance
    · split <;> infer_instance

instance : Heedless (castExpression r) := by unfold castExpression; infer_instance

instance : Heedless (unaryBody r) := by unfold unaryBody; infer_instance

@[instance]
theorem heedless_postfixStep (start : Nat) (operand : Expr) :
    Heedless (postfixStep r start operand) := by
  unfold postfixStep
  refine .next fun _ => ?_
  split <;> infer_instance

instance (levels start : Nat) (operand : Expr) :
    Heedless (postfixTailBody r levels start operand) := by
  unfold postfixTailBody; infer_instance

@[instance]
theorem heedless_nextOperator? (least : Nat) : Heedless (nextOperator? least) := by
  unfold nextOperator?
  refine .next fun _ => .look (fun _ _ => rfl) fun _ => ?_
  dsimp only
  split <;> infer_instance

instance (least : Nat) : Heedless (binary r least) := by unfold binary; infer_instance

@[instance]
theorem heedless_binaryStep (start : Nat) (left : Expr) (operator : Operator) (p : Precedence) :
    Heedless (binaryStep r start left operator p) := by
  unfold binaryStep
  refine .next fun _ => ?_
  split <;> infer_instance

@[instance]
theorem heedless_binaryTailBody (levels least start : Nat) (left : Expr) :
    Heedless (binaryTailBody r levels least start left) := by
  unfold binaryTailBody
  refine .next fun _ => ?_
  split <;> infer_instance

instance : Heedless (conditional r) := by unfold conditional; infer_instance

instance : Heedless (assignment r) := by unfold assignment; infer_instance

/-! ### Queries -/

instance : Heedless (fromClause r) := by
  unfold fromClause
  dsimp only
  infer_instance

instance : Heedless (letClause r) := by unfold letClause; infer_instance

instance : Heedless (whereClause r) := by unfold whereClause; infer_instance

@[instance]
theorem heedless_sortKey : Heedless (sortKey r) := by
  unfold sortKey
  dsimp only
  refine .next fun _ => .next fun _ => .next fun _ => ?_
  split <;> infer_instance

instance : Heedless (orderByClause r) := by unfold orderByClause; infer_instance

@[instance]
theorem heedless_queryClause? : Heedless (queryClause? r) := by
  unfold queryClause?
  refine .next fun _ => ?_
  split <;> infer_instance

@[instance]
theorem heedless_queryEnding : Heedless (queryEnding r) := by
  unfold queryEnding
  refine .next fun _ => ?_
  split <;> infer_instance

@[instance]
theorem heedless_continuation? : Heedless (continuation? r) := by
  unfold continuation?
  refine .next fun _ => .branch (.next fun _ => .next fun _ => .next fun _ => ?_) inferInstance
  split <;> infer_instance

instance : Heedless (queryBody r) := by unfold queryBody; infer_instance

instance : Heedless (query r) := by unfold query; infer_instance

instance : Heedless (expressionBody r) := by unfold expressionBody; infer_instance

/-! ### Statements -/

instance (identifier : Identifier) : Heedless (declarator r identifier) := by
  unfold declarator; infer_instance

instance (start : Nat) (type : TypeSyntax) (first : Identifier) :
    Heedless (declarators r start type first) := by
  unfold declarators; infer_instance

instance : Heedless (variableDeclaration r) := by unfold variableDeclaration; infer_instance

instance : Heedless (localDeclaration r) := by unfold localDeclaration; infer_instance

instance : Heedless startsLocalDeclaration := by unfold startsLocalDeclaration; infer_instance

instance (e : Expr) : Heedless (checkStatementExpression e) := by
  unfold checkStatementExpression; infer_instance

instance (es : List Expr) : Heedless (checkStatementExpressions es) := by
  induction es with
  | nil => exact .pure ()
  | cons e es ih => unfold checkStatementExpressions; infer_instance

instance : Heedless (expressionStatement r) := by unfold expressionStatement; infer_instance

instance : Heedless skipToStatement := by unfold skipToStatement; infer_instance

instance : Heedless (blockStatement? r) := by unfold blockStatement?; infer_instance

instance : Heedless (block r) := by unfold block; infer_instance

instance : Heedless (condition r) := by unfold condition; infer_instance

instance : Heedless (ifStatement r) := by unfold ifStatement; infer_instance

instance : Heedless (whileStatement r) := by unfold whileStatement; infer_instance

instance : Heedless (doStatement r) := by unfold doStatement; infer_instance

instance (expected : TokenKind) : Heedless (skipInList expected) := by
  unfold skipInList; infer_instance

instance : Heedless listSeparator := by unfold listSeparator; infer_instance

instance (allowSemicolon : Bool) : Heedless (forExpressionsRest r allowSemicolon) := by
  unfold forExpressionsRest; infer_instance

instance (allowSemicolon : Bool) : Heedless (forExpressions r allowSemicolon) := by
  unfold forExpressions; infer_instance

instance : Heedless (forInitializer? r) := by unfold forInitializer?; infer_instance

instance : Heedless forSemicolon := by unfold forSemicolon; infer_instance

instance : Heedless (forCondition? r) := by unfold forCondition?; infer_instance

instance : Heedless forCloseParen := by unfold forCloseParen; infer_instance

@[instance]
theorem heedless_forHeader : Heedless (forHeader r) := by
  unfold forHeader
  dsimp only
  refine .next fun _ => .next fun _ => .next fun _ => .next fun _ => .next fun _ => ?_
  refine .next fun _ => .next fun _ => .branch ?_ ?_ <;>
    refine .next fun _ => .next fun _ => ?_ <;> split <;> infer_instance

instance : Heedless (forStatement r) := by unfold forStatement; infer_instance

instance : Heedless (returnStatement r) := by
  unfold returnStatement
  dsimp only
  infer_instance

instance : Heedless jump := by unfold jump; infer_instance

instance : Heedless gotoStatement := by unfold gotoStatement; infer_instance

instance : Heedless (labeledStatement r) := by unfold labeledStatement; infer_instance

instance : Heedless (wordlessStatement r) := by unfold wordlessStatement; infer_instance

@[instance]
theorem heedless_statementBody : Heedless (statementBody r) := by
  unfold statementBody
  refine .next fun _ => ?_
  split <;> infer_instance

/-! ### All rules -/

instance : Rules.none.Heedless := by
  constructor <;> intros <;> unfold Rules.none <;> infer_instance

instance (n : Nat) : (rules n).Heedless := by
  induction n with
  | zero => exact inferInstanceAs Rules.none.Heedless
  | succ n ih =>
    exact {
      statement := inferInstanceAs (Heedless (nested emptyStatement (statementBody (rules n))))
      expression := inferInstanceAs (Heedless (nested missingExpression (expressionBody (rules n))))
      unary := inferInstanceAs (Heedless (nested missingExpression (unaryBody (rules n))))
      type := fun withRanks =>
        inferInstanceAs (Heedless (nested missingType (typeBody withRanks (rules n))))
      binaryTail := fun levels least start left =>
        inferInstanceAs (Heedless (binaryTailBody (rules n) levels least start left))
      postfixTail := fun levels start operand =>
        inferInstanceAs (Heedless (postfixTailBody (rules n) levels start operand))
      elements := inferInstanceAs (Heedless (nested (pure []) (elementsBody (rules n))))
      continuationBody :=
        inferInstanceAs (Heedless (nested (pure none) (some <$> queryBody (rules n)))) }

/-! ### Declarations -/

instance : Heedless modifiers := by unfold modifiers; infer_instance

instance : Heedless alias? := by unfold alias?; infer_instance

instance : Heedless (usingDirective r) := by unfold usingDirective; infer_instance

instance : Heedless (usingDirectives r) := by unfold usingDirectives; infer_instance

instance : Heedless (parameter r) := by unfold parameter; infer_instance

instance : Heedless (parameters r) := by unfold parameters; infer_instance

instance (isAsync : Bool) : Heedless (methodBody r isAsync) := by unfold methodBody; infer_instance

@[instance]
theorem heedless_constructorInitializer : Heedless (constructorInitializer r) := by
  unfold constructorInitializer
  refine .next fun _ => .branch (.next fun _ => ?_) inferInstance
  dsimp only
  split <;> infer_instance

instance (start : Nat) (modifiers : Modifiers) (returnType? : Option TypeSyntax)
    (identifier : Identifier) :
    Heedless (methodRest r start modifiers returnType? identifier) := by
  unfold methodRest; infer_instance

instance (start : Nat) (modifiers : Modifiers) :
    Heedless (conversionOperator r start modifiers) := by
  unfold conversionOperator; infer_instance

instance (start : Nat) (modifiers : Modifiers) : Heedless (typedMember r start modifiers) := by
  unfold typedMember; infer_instance

instance (start : Nat) : Heedless (badMember start) := by unfold badMember; infer_instance

instance (start : Nat) (modifiers : Modifiers) : Heedless (plainMember r start modifiers) := by
  unfold plainMember; infer_instance

instance : Heedless (baseTypes r) := by unfold baseTypes; infer_instance

instance : Heedless (globalStatement r) := by unfold globalStatement; infer_instance

instance : Heedless badGlobalMember := by unfold badGlobalMember; infer_instance

end

end CSharpFront.Parser
