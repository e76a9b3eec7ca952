import CSharpFront.Proofs.Parser.Keeps
import CSharpFront.Proofs.Syntax.Layout
/-!
Expressions report only onward. Where the tokens that are left and the last one taken end past an
offset, an expression reports nothing before that offset: whatever is missing or wrong in it is
reported at the next token or just past the last one. Instances say so of each step and of each way
to put steps together, so that it is inferred of what is put together in these ways.
-/

namespace CSharpFront.Parser

-- A production is put together of more steps than instances are searched through by default.
set_option synthInstance.maxSize 1000

/-- What has been reported after other diagnostics begins at an offset or past it. -/
def ReportedFrom (offset : Nat) (before after : Array Diagnostic) : Prop :=
  ∃ ds, after = before ++ ds ∧ ∀ d ∈ ds, offset ≤ d.span.start

/-- All that is left lies past an offset, and so does all that has been reported after other
diagnostics. -/
structure Past (offset : Nat) (before : Array Diagnostic) (env : Env) (s : State) : Prop where
  endOfFile : offset ≤ env.endOfFile.start
  rest : ∀ t ∈ s.rest, offset ≤ t.start ∧ offset ≤ t.stop
  prevStop : offset ≤ s.prevStop
  diagnostics : ReportedFrom offset before s.diagnostics

/-- A parser that reports nothing before an offset past which all lies that is left. -/
class Onward {α : Type} (p : P α) : Prop where
  keeps (offset : Nat) (before : Array Diagnostic) : Keeps (Past offset before) p fun _ => True

variable {α β : Type} {offset : Nat} {before : Array Diagnostic}

theorem ReportedFrom.refl (offset : Nat) (before : Array Diagnostic) :
    ReportedFrom offset before before :=
  ⟨#[], Array.append_empty.symm, nofun⟩

theorem ReportedFrom.push {after : Array Diagnostic} (h : ReportedFrom offset before after)
    {d : Diagnostic} (hd : offset ≤ d.span.start) : ReportedFrom offset before (after.push d) := by
  obtain ⟨ds, rfl, hds⟩ := h
  refine ⟨ds.push d, Array.append_push.symm, fun e he => ?_⟩
  rcases Array.mem_push.mp he with he | rfl
  · exact hds e he
  · exact hd

instance : Blind (Past offset before) :=
  ⟨fun _ hs => ⟨hs.endOfFile, hs.rest, hs.prevStop, hs.diagnostics⟩,
    fun _ hs => ⟨hs.endOfFile, hs.rest, hs.prevStop, hs.diagnostics⟩⟩

namespace Onward

variable {p : P α}

instance pure (a : α) : Onward (Pure.pure a : P α) := ⟨fun _ _ => .pure trivial⟩

/-- A step with what comes after it, where that is not inferred. -/
theorem next {f : α → P β} [hp : Onward p] (hf : ∀ a, Onward (f a)) : Onward (p >>= f) :=
  ⟨fun offset before => .bind (hp.keeps offset before) fun a _ => (hf a).keeps offset before⟩

instance bind {f : α → P β} [Onward p] [hf : ∀ a, Onward (f a)] : Onward (p >>= f) := next hf

instance map {f : α → β} [Onward p] : Onward (f <$> p) := next fun a => pure (f a)

theorem branch {c : Prop} [Decidable c] {q : P α} (hp : Onward p) (hq : Onward q) :
    Onward (if c then p else q) := by
  split
  · exact hp
  · exact hq

instance ite {c : Prop} [Decidable c] {q : P α} [hp : Onward p] [hq : Onward q] :
    Onward (if c then p else q) :=
  branch hp hq

instance get : Onward MonadState.get := ⟨fun _ _ => Keeps.get.imp fun _ _ => trivial⟩

instance read : Onward MonadReader.read := ⟨fun _ _ => Keeps.read.imp fun _ _ => trivial⟩

/-- A step that is not inferred before others that are. -/
theorem of_keeps {post : Nat → α → Prop} {f : α → P β}
    (hp : ∀ offset before, Keeps (Past offset before) p (post offset))
    (hf : ∀ offset before a, post offset a → Keeps (Past offset before) (f a) fun _ => True) :
    Onward (p >>= f) :=
  ⟨fun offset before => .bind (hp offset before) fun a ha => hf offset before a ha⟩

end Onward

/-! ### Elementary steps -/

theorem Past.next {env : Env} {s : State} (hs : Past offset before env s) :
    offset ≤ (s.rest.headD env.endOfFile).start := by
  cases h : s.rest with
  | nil => exact hs.endOfFile
  | cons t rest => exact (hs.rest t (h ▸ List.mem_cons_self)).1

theorem keeps_current : Keeps (Past offset before) current fun t => offset ≤ t.start :=
  fun _ _ hs => ⟨hs.next, hs⟩

theorem keeps_expectedSpan : Keeps (Past offset before) expectedSpan fun span =>
    offset ≤ span.start := by
  refine .bind keeps_current fun t ht => .ite (fun _ => ?_) fun _ => .pure ht
  exact .bind .get fun s ⟨_, hs⟩ => .pure hs.prevStop

theorem keeps_report (message : Message) {span : Span} (h : offset ≤ span.start)
    (arguments : List String) :
    Keeps (Past offset before) (report message span arguments) fun _ => True := by
  refine .of_modify fun env s hs => ?_
  split
  · exact hs
  · exact ⟨hs.endOfFile, hs.rest, hs.prevStop, hs.diagnostics.push h⟩

instance : Onward current := by unfold current; infer_instance

instance : Onward currentKind := by unfold currentKind; infer_instance

instance : Onward advance := by
  refine ⟨fun _ _ => .of_modify fun env s hs => ?_⟩
  cases h : s.rest with
  | nil => exact hs
  | cons t rest =>
    have hrest := List.forall_mem_cons.mp (h ▸ hs.rest)
    exact ⟨hs.endOfFile, hrest.2, hrest.1.2, hs.diagnostics⟩

instance (n : Nat) : Onward (advanceBy n) := by
  induction n with
  | zero => exact .pure ()
  | succ n ih => unfold advanceBy; infer_instance

instance (start : Nat) : Onward (rangeFrom start) := by unfold rangeFrom; infer_instance

/-- A report of what is expected here. -/
instance (priority := high) {message : Message} {arguments : List String} {f : Unit → P α}
    [hf : ∀ u, Onward (f u)] :
    Onward (expectedSpan >>= fun span => report message span arguments >>= f) :=
  .of_keeps (fun _ _ => keeps_expectedSpan) fun _ _ _ h =>
    .bind (keeps_report message h arguments) fun u _ => (hf u).keeps _ _

instance (kind : TokenKind) : Onward (eat kind) := by unfold eat reportExpected; infer_instance

instance (kind : TokenKind) : Onward (accept kind) := by unfold accept; infer_instance

instance : Onward take := by unfold take; infer_instance

instance (word : String) : Onward (eatContextual word) := by
  refine .next fun _ => .branch inferInstance ?_
  exact .of_keeps (fun _ _ => keeps_expectedSpan) fun _ _ _ h => keeps_report _ h _

instance (name : String) : Onward (noteName name) :=
  ⟨fun _ _ => .of_modify fun _ _ hs => ⟨hs.endOfFile, hs.rest, hs.prevStop, hs.diagnostics⟩⟩

instance (t : Token) : Onward (identifierOf t) := by unfold identifierOf; infer_instance

instance : Onward identifier := by unfold identifier reportExpected; infer_instance

instance : Onward missingExpression := by unfold missingExpression; infer_instance

instance : Onward missingType := by unfold missingType; infer_instance

/-! ### Levels and loops -/

instance : Onward refuse := by
  refine .next fun _ => .branch inferInstance ?_
  refine .of_keeps (fun _ _ => keeps_current) fun _ _ t ht => ?_
  refine .bind .read fun env ⟨_, hs⟩ => .of_modify fun _ _ hs' => ?_
  exact ⟨hs'.endOfFile, List.forall_mem_nil _, hs.endOfFile, hs'.diagnostics.push ht⟩

instance : Onward enter := ⟨fun offset before => .enter (Onward.keeps offset before)⟩

instance (levels : Nat) : Onward (leave levels) := ⟨fun _ _ => .leave levels⟩

instance : Onward (runOut : P Unit) := ⟨fun _ _ => .runOut⟩

instance {refused body : P α} [Onward refused] [Onward body] : Onward (nested refused body) := by
  unfold nested; infer_instance

instance {step : α → P (ForInStep α)} [hs : ∀ a, Onward (step a)] (a : α) :
    Onward (loop a step) :=
  ⟨fun offset before => .loop (fun _ => True) trivial fun a _ => (hs a).keeps offset before⟩

instance {item : P (Option α)} [hi : Onward item] : Onward (many item) := by
  refine ⟨fun offset before => ?_⟩
  have hitem : Keeps (Past offset before) item fun a? => ∀ a ∈ a?, True :=
    (hi.keeps offset before).imp fun _ _ _ _ => trivial
  exact Keeps.imp (.many hitem) fun _ _ => trivial

instance {item : P α} [Onward item] : Onward (afterCommas item) := by
  unfold afterCommas; infer_instance

instance {item : P α} [Onward item] : Onward (separated item) := by
  unfold separated; infer_instance

/-! ### The rules -/

/-- Rules that report onward where they make expressions, or parts of them. -/
class Rules.Onward (r : Rules) : Prop where
  expression : Parser.Onward r.expression
  unary : Parser.Onward r.unary
  type (withRanks : Bool) : Parser.Onward (r.type withRanks)
  binaryTail (levels least start : Nat) (left : Expr) :
    Parser.Onward (r.binaryTail levels least start left)
  postfixTail (levels start : Nat) (operand : Expr) :
    Parser.Onward (r.postfixTail levels start operand)
  elements : Parser.Onward r.elements
  continuationBody : Parser.Onward r.continuationBody

attribute [instance] Rules.Onward.expression Rules.Onward.unary Rules.Onward.type
  Rules.Onward.binaryTail Rules.Onward.postfixTail Rules.Onward.elements
  Rules.Onward.continuationBody

section

variable {r : Rules} [r.Onward]

/-! ### Types and names -/

instance (start : Nat) (type : TypeSyntax) : Onward (rankSpecifiers start type) := by
  unfold rankSpecifiers; infer_instance

instance : Onward (simpleName r) := by unfold simpleName; infer_instance

instance : Onward (name r) := by unfold name; infer_instance

@[instance]
theorem onward_typeCore? : Onward (typeCore? r) := by
  unfold typeCore?
  refine .next fun _ => ?_
  split <;> infer_instance

instance (withRanks : Bool) : Onward (typeBody withRanks r) := by
  unfold typeBody
  refine .next fun _ => .next fun type? => ?_
  cases type? <;> (dsimp only; infer_instance)

/-! ### Expressions -/

instance : Onward (initializer r) := by unfold initializer; infer_instance

instance : Onward (element r) := by unfold element; infer_instance

instance : Onward (elementsBody r) := by unfold elementsBody; infer_instance

instance : Onward (optionalInitializer r) := by unfold optionalInitializer; infer_instance

instance : Onward (argument r) := by unfold argument; infer_instance

instance (opening closing : Punctuator) : Onward (arguments r opening closing) := by
  unfold arguments; infer_instance

instance : Onward (sizes r) := by unfold sizes; infer_instance

instance (start : Nat) (element : TypeSyntax) : Onward (arrayCreationRest r start element) := by
  unfold arrayCreationRest; infer_instance

instance (start : Nat) (type : TypeSyntax) : Onward (objectCreationRest r start type) := by
  unfold objectCreationRest; infer_instance

@[instance]
theorem onward_creation : Onward (creation r) := by
  unfold creation
  refine .next fun _ => .next fun _ => .next fun _ => .branch inferInstance ?_
  refine .next fun _ => .next fun _ => ?_
  split <;> infer_instance

/-- Where no expression begins, that is reported at the next token. -/
instance : Onward invalidTerm := by
  refine .of_keeps (fun _ _ => keeps_current) fun _ _ t ht => ?_
  refine .ite (fun _ => ?_) fun _ => ?_ <;>
    exact .bind (keeps_report _ ht _) fun _ _ => Onward.keeps _ _

@[instance]
theorem onward_primary : Onward (primary r) := by
  unfold primary
  refine .next fun _ => ?_
  split
  · infer_instance
  · split
    · infer_instance
    · split <;> infer_instance

instance : Onward (castExpression r) := by unfold castExpression; infer_instance

instance : Onward (unaryBody r) := by unfold unaryBody; infer_instance

@[instance]
theorem onward_postfixStep (start : Nat) (operand : Expr) :
    Onward (postfixStep r start operand) := by
  unfold postfixStep
  refine .next fun _ => ?_
  split <;> infer_instance

instance (levels start : Nat) (operand : Expr) :
    Onward (postfixTailBody r levels start operand) := by
  unfold postfixTailBody; infer_instance

@[instance]
theorem onward_nextOperator? (least : Nat) : Onward (nextOperator? least) := by
  unfold nextOperator?
  refine .next fun _ => .next fun _ => ?_
  dsimp only
  split <;> infer_instance

instance (least : Nat) : Onward (binary r least) := by unfold binary; infer_instance

@[instance]
theorem onward_binaryStep (start : Nat) (left : Expr) (operator : Operator) (p : Precedence) :
    Onward (binaryStep r start left operator p) := by
  unfold binaryStep
  refine .next fun _ => ?_
  split <;> infer_instance

@[instance]
theorem onward_binaryTailBody (levels least start : Nat) (left : Expr) :
    Onward (binaryTailBody r levels least start left) := by
  unfold binaryTailBody
  refine .next fun _ => ?_
  split <;> infer_instance

instance : Onward (conditional r) := by unfold conditional; infer_instance

instance : Onward (assignment r) := by unfold assignment; infer_instance

/-! ### Queries -/

instance : Onward (fromClause r) := by
  unfold fromClause
  dsimp only
  infer_instance

instance : Onward (letClause r) := by unfold letClause; infer_instance

instance : Onward (whereClause r) := by unfold whereClause; infer_instance

@[instance]
theorem onward_sortKey : Onward (sortKey r) := by
  unfold sortKey
  dsimp only
  refine .next fun _ => .next fun _ => .next fun _ => ?_
  split <;> infer_instance

instance : Onward (orderByClause r) := by unfold orderByClause; infer_instance

@[instance]
theorem onward_queryClause? : Onward (queryClause? r) := by
  unfold queryClause?
  refine .next fun _ => ?_
  split <;> infer_instance

@[instance]
theorem onward_queryEnding : Onward (queryEnding r) := by
  refine .of_keeps (fun _ _ => keeps_current) fun _ _ t ht => ?_
  split
  · exact Onward.keeps _ _
  · exact Onward.keeps _ _
  · exact .bind (keeps_report _ ht _) fun _ _ => Onward.keeps _ _

@[instance]
theorem onward_continuation? : Onward (continuation? r) := by
  unfold continuation?
  refine .next fun _ => .branch (.next fun _ => .next fun _ => .next fun _ => ?_) inferInstance
  split <;> infer_instance

instance : Onward (queryBody r) := by unfold queryBody; infer_instance

instance : Onward (query r) := by unfold query; infer_instance

instance : Onward (expressionBody r) := by unfold expressionBody; infer_instance

end

/-! ### All rules -/

instance : Rules.none.Onward := by
  constructor <;> intros <;> unfold Rules.none <;> infer_instance

instance (n : Nat) : (rules n).Onward := by
  induction n with
  | zero => exact inferInstanceAs Rules.none.Onward
  | succ n ih =>
    exact {
      expression := inferInstanceAs (Onward (nested missingExpression (expressionBody (rules n))))
      unary := inferInstanceAs (Onward (nested missingExpression (unaryBody (rules n))))
      type := fun withRanks =>
        inferInstanceAs (Onward (nested missingType (typeBody withRanks (rules n))))
      binaryTail := fun levels least start left =>
        inferInstanceAs (Onward (binaryTailBody (rules n) levels least start left))
      postfixTail := fun levels start operand =>
        inferInstanceAs (Onward (postfixTailBody (rules n) levels start operand))
      elements := inferInstanceAs (Onward (nested (pure []) (elementsBody (rules n))))
      continuationBody :=
        inferInstanceAs (Onward (nested (pure none) (some <$> queryBody (rules n)))) }

end CSharpFront.Parser
