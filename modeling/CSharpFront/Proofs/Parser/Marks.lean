import CSharpFront.Parser.Declarations
import CSharpFront.Proofs.Syntax.Marks
/-!
Where casts and labels begin. Each of them begins with a token of its own, and the parser never goes
back. So the marks of all that has been read so far are found, in their order, among the tokens that
have been taken so far, and what is read next adds its own marks at the end.
-/

namespace CSharpFront.Parser

variable {tokens : List Token} {before : List Nat} {r : Rules}

/-- Some offsets are among those at which the tokens begin that have been taken, in their order. -/
def Marked (tokens : List Token) (marks : List Nat) (s : State) : Prop :=
  ∃ taken, tokens = taken ++ s.rest ∧ marks.Sublist (taken.map Token.start)

theorem Marked.sublist {marks marks' : List Nat} {s : State} (h : Marked tokens marks s)
    (hm : marks'.Sublist marks) : Marked tokens marks' s := by
  obtain ⟨taken, htokens, hmarks⟩ := h
  exact ⟨taken, htokens, hm.trans hmarks⟩

/-- Taking tokens keeps what has been found among those before. -/
theorem Marked.suffix {marks : List Nat} {s s' : State} (h : Marked tokens marks s)
    (hs : s'.rest <:+ s.rest) : Marked tokens marks s' := by
  obtain ⟨taken, rfl, hmarks⟩ := h
  obtain ⟨more, hmore⟩ := hs
  refine ⟨taken ++ more, ?_, hmarks.trans ?_⟩
  · rw [← hmore, List.append_assoc]
  · rw [List.map_append]
    exact List.sublist_append_left _ _

/-- The token that is taken may be a mark. -/
theorem Marked.take {marks : List Nat} {s s' : State} {t : Token} (h : Marked tokens marks s)
    (hs : s.rest = t :: s'.rest) : Marked tokens (marks ++ [t.start]) s' := by
  obtain ⟨taken, rfl, hmarks⟩ := h
  refine ⟨taken ++ [t], by simp [hs], ?_⟩
  rw [List.map_append]
  exact hmarks.append (List.Sublist.refl _)

/-- A parser that finds the marks of its result after those that were found before. -/
def Marks (tokens : List Token) (before : List Nat) {α : Type} (p : P α) (marks : α → List Nat) :
    Prop :=
  ∀ env s, env.endOfFile.kind = .endOfFile → Marked tokens before s →
    Marked tokens (marks (p env s).1) (p env s).2

/-- A parser whose result has no marks. -/
abbrev Plain (tokens : List Token) {α : Type} (p : P α) : Prop :=
  ∀ before, Marks tokens before p fun _ => before

namespace Marks

variable {α β : Type} {p q : P α} {marks : α → List Nat} {after : β → List Nat}

theorem pure {a : α} (h : marks a = before) : Marks tokens before (Pure.pure a) marks :=
  fun _ _ _ hs => h ▸ hs

theorem bind {f : α → P β} (hp : Marks tokens before p marks)
    (hf : ∀ a, Marks tokens (marks a) (f a) after) : Marks tokens before (p >>= f) after :=
  fun env s he hs => hf _ env _ he (hp env s he hs)

/-- A step without marks. -/
theorem next {f : α → P β} (hp : Plain tokens p) (hf : ∀ a, Marks tokens before (f a) after) :
    Marks tokens before (p >>= f) after :=
  bind (hp before) hf

theorem imp {marks' : α → List Nat} (hp : Marks tokens before p marks)
    (h : ∀ a, (marks' a).Sublist (marks a)) : Marks tokens before p marks' :=
  fun env s he hs => (hp env s he hs).sublist (h _)

theorem map {f : α → β} (hp : Marks tokens before p marks) (h : ∀ a, after (f a) = marks a) :
    Marks tokens before (f <$> p) after :=
  hp.bind fun a => .pure (h a)

theorem ite {c : Prop} [Decidable c] (hp : Marks tokens before p marks)
    (hq : Marks tokens before q marks) : Marks tokens before (if c then p else q) marks := by
  split
  · exact hp
  · exact hq

/-- Two ways to come to the same last step. -/
theorem iteBind {c : Prop} [Decidable c] {f : α → P β} (hp : Marks tokens before p marks)
    (hq : Marks tokens before q marks) (hf : ∀ a, Marks tokens (marks a) (f a) after) :
    Marks tokens before (if c then p >>= f else q >>= f) after :=
  .ite (hp.bind hf) (hq.bind hf)

/-- A step that takes nothing. -/
theorem of_rest_eq (h : ∀ env s, (p env s).2.rest = s.rest) : Plain tokens p :=
  fun _ env s _ hs => hs.suffix (h env s ▸ List.suffix_rfl)

theorem withReader {f : Env → Env} (hf : ∀ env, (f env).endOfFile = env.endOfFile)
    (hp : Marks tokens before p marks) : Marks tokens before (withReader f p) marks :=
  fun env s he hs => hp (f env) s ((hf env).symm ▸ he) hs

theorem get : Plain tokens (MonadState.get : P State) := of_rest_eq fun _ _ => rfl

theorem read : Plain tokens (MonadReader.read : P Env) := of_rest_eq fun _ _ => rfl

/-! ### Loops -/

theorem runOut : Plain tokens (runOut : P Unit) := of_rest_eq fun _ _ => rfl

theorem iterate {step : α → P (ForInStep α)}
    (hs : ∀ a, Marks tokens (marks a) (step a) (marks ·.value)) (n : Nat) (a : α) :
    Marks tokens (marks a) (iterate step n a) marks := by
  induction n generalizing a with
  | zero => exact .next runOut fun _ => .pure rfl
  | succ n ih =>
    refine bind (hs a) fun result => ?_
    cases result with
    | done b => exact .pure rfl
    | yield b => exact ih b

theorem loop {step : α → P (ForInStep α)} {a : α} (ha : marks a = before)
    (hs : ∀ a, Marks tokens (marks a) (step a) (marks ·.value)) :
    Marks tokens before (loop a step) marks :=
  .next read fun _ => ha ▸ .iterate hs _ a

/-- What a loop ends with, made into a result; its own marks are given. -/
theorem loopMap (own : α → List Nat) {step : α → P (ForInStep α)} {a : α} {f : α → β}
    (ha : own a = before) (hs : ∀ a, Marks tokens (own a) (step a) (own ·.value))
    (hf : ∀ a, after (f a) = own a) :
    Marks tokens before (do let a ← Parser.loop a step; return f a) after :=
  .map (.loop ha hs) hf

/-- The marks of items that a loop gathers with the last one first. -/
theorem gather {step : List α → P (ForInStep (List α))} {own : α → List Nat}
    (hs : ∀ as, Marks tokens (before ++ as.reverse.flatMap own) (step as)
      fun result => before ++ result.value.reverse.flatMap own) :
    Marks tokens before (do let as ← Parser.loop [] step; return as.reverse)
      fun as => before ++ as.flatMap own :=
  .loopMap (before ++ ·.reverse.flatMap own) (List.append_nil before) hs fun _ => rfl

/-- The marks of items in their order. -/
theorem many {item : P (Option α)} {own : α → List Nat}
    (hi : ∀ before, Marks tokens before item fun a? => before ++ a?.elim [] own) :
    Marks tokens before (many item) fun as => before ++ as.flatMap own := by
  refine gather fun as => .bind (hi _) fun a? => ?_
  cases a? with
  | none => exact .pure (by simp)
  | some a => exact .pure (by simp)

end Marks

theorem plain_many {α : Type} {item : P (Option α)} (hi : Plain tokens item) :
    Plain tokens (many item) := by
  intro before
  have h : Marks tokens before (many item) fun as => before ++ as.flatMap fun _ => [] :=
    .many fun before => (hi before).imp fun a? => by cases a? <;> simp
  exact h.imp fun _ => List.sublist_append_left _ _

/-! ### Elementary steps -/

theorem plain_current : Plain tokens current := .of_rest_eq fun _ _ => rfl

theorem plain_currentKind : Plain tokens currentKind := .of_rest_eq fun _ _ => rfl

theorem rest_advance (env : Env) (s : State) : (advance env s).2.rest = s.rest.tail := by
  obtain ⟨⟨rest, _⟩, _⟩ := s
  cases rest <;> rfl

/-- A token that is taken may be a mark. -/
theorem Marked.advance {marks : List Nat} {env : Env} {s : State} (h : Marked tokens marks s)
    (he : env.endOfFile.kind = .endOfFile)
    (hk : (s.rest.headD env.endOfFile).kind ≠ .endOfFile) :
    Marked tokens (marks ++ [(s.rest.headD env.endOfFile).start]) (advance env s).2 := by
  have hrest := rest_advance env s
  cases hr : s.rest with
  | nil =>
    rw [hr] at hk
    exact absurd he hk
  | cons t ts =>
    rw [hr] at hrest
    exact h.take (by rw [hr, hrest]; rfl)

theorem plain_advance : Plain tokens advance :=
  fun _ env s _ hs => hs.suffix (rest_advance env s ▸ List.tail_suffix _)

theorem plain_advanceBy (n : Nat) : Plain tokens (advanceBy n) := by
  intro before
  induction n with
  | zero => exact .pure rfl
  | succ n ih => exact .next plain_advance fun _ => ih

theorem plain_rangeFrom (start : Nat) : Plain tokens (rangeFrom start) :=
  .of_rest_eq fun _ _ => rfl

/-- A range begins where it is said to. -/
theorem Marks.rangeFrom {α : Type} {start : Nat} {f : Range → P α} {after : α → List Nat}
    (hf : ∀ stop, Marks tokens before (f ⟨start, stop⟩) after) :
    Marks tokens before (Parser.rangeFrom start >>= f) after :=
  fun env s he hs => hf _ env s he hs

theorem plain_report {message : Message} {span : Span} {arguments : List String} :
    Plain tokens (report message span arguments) := by
  refine .of_rest_eq fun env s => ?_
  show (if s.tooDeep then s else s.moveTo { s.toMoment with
    diagnostics := s.diagnostics.push (.of message span arguments) }).rest = s.rest
  split <;> rfl

theorem plain_expectedSpan : Plain tokens expectedSpan :=
  fun _ => .next plain_current fun _ => .ite (.next .get fun _ => .pure rfl) (.pure rfl)

theorem plain_reportExpected {kind : TokenKind} {span : Span} :
    Plain tokens (reportExpected kind span) :=
  plain_report

theorem plain_eat (kind : TokenKind) : Plain tokens (eat kind) := by
  refine fun _ => .next plain_current fun t => .ite ?_ ?_
  · exact .next plain_advance fun _ => .pure rfl
  · refine .next plain_expectedSpan fun _ => .next plain_reportExpected fun _ => ?_
    exact .next .get fun _ => .pure rfl

theorem plain_accept (kind : TokenKind) : Plain tokens (accept kind) :=
  fun _ => .next plain_currentKind fun _ =>
    .ite (.next plain_advance fun _ => .pure rfl) (.pure rfl)

theorem plain_take : Plain tokens take :=
  fun _ => .next plain_current fun _ => .next plain_advance fun _ => .pure rfl

theorem plain_replace (kind : TokenKind) : Plain tokens (replace kind) :=
  fun _ => .next plain_current fun _ => .next plain_reportExpected fun _ => plain_advance _

theorem plain_eatContextual (word : String) : Plain tokens (eatContextual word) :=
  fun _ => .next plain_current fun _ => .ite (plain_advance _)
    (.next plain_expectedSpan fun _ => plain_report _)

theorem plain_noteName (name : String) : Plain tokens (noteName name) :=
  .of_rest_eq fun _ _ => rfl

theorem plain_identifierOf (t : Token) : Plain tokens (identifierOf t) :=
  fun _ => .next (plain_noteName _) fun _ => .pure rfl

/-! ### Next tokens that are marks -/

/-- A parser that finds the marks of its result where a token comes next. -/
def MarksAt (tokens : List Token) (before : List Nat) (t : Token) {α : Type} (p : P α)
    (marks : α → List Nat) : Prop :=
  ∀ env s, env.endOfFile.kind = .endOfFile → s.rest.headD env.endOfFile = t →
    Marked tokens before s → Marked tokens (marks (p env s).1) (p env s).2

section

variable {α β : Type} {t : Token} {p q : P α} {marks : α → List Nat} {f : α → P β}
  {after : β → List Nat}

theorem Marks.at (h : Marks tokens before p marks) : MarksAt tokens before t p marks :=
  fun env s he _ hs => h env s he hs

theorem Marks.current {f : Token → P β}
    (hf : ∀ t, MarksAt tokens before t (f t) after) : Marks tokens before (current >>= f) after :=
  fun env s he hs => hf _ env s he rfl hs

namespace MarksAt

theorem current {f : Token → P β} (hf : MarksAt tokens before t (f t) after) :
    MarksAt tokens before t (Parser.current >>= f) after := by
  rintro env s he rfl hs
  exact hf env s he rfl hs

theorem read {f : Env → P β} (hf : ∀ env, MarksAt tokens before t (f env) after) :
    MarksAt tokens before t (MonadReader.read >>= f) after :=
  fun env => hf env env

theorem get {f : State → P β} (hf : ∀ s, MarksAt tokens before t (f s) after) :
    MarksAt tokens before t (MonadState.get >>= f) after :=
  fun env s => hf s env s

theorem ite {c : Prop} [Decidable c] (hp : c → MarksAt tokens before t p marks)
    (hq : MarksAt tokens before t q marks) :
    MarksAt tokens before t (if c then p else q) marks := by
  split
  next h => exact hp h
  · exact hq

/-- The next token is taken as a mark. -/
theorem advance {f : Unit → P β} (hk : t.kind ≠ .endOfFile)
    (hf : Marks tokens (before ++ [t.start]) (f ()) after) :
    MarksAt tokens before t (Parser.advance >>= f) after := by
  rintro env s he rfl hs
  exact hf env _ he (hs.advance he hk)

/-- The next token is of the kind that is to come, and is taken as a mark. -/
theorem eat {f : Leaf → P β} {kind : TokenKind} (hk : t.kind = kind) (hne : kind ≠ .endOfFile)
    (hf : ∀ leaf, Marks tokens (before ++ [t.start]) (f leaf) after) :
    MarksAt tokens before t (Parser.eat kind >>= f) after := by
  rintro env s he rfl hs
  let t := s.rest.headD env.endOfFile
  let present : P Leaf := do Parser.advance; return ⟨kind, t.range, false⟩
  have hrun : Parser.eat kind env s = present env s := by
    show (if t.kind = kind then present else _ : P Leaf) env s = _
    rw [if_pos hk]
  show Marked tokens (after (f (Parser.eat kind env s).1 env (Parser.eat kind env s).2).1)
    (f (Parser.eat kind env s).1 env (Parser.eat kind env s).2).2
  rw [hrun]
  exact hf _ env _ he (hs.advance he (hk ▸ hne))

end MarksAt

end

/-- Where a name begins, if it is there. -/
def nameStart (i : Identifier) : List Nat := if i.isMissing then [] else [i.range.start]

theorem marks_identifier : Marks tokens before identifier fun i => before ++ nameStart i := by
  refine .current fun t => .ite (fun hk => ?_) (Marks.at ?_)
  · refine .advance (by rw [hk]; nofun) ?_
    exact .next (plain_noteName _) fun _ => .pure rfl
  · refine .next plain_expectedSpan fun _ => .next plain_reportExpected fun _ => ?_
    refine .next (plain_noteName _) fun _ => .next .get fun _ => .pure ?_
    exact List.append_nil _

theorem plain_identifier : Plain tokens identifier :=
  fun _ => marks_identifier.imp fun _ => List.sublist_append_left _ _

theorem plain_missingExpression : Plain tokens missingExpression :=
  .of_rest_eq fun _ _ => rfl

theorem plain_missingType : Plain tokens missingType := .of_rest_eq fun _ _ => rfl

theorem plain_emptyStatement : Plain tokens emptyStatement := .of_rest_eq fun _ _ => rfl

section

variable {α : Type} {item : P α} {own : α → List Nat}

theorem marks_afterCommas (hi : ∀ before, Marks tokens before item fun a => before ++ own a) :
    Marks tokens before (afterCommas item) fun as => before ++ as.flatMap own :=
  .many fun before => .next (plain_accept _) fun _ =>
    .ite ((hi before).map fun _ => rfl) (.pure (List.append_nil _))

theorem marks_separated (hi : ∀ before, Marks tokens before item fun a => before ++ own a) :
    Marks tokens before (separated item) fun as => before ++ as.flatMap own :=
  .bind (hi before) fun _ => .bind (marks_afterCommas hi) fun _ => .pure (by simp)

theorem plain_separated (hi : Plain tokens item) : Plain tokens (separated item) := by
  intro before
  have h : Marks tokens before (separated item) fun as => before ++ as.flatMap fun _ => [] :=
    marks_separated fun before => (hi before).imp fun _ => by simp
  exact h.imp fun _ => List.sublist_append_left _ _

end

/-! ### Levels -/

theorem plain_refuse : Plain tokens refuse := by
  intro before
  refine .next .get fun _ => .ite (.pure rfl) (.next plain_current fun _ => .next .read fun _ => ?_)
  exact fun _ _ _ hs => hs.suffix List.nil_suffix

theorem plain_enter : Plain tokens enter := by
  intro before
  refine .next .get fun _ => .ite (.pure rfl) (.next .read fun _ => .ite ?_ ?_)
  · exact .next plain_refuse fun _ => .pure rfl
  · exact .next (.of_rest_eq fun _ _ => rfl) fun _ => .pure rfl

theorem plain_leave (levels : Nat) : Plain tokens (leave levels) := .of_rest_eq fun _ _ => rfl

theorem marks_nested {α : Type} {refused p : P α} {marks : α → List Nat}
    (hr : Marks tokens before refused marks) (hp : Marks tokens before p marks) :
    Marks tokens before (nested refused p) marks :=
  .next plain_enter fun _ => .ite (.bind hp fun _ => .next (plain_leave 1) fun _ => .pure rfl) hr

/-! ### Types -/

/-- What is known of a rule for types. -/
abbrev TypesPlain (tokens : List Token) (r : Rules) : Prop :=
  ∀ withRanks, Plain tokens (r.type withRanks)

theorem plain_loop {α : Type} {a : α} {step : α → P (ForInStep α)}
    (hs : ∀ a, Plain tokens (step a)) : Plain tokens (loop a step) :=
  fun before => .loop rfl fun a => hs a before

theorem plain_rankSpecifiers (start : Nat) (type : TypeSyntax) :
    Plain tokens (rankSpecifiers start type) := by
  refine plain_loop fun _ _ => .next .get fun _ => .ite ?_ (.pure rfl)
  refine .next plain_advance fun _ => .next .get fun _ => .next (plain_advanceBy _) fun _ => ?_
  exact .next (plain_eat _) fun _ => .next (plain_rangeFrom _) fun _ => .pure rfl

theorem plain_simpleName (hr : TypesPlain tokens r) : Plain tokens (simpleName r) := by
  refine fun _ => .next plain_current fun _ => .next plain_identifier fun _ => ?_
  refine .next .read fun _ => .next .get fun _ => .ite ?_ (.pure rfl)
  refine .next plain_advance fun _ => .next (plain_separated (hr true)) fun _ => ?_
  exact .next (plain_eat _) fun _ => .next (plain_rangeFrom _) fun _ => .pure rfl

theorem plain_name (hr : TypesPlain tokens r) : Plain tokens (name r) := by
  refine fun _ => .next plain_current fun _ => .next (plain_simpleName hr) fun _ => ?_
  refine plain_loop (fun _ _ => .next .get fun _ => .ite ?_ (.pure rfl)) _
  refine .next plain_advance fun _ => .next (plain_simpleName hr) fun _ => ?_
  exact .next (plain_rangeFrom _) fun _ => .pure rfl

theorem plain_typeCore? (hr : TypesPlain tokens r) : Plain tokens (typeCore? r) := by
  refine fun _ => .next plain_current fun t => ?_
  split
  · exact .next plain_advance fun _ => .pure rfl
  · exact .ite ((plain_name hr _).map fun _ => rfl) (.pure rfl)

theorem plain_typeBody (hr : TypesPlain tokens r) (withRanks : Bool) :
    Plain tokens (typeBody withRanks r) := by
  refine fun before => .next plain_current fun t => .next (plain_typeCore? hr) fun core? => ?_
  cases core? with
  | none =>
    refine .next plain_expectedSpan fun _ => .next plain_report fun _ => plain_missingType _
  | some core =>
    have hrest (type : TypeSyntax) : Marks tokens before
        (if withRanks then rankSpecifiers t.start type else return type) fun _ => before :=
      .ite (plain_rankSpecifiers _ _ _) (.pure rfl)
    refine .next (plain_accept _) fun _ => .ite ?_ (hrest core)
    exact .next (plain_rangeFrom _) fun _ => hrest _

end CSharpFront.Parser
