import CSharpFront.Proofs.Parser.OrderlyRules
/-!
Declarations and whole units are orderly, also where the parser finds that it has been cancelled.
Every member of a unit takes a token.
-/

namespace CSharpFront.Parser

variable {tokens ts : List Token} {bound : Nat} {env env' : Env} {r r' : Rules} {α β : Type}

/-! ### Parsers that can be cancelled -/

/-- An orderly parser that can be cancelled. -/
abbrev OrderlyAll (tokens : List Token) (bound : Nat) (p p' : Cancellable α) : Prop :=
  Orderly tokens bound 0 p.run p'.run

/-- An orderly parser that takes one of the tokens that are left, unless it is cancelled or comes to
a result of some sort. -/
abbrev AdvancesAll (tokens : List Token) (bound : Nat) (ts : List Token) (stays : α → Prop)
    (p p' : Cancellable α) : Prop :=
  Advances tokens bound ts (fun result => ∀ a, result = .ok a → stays a) p.run p'.run

abbrev TakesAll (tokens : List Token) (bound : Nat) (ts : List Token) (p p' : Cancellable α) :
    Prop :=
  AdvancesAll tokens bound ts (fun _ => False) p p'

namespace OrderlyAll

variable {p p' : Cancellable α} {f f' : α → Cancellable β}

theorem pure (a : α) : OrderlyAll tokens bound (Pure.pure a) (Pure.pure a) := Orderly.pure _

theorem lift {q q' : P α} (hq : Orderly tokens bound 0 q q') :
    OrderlyAll tokens bound (liftM q) (liftM q') :=
  hq.map

/-- What comes after a parser that may have been cancelled. -/
theorem bindCont (hf : ∀ a, OrderlyAll tokens bound (f a) (f' a)) (result : Except Cancelled α) :
    Orderly tokens bound 0 (ExceptT.bindCont f result) (ExceptT.bindCont f' result) := by
  cases result with
  | ok a => exact hf a
  | error e => exact Orderly.pure _

theorem bind (hp : OrderlyAll tokens bound p p')
    (hf : ∀ a, OrderlyAll tokens bound (f a) (f' a)) :
    OrderlyAll tokens bound (p >>= f) (p' >>= f') := by
  show Orderly tokens bound 0 (p.run >>= ExceptT.bindCont f) (p'.run >>= ExceptT.bindCont f')
  exact Orderly.bind hp (bindCont hf)

theorem map {g : α → β} (hp : OrderlyAll tokens bound p p') :
    OrderlyAll tokens bound (g <$> p) (g <$> p') := by
  rw [OrderlyAll, ExceptT.run_map, ExceptT.run_map]
  exact Orderly.map hp

theorem ite {c : Prop} [Decidable c] {q q' : Cancellable α} (hp : OrderlyAll tokens bound p p')
    (hq : OrderlyAll tokens bound q q') :
    OrderlyAll tokens bound (if c then p else q) (if c then p' else q') := by
  split
  · exact hp
  · exact hq

theorem get {f f' : State → Cancellable β}
    (hf : ∀ s, s.rest <:+ tokens → OrderlyAll tokens bound (f s) (f' s)) :
    OrderlyAll tokens bound (MonadState.get >>= f) (MonadState.get >>= f') := by
  show Orderly tokens bound 0 (MonadState.get >>= fun s => (f s).run)
    (MonadState.get >>= fun s => (f' s).run)
  exact Orderly.get hf

theorem nestedDeclaration {refused : P α} (hr : Orderly tokens (bound + 1) 0 refused refused)
    (hp : OrderlyAll tokens bound p p') :
    OrderlyAll tokens (bound + 1) (nestedDeclaration refused p) (nestedDeclaration refused p') :=
  Orderly.nested hr.map hp

end OrderlyAll

namespace AdvancesAll

variable {stays : α → Prop} {after : β → Prop} {p p' : Cancellable α} {f f' : α → Cancellable β}

theorem pure {a : α} (h : stays a) :
    AdvancesAll tokens bound ts stays (Pure.pure a) (Pure.pure a) := by
  refine Advances.pure ?_
  rintro _ ⟨rfl⟩
  exact h

theorem lift {q q' : P α} (hq : Advances tokens bound ts stays q q') :
    AdvancesAll tokens bound ts stays (liftM q) (liftM q') := by
  refine Advances.map hq fun a ha => ?_
  rintro _ ⟨rfl⟩
  exact ha

theorem bind (hp : AdvancesAll tokens bound ts stays p p')
    (hf : ∀ a, OrderlyAll tokens bound (f a) (f' a))
    (hstays : ∀ a, stays a → AdvancesAll tokens bound ts after (f a) (f' a)) :
    AdvancesAll tokens bound ts after (p >>= f) (p' >>= f') := by
  show Advances tokens bound ts _ (p.run >>= ExceptT.bindCont f) (p'.run >>= ExceptT.bindCont f')
  refine Advances.bind hp (OrderlyAll.bindCont hf) fun result hresult => ?_
  cases result with
  | ok a => exact hstays a (hresult a rfl)
  | error e => exact Advances.pure (by simp)

theorem bindTakes (hp : TakesAll tokens bound ts p p')
    (hf : ∀ a, OrderlyAll tokens bound (f a) (f' a)) :
    AdvancesAll tokens bound ts after (p >>= f) (p' >>= f') :=
  .bind hp hf fun _ => False.elim

/-- What is known of the first part where it takes none is still known after what follows. -/
theorem bindFirst {c : Prop} (hp : AdvancesAll tokens bound ts (fun _ => c) p p')
    (hf : ∀ a, OrderlyAll tokens bound (f a) (f' a)) :
    AdvancesAll tokens bound ts (fun _ => c) (p >>= f) (p' >>= f') :=
  .bind hp hf fun a h => Advances.of_orderly (hf a) fun _ _ _ => h

theorem bindElse (hp : OrderlyAll tokens bound p p')
    (hf : ∀ a, OrderlyAll tokens bound (f a) (f' a))
    (helse : ∀ a, AdvancesAll tokens bound ts after (f a) (f' a)) :
    AdvancesAll tokens bound ts after (p >>= f) (p' >>= f') := by
  have hany : AdvancesAll tokens bound ts (fun _ => True) p p' := Advances.of_orderly hp (by simp)
  exact .bind hany hf fun a _ => helse a

theorem imp {stays' : α → Prop} (hp : AdvancesAll tokens bound ts stays p p')
    (h : ∀ a, stays a → stays' a) : AdvancesAll tokens bound ts stays' p p' :=
  Advances.imp hp fun _ hstays a ha => h a (hstays a ha)

theorem map {c : Prop} {g : α → β} (hp : AdvancesAll tokens bound ts (fun _ => c) p p') :
    AdvancesAll tokens bound ts (fun _ => c) (g <$> p) (g <$> p') :=
  .bindFirst hp fun _ => .pure _

theorem ite {c : Prop} [Decidable c] {q q' : Cancellable α}
    (hp : c → AdvancesAll tokens bound ts stays p p')
    (hq : ¬ c → AdvancesAll tokens bound ts stays q q') :
    AdvancesAll tokens bound ts stays (if c then p else q) (if c then p' else q') := by
  split
  next h => exact hp h
  next h => exact hq h

theorem get {f f' : State → Cancellable β}
    (hf : ∀ s, s.rest = ts → AdvancesAll tokens bound ts after (f s) (f' s)) :
    AdvancesAll tokens bound ts after (MonadState.get >>= f) (MonadState.get >>= f') := by
  show Advances tokens bound ts _ (MonadState.get >>= fun s => (f s).run)
    (MonadState.get >>= fun s => (f' s).run)
  exact Advances.get fun s hs _ => hf s hs

theorem current {f f' : Token → Cancellable β}
    (hf : ∀ t, t.kind = Lookahead.kind ts → AdvancesAll tokens bound ts after (f t) (f' t)) :
    AdvancesAll tokens bound ts after (liftM Parser.current >>= f)
      (liftM Parser.current >>= f') := by
  show Advances tokens bound ts _ (Parser.current >>= fun t => (f t).run)
    (Parser.current >>= fun t => (f' t).run)
  exact Advances.current hf

theorem currentKind {f f' : TokenKind → Cancellable β}
    (hf : AdvancesAll tokens bound ts after (f (Lookahead.kind ts)) (f' (Lookahead.kind ts))) :
    AdvancesAll tokens bound ts after (liftM Parser.currentKind >>= f)
      (liftM Parser.currentKind >>= f') := by
  show Advances tokens bound ts _ (Parser.currentKind >>= fun k => (f k).run)
    (Parser.currentKind >>= fun k => (f' k).run)
  exact Advances.currentKind hf

theorem nestedDeclaration {refused : P α} (hr : Orderly tokens (bound + 1) 0 refused refused)
    (ho : OrderlyAll tokens bound p p') (hp : AdvancesAll tokens bound ts stays p p')
    (hnil : ts = [] → ∀ a, stays a) :
    AdvancesAll tokens (bound + 1) ts stays (nestedDeclaration refused p)
      (nestedDeclaration refused p') :=
  Advances.nested hr.map ho (fun _ => hp) fun h _ a _ => hnil h a

end AdvancesAll

/-- Rounds of which all but the last take a token are fewer than the tokens and one more. -/
theorem OrderlyAll.iterate {step step' : α → Cancellable (ForInStep α)}
    (hstep : ∀ a ts, AdvancesAll tokens bound ts IsLast (step a) (step' a))
    (he : env.Raises tokens env') (n : Nat) (a : α) (s : State) (hs : Ready tokens bound env s)
    (hn : s.rest.length < n) :
    Runs 0 env env' (iterate step n a).run (iterate step' n a).run s := by
  induction n generalizing a s with
  | zero => omega
  | succ n ih =>
    obtain ⟨hrun, hround⟩ := hstep a s.rest env env' s he hs rfl
    show Runs 0 env env' ((step a).run >>= ExceptT.bindCont _)
      ((step' a).run >>= ExceptT.bindCont _) s
    refine .bind hrun ?_
    cases hr : ((step a).run env s).1 with
    | error e => exact .pure _
    | ok round =>
      cases round with
      | done b => exact .pure _
      | yield b =>
        have hlt := hround.resolve_left fun h => h _ hr
        exact ih b _ (hs.of_leads hrun.leads hrun.depth) (by omega)

theorem OrderlyAll.loop {step step' : α → Cancellable (ForInStep α)} (a : α)
    (hstep : ∀ a ts, AdvancesAll tokens bound ts IsLast (step a) (step' a)) :
    OrderlyAll tokens bound (loop a step) (loop a step') := by
  intro env env' s he hs _
  have hlt : s.rest.length < env.budget := Nat.lt_of_le_of_lt hs.rest.length_le he.lt_budget
  obtain ⟨hl, hd, hsame⟩ := iterate hstep he env.budget a s hs hlt
  refine ⟨hl, hd, fun h => ?_⟩
  show (Parser.iterate step' env'.budget a).run env' s = _
  rw [he.budget]
  exact hsame h

/-! ### Lists of members -/

theorem orderly_poll : OrderlyAll tokens bound poll poll := by
  refine OrderlyAll.get fun s _ => ?_
  cases s.polls.ask with
  | ok polls => exact .lift (.modify (fun _ => rfl) (fun _ => rfl) fun _ => rfl)
  | error e => exact Orderly.pure _

/-- One round of reading members until there is none. -/
def memberStep (ends : TokenKind → Bool) (member : Cancellable α) (members : List α) :
    Cancellable (ForInStep (List α)) := do
  if ends (← currentKind) then return .done members
  poll
  let left := (← get).rest.length
  let m ← member
  if (← get).rest.length = left then advance
  return .yield (m :: members)

/-- Each round takes a token, if only because the first one left is dropped. -/
theorem advances_memberStep {ends : TokenKind → Bool} (hends : ends .endOfFile = true)
    {member member' : Cancellable α} (hm : OrderlyAll tokens bound member member')
    (members : List α) :
    AdvancesAll tokens bound ts IsLast (memberStep ends member members)
      (memberStep ends member' members) := by
  have hdrop (left : Nat) (ms : List α) : OrderlyAll tokens bound
      (do
        if (← get).rest.length = left then advance
        return ForInStep.yield ms)
      (do
        if (← get).rest.length = left then advance
        return ForInStep.yield ms) :=
    .get fun _ _ => .ite (.bind (.lift orderly_advance) fun _ => .pure _) (.pure _)
  refine .currentKind (.ite (fun _ => .pure trivial) fun hgoes => ?_)
  have hts : ts ≠ [] := by
    rintro rfl
    exact hgoes hends
  refine .bindElse orderly_poll (fun _ => ?_) fun _ => ?_
  · exact .get fun s _ => .bind hm fun m => hdrop _ _
  refine .get fun s hs => .bindElse hm (fun m => hdrop _ _) fun m => ?_
  refine .get fun s' hs' => .ite (fun _ => ?_) fun hleft => ?_
  · exact .bindTakes (.lift (takes_advance hts)) fun _ => .pure _
  · exact absurd (by rw [hs, hs']) hleft

theorem orderly_membersUntil {ends : TokenKind → Bool} (hends : ends .endOfFile = true)
    {member member' : Cancellable α} (hm : OrderlyAll tokens bound member member') :
    OrderlyAll tokens bound (membersUntil ends member) (membersUntil ends member') :=
  .bind (.loop [] fun members _ => advances_memberStep hends hm members) fun _ => .pure _

theorem orderly_modifiers : Orderly tokens bound 0 modifiers modifiers :=
  .get fun _ _ => .bind (orderly_advanceBy _) fun _ => .pure _

/-! ### Directives -/

theorem orderly_alias? : Orderly tokens bound 0 alias? alias? := by
  refine .get fun _ _ => .ite ?_ (.pure _)
  exact .bind orderly_identifier fun _ => .bind orderly_advance fun _ => .pure _

theorem takes_usingDirective (hr : r.AreOrderly tokens bound r')
    (h : Lookahead.kind ts = .keyword .kwUsing) :
    Takes tokens bound ts (usingDirective r) (usingDirective r') := by
  refine .current fun _ _ => .bindTakes (takes_eat h (by simp)) fun _ => ?_
  refine .bind (orderly_accept _) fun _ => .bind orderly_alias? fun _ => ?_
  refine .bind (takesFirst_name hr).orderly fun _ => .bind (orderly_eat _) fun _ => ?_
  exact .bind (orderly_rangeFrom _) fun _ => .pure _

theorem orderly_usingDirectives (hr : r.AreOrderly tokens bound r') :
    Orderly tokens bound 0 (usingDirectives r) (usingDirectives r') := by
  refine .many fun ts => .currentKind (.ite (fun h => ?_) fun _ => .pure rfl)
  exact .bindTakes (takes_usingDirective hr h) fun _ => .pure _

/-! ### Members of types -/

theorem orderly_parameter (hr : r.AreOrderly tokens bound r') :
    Orderly tokens bound 0 (parameter r) (parameter r') := by
  refine .bind orderly_current fun _ => .iteBind orderly_take.map (.pure _) fun _ => ?_
  refine .bind (hr.type true).orderly fun _ => .bind orderly_identifier fun _ => ?_
  exact .bind (orderly_rangeFrom _) fun _ => .pure _

theorem orderly_parameters (hr : r.AreOrderly tokens bound r') :
    Orderly tokens bound 0 (parameters r) (parameters r') := by
  refine .bind (orderly_eat _) fun _ => .bind orderly_currentKind fun _ => ?_
  refine .iteBind (.pure _) (orderly_separated (orderly_parameter hr)) fun _ => ?_
  exact .bind (orderly_eat _) fun _ => .pure _

theorem orderly_methodBody (hr : r.AreOrderly tokens bound r') (isAsync : Bool) :
    Orderly tokens bound 0 (methodBody r isAsync) (methodBody r' isAsync) := by
  refine .bind (orderly_accept _) fun _ => .ite (.pure _) ?_
  exact .withAsync isAsync (takesFirst_block hr).orderly.map

theorem orderly_constructorInitializer (hr : r.AreOrderly tokens bound r') :
    Orderly tokens bound 0 (constructorInitializer r) (constructorInitializer r') := by
  have hrest : Orderly tokens bound 0 (do let _ ← arguments r .openParen .closeParen)
      (do let _ ← arguments r' .openParen .closeParen) :=
    .bind (orderly_arguments hr _ _) fun _ => .pure _
  refine .bind (orderly_accept _) fun _ => .ite ?_ (.pure _)
  refine .bind orderly_currentKind fun _ => ?_
  split
  · exact .bind orderly_advance fun _ => hrest
  · exact .bind orderly_advance fun _ => hrest
  · refine .bind orderly_expectedSpan fun _ => ?_
    exact .bind (orderly_report (by simp) _ _) fun _ => hrest

theorem orderly_methodRest (hr : r.AreOrderly tokens bound r') (start : Nat)
    (modifiers : Modifiers) (type? : Option TypeSyntax) (i : Identifier) :
    Orderly tokens bound 0 (methodRest r start modifiers type? i)
      (methodRest r' start modifiers type? i) := by
  refine .bind (orderly_parameters hr) fun ps => ?_
  have hrest : Orderly tokens bound 0
      (do
        let body? ← methodBody r (modifiers.contains .asyncMod)
        return ClassMember.method ⟨← rangeFrom start, modifiers, type?, i, ps, body?⟩)
      (do
        let body? ← methodBody r' (modifiers.contains .asyncMod)
        return ClassMember.method ⟨← rangeFrom start, modifiers, type?, i, ps, body?⟩) :=
    .bind (orderly_methodBody hr _) fun _ => .bind (orderly_rangeFrom _) fun _ => .pure _
  exact .ite (.bind (orderly_constructorInitializer hr) fun _ => hrest) hrest

theorem orderly_conversionOperator (hr : r.AreOrderly tokens bound r') (start : Nat)
    (modifiers : Modifiers) :
    Orderly tokens bound 0 (conversionOperator r start modifiers)
      (conversionOperator r' start modifiers) := by
  refine .bind orderly_take fun _ => .bind (orderly_eat _) fun _ => ?_
  refine .bind (hr.type true).orderly fun _ => .bind (orderly_parameters hr) fun _ => ?_
  exact .bind (orderly_methodBody hr _) fun _ => .bind (orderly_rangeFrom _) fun _ => .pure _

theorem orderly_typedMember (hr : r.AreOrderly tokens bound r') (start : Nat)
    (modifiers : Modifiers) :
    Orderly tokens bound 0 (typedMember r start modifiers) (typedMember r' start modifiers) := by
  refine .bind (hr.type true).orderly fun _ => .bind orderly_identifier fun _ => ?_
  refine .bind orderly_currentKind fun _ => .ite (orderly_methodRest hr _ _ _ _) ?_
  refine .bind (orderly_declarators hr _ _ _) fun _ => .bind (orderly_eat _) fun _ => ?_
  exact .bind (orderly_rangeFrom _) fun _ => .pure _

theorem orderly_badMember (start : Nat) :
    Orderly tokens bound 0 (badMember start) (badMember start) := by
  have hrest : Orderly tokens bound 0 (do return ClassMember.incomplete (← rangeFrom start))
      (do return ClassMember.incomplete (← rangeFrom start)) :=
    .bind (orderly_rangeFrom _) fun _ => .pure _
  refine .bind orderly_current fun _ => .bind (orderly_report (by simp) _ _) fun _ => ?_
  refine .ite hrest (.bind orderly_advance fun _ => .get fun _ _ => ?_)
  exact .bind (orderly_advanceBy _) fun _ => hrest

theorem orderly_plainMember (hr : r.AreOrderly tokens bound r') (start : Nat)
    (modifiers : Modifiers) :
    Orderly tokens bound 0 (plainMember r start modifiers) (plainMember r' start modifiers) := by
  refine .get fun _ _ => .ite (orderly_conversionOperator hr _ _) (.ite ?_ ?_)
  · exact .bind orderly_identifier fun _ => orderly_methodRest hr _ _ _ _
  · exact .ite (orderly_typedMember hr _ _) (orderly_badMember _)

theorem orderly_classMember (hr : r.AreOrderly tokens bound r')
    {nested nested' : Nat → Modifiers → Cancellable ClassMember}
    (hn : ∀ start modifiers, OrderlyAll tokens bound (nested start modifiers)
      (nested' start modifiers)) :
    OrderlyAll tokens bound (classMember r nested) (classMember r' nested') := by
  refine .bind (.lift orderly_current) fun _ => .bind (.lift orderly_modifiers) fun _ => ?_
  refine .bind (.lift orderly_currentKind) fun _ => .ite (hn _ _) ?_
  exact .lift (orderly_plainMember hr _ _)

/-! ### Types -/

theorem orderly_baseTypes (hr : r.AreOrderly tokens bound r') :
    Orderly tokens bound 0 (baseTypes r) (baseTypes r') := by
  refine .bind (orderly_accept _) fun _ => .ite ?_ (.pure _)
  exact .bind (orderly_separated (hr.type true).orderly) fun _ => .pure _

theorem advances_typeDeclaration (hr : r.AreOrderly tokens bound r')
    {members members' : Cancellable (List ClassMember)}
    (hm : OrderlyAll tokens bound members members') (start : Nat) (modifiers : Modifiers) :
    AdvancesAll tokens bound ts (fun _ => ts = []) (typeDeclaration r members start modifiers)
      (typeDeclaration r' members' start modifiers) := by
  refine .currentKind (.bindFirst (.lift advances_advance) fun _ => ?_)
  refine .bind (.lift orderly_identifier) fun _ => .bind (.lift (orderly_baseTypes hr)) fun _ => ?_
  refine .bind (.lift (orderly_eat _)) fun _ => .bind hm fun _ => ?_
  exact .bind (.lift (orderly_eat _)) fun _ => .bind (.lift (orderly_rangeFrom _)) fun _ => .pure _

theorem orderly_typeDeclaration (hr : r.AreOrderly tokens bound r')
    {members members' : Cancellable (List ClassMember)}
    (hm : OrderlyAll tokens bound members members') (start : Nat) (modifiers : Modifiers) :
    OrderlyAll tokens bound (typeDeclaration r members start modifiers)
      (typeDeclaration r' members' start modifiers) :=
  Advances.orderly fun _ => advances_typeDeclaration hr hm start modifiers

/-- The members of a type are orderly, by induction on the bound. -/
theorem orderly_classMembers {n m : Nat} (h : n ≤ m) :
    OrderlyAll tokens n (classMembers n) (classMembers m) := by
  induction n generalizing m with
  | zero => exact fun _ _ _ _ hs => (not_ready_zero hs).elim
  | succ n ih =>
    obtain ⟨m, rfl⟩ : ∃ k, m = k + 1 := ⟨m - 1, by omega⟩
    have hle := Nat.le_of_succ_le_succ h
    refine orderly_membersUntil rfl (orderly_classMember (areOrderly_rules h) fun _ _ => ?_)
    refine .nestedDeclaration (orderly_rangeFrom _).map ?_
    exact .map (orderly_typeDeclaration (areOrderly_rules hle) (ih hle) _ _)

/-! ### Namespaces and units -/

theorem advances_namespaceDeclaration (hr : r.AreOrderly tokens bound r')
    {members members' : Cancellable (List Member)}
    (hm : OrderlyAll tokens bound members members') :
    AdvancesAll tokens bound ts (fun _ => (Lookahead.kind ts == .keyword .kwNamespace) = false)
      (namespaceDeclaration r members) (namespaceDeclaration r' members') := by
  refine .current fun t _ => .bindFirst (.lift (takesFirst_eat (by simp) ts)) fun _ => ?_
  refine .bind (.lift (takesFirst_name hr).orderly) fun name => ?_
  refine .bind (.lift (orderly_accept _)) fun b => ?_
  have hlast (us : List UsingDirective) (ms : List Member) : OrderlyAll tokens bound
      (do return (⟨← rangeFrom t.start, name, us, ms⟩ : NamespaceDeclaration))
      (do return (⟨← rangeFrom t.start, name, us, ms⟩ : NamespaceDeclaration)) :=
    .bind (.lift (orderly_rangeFrom _)) fun _ => .pure _
  have hrest : OrderlyAll tokens bound
      (do
        let usings ← usingDirectives r
        let members ← members
        if !b then
          let _ ← eat (.punct .closeBrace)
        return (⟨← rangeFrom t.start, name, usings, members⟩ : NamespaceDeclaration))
      (do
        let usings ← usingDirectives r'
        let members ← members'
        if !b then
          let _ ← eat (.punct .closeBrace)
        return (⟨← rangeFrom t.start, name, usings, members⟩ : NamespaceDeclaration)) := by
    refine .bind (.lift (orderly_usingDirectives hr)) fun us => .bind hm fun ms => ?_
    exact .ite (.bind (.lift (orderly_eat _)) fun _ => hlast us ms) (hlast us ms)
  exact .ite (.bind (.lift (orderly_eat _)) fun _ => hrest) hrest

theorem takesFirst_globalStatement (hr : r.AreOrderly tokens bound r') :
    TakesFirst tokens bound (·.startsStatement) (globalStatement r) (globalStatement r') :=
  fun ts => .withAsync true (.bindFirst (hr.statement ts) fun _ => .pure _)

theorem takes_badGlobalMember (h : ts ≠ []) :
    Takes tokens bound ts badGlobalMember badGlobalMember := by
  refine .current fun _ _ => .bindElse (orderly_report (by simp) _ _) (fun _ => ?_) fun _ => ?_
  · exact .bind orderly_advance fun _ => .bind (orderly_rangeFrom _) fun _ => .pure _
  · exact .bindTakes (takes_advance h) fun _ => .bind (orderly_rangeFrom _) fun _ => .pure _

/-- Whether a namespace or a type is to be read. -/
def StartsDeclaration (ts : List Token) : Prop :=
  Lookahead.kind ts = .keyword .kwNamespace ∨ Lookahead.startsTypeDeclaration ts = true

/-- Every member takes a token, if there is one. -/
theorem advances_member (hr : r.AreOrderly tokens bound r') (inNamespace : Bool)
    {declaration declaration' : Nat → Cancellable Member}
    (hd : ∀ start, AdvancesAll tokens bound ts (fun _ => ¬ StartsDeclaration ts)
      (declaration start) (declaration' start)) :
    AdvancesAll tokens bound ts (fun _ => ts = []) (member r inNamespace declaration)
      (member r' inNamespace declaration') := by
  refine .current fun t ht => .get fun s hs => .ite (fun h => ?_) fun _ => ?_
  · rw [ht, hs] at h
    exact (hd _).imp fun _ hnot => absurd h hnot
  refine .ite (fun h => ?_) fun _ => ?_
  · rw [Bool.and_eq_true, ht] at h
    exact .lift (((takesFirst_globalStatement hr).takes h.2).imp fun _ => False.elim)
  · by_cases hts : ts = []
    · refine .lift (.of_orderly ?_ fun _ => hts)
      exact .bind orderly_current fun _ => .bind (orderly_report (by simp) _ _) fun _ =>
        .bind orderly_advance fun _ => .bind (orderly_rangeFrom _) fun _ => .pure _
    · exact .lift ((takes_badGlobalMember hts).imp fun _ => False.elim)

theorem advances_declarationBody (hr : r.AreOrderly tokens bound r')
    {namespaceMembers namespaceMembers' : Cancellable (List Member)}
    (hn : OrderlyAll tokens bound namespaceMembers namespaceMembers')
    {classMembers classMembers' : Cancellable (List ClassMember)}
    (hc : OrderlyAll tokens bound classMembers classMembers') (start : Nat) :
    AdvancesAll tokens bound ts (fun _ => ¬ StartsDeclaration ts)
      (declarationBody r namespaceMembers classMembers start)
      (declarationBody r' namespaceMembers' classMembers' start) := by
  refine .currentKind (.ite (fun h => ?_) fun h => ?_)
  · exact (AdvancesAll.map (advances_namespaceDeclaration hr hn)).imp
      fun _ hne => absurd (beq_iff_eq.mpr h) (ne_true_of_eq_false hne)
  · refine .bindElse (.lift orderly_modifiers) (fun ms => ?_) fun ms => ?_
    · exact .map (orderly_typeDeclaration hr hc start ms)
    · refine (AdvancesAll.map (advances_typeDeclaration hr hc start ms)).imp ?_
      rintro _ rfl hstarts
      rcases hstarts with hk | hk <;> cases hk

/-- A member in which declarations nest as deep as a bound allows, once its level is entered. -/
def boundedMember (n : Nat) (inNamespace : Bool) : Cancellable Member :=
  member (rules (n + 1)) inNamespace fun start =>
    nestedDeclaration (.incomplete <$> rangeFrom start)
      (declarationBody (rules n) (members n true) (classMembers n) start)

theorem members_succ (n : Nat) (inNamespace : Bool) :
    members (n + 1) inNamespace =
      membersUntil (endsDeclarations inNamespace) (boundedMember n inNamespace) :=
  rfl

theorem advances_boundedMember {n m : Nat} (h : n ≤ m)
    (hm : OrderlyAll tokens n (members n true) (members m true)) (inNamespace : Bool) :
    AdvancesAll tokens (n + 1) ts (fun _ => ts = []) (boundedMember n inNamespace)
      (boundedMember m inNamespace) := by
  have hbody (start : Nat) (ts : List Token) : AdvancesAll tokens n ts
      (fun _ => ¬ StartsDeclaration ts)
      (declarationBody (rules n) (members n true) (classMembers n) start)
      (declarationBody (rules m) (members m true) (classMembers m) start) :=
    advances_declarationBody (areOrderly_rules h) hm (orderly_classMembers h) start
  refine advances_member (areOrderly_rules (Nat.succ_le_succ h)) inNamespace fun start => ?_
  refine .nestedDeclaration (orderly_rangeFrom _).map (Advances.orderly (hbody start))
    (hbody start ts) ?_
  rintro rfl _ hstarts
  rcases hstarts with hk | hk <;> cases hk

/-- The members of a namespace or of a unit are orderly, by induction on the bound. -/
theorem orderly_members {n m : Nat} (h : n ≤ m) (inNamespace : Bool) :
    OrderlyAll tokens n (members n inNamespace) (members m inNamespace) := by
  induction n generalizing m inNamespace with
  | zero => exact fun _ _ _ _ hs => (not_ready_zero hs).elim
  | succ n ih =>
    obtain ⟨m, rfl⟩ : ∃ k, m = k + 1 := ⟨m - 1, by omega⟩
    have hle := Nat.le_of_succ_le_succ h
    rw [members_succ, members_succ]
    exact orderly_membersUntil rfl
      (Advances.orderly fun _ => advances_boundedMember hle (ih hle true) inNamespace)

theorem orderly_compilationUnit {n m : Nat} (h : n ≤ m) :
    OrderlyAll tokens n (compilationUnit n) (compilationUnit m) := by
  refine .bind (.lift (orderly_usingDirectives (areOrderly_rules h))) fun _ => ?_
  exact .bind (orderly_members h false) fun _ => .bind (.lift orderly_current) fun _ => .pure _

end CSharpFront.Parser
