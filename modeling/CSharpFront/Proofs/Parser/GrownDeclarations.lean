import CSharpFront.Proofs.Parser.GrownStatements
/-!
How declarations grow, and from them whole units.
-/

namespace CSharpFront

theorem ClassMember.outlines_eq_flatMap (role : String) (ms : List ClassMember) :
    ClassMember.outlines role ms = ms.flatMap fun m => [m.outline role] := by
  induction ms with
  | nil => rfl
  | cons m ms ih => rw [outlines, ih, List.flatMap_cons, List.singleton_append]

theorem Member.outlines_eq_flatMap (role : String) (ms : List Member) :
    Member.outlines role ms = ms.flatMap fun m => [m.outline role] := by
  induction ms with
  | nil => rfl
  | cons m ms ih => rw [outlines, ih, List.flatMap_cons, List.singleton_append]

namespace Parser

variable {last tok : Token} {start reports : Nat} {os : List Outline} {r : Rules} {role : String}
  {α β : Type}

/-! ### Parsers that can be cancelled -/

/-- A parser that builds something after what has been built, unless it finds that it has been
cancelled. -/
abbrev ExtendsAll (last : Token) (start reports : Nat) (os : List Outline) (p : Cancellable α)
    (out : α → List Outline) : Prop :=
  Extends last start reports os p.run fun result => result.toOption.elim [] out

abbrev GrowsAll (last : Token) (p : Cancellable α) (out : α → List Outline) : Prop :=
  ∀ start reports, ExtendsAll last start reports [] p out

abbrev QuietAll (last : Token) (p : Cancellable α) : Prop := Quiet last p.run

namespace ExtendsAll

variable {p q : Cancellable α} {f : α → Cancellable β} {out : α → List Outline}
  {out' : β → List Outline}

theorem bind (hp : ExtendsAll last start reports os p out)
    (hf : ∀ a, ExtendsAll last start reports (out a) (f a) out') :
    ExtendsAll last start reports os (p >>= f) out' := by
  rw [ExtendsAll, ExceptT.run_bind]
  refine Steps.bind hp fun result => ?_
  cases result with
  | ok a => exact hf a
  | error e => exact .pure fun _ _ hg => hg

theorem next (hp : QuietAll last p) (hf : ∀ a, ExtendsAll last start reports os (f a) out') :
    ExtendsAll last start reports os (p >>= f) out' := by
  rw [ExtendsAll, ExceptT.run_bind]
  refine Steps.next hp fun result => ?_
  cases result with
  | ok a => exact hf a
  | error e => exact .pure fun _ _ hg => hg.sublist (List.nil_sublist _)

theorem add (hp : GrowsAll last p out)
    (hf : ∀ a, ExtendsAll last start reports (os ++ out a) (f a) out') :
    ExtendsAll last start reports os (p >>= f) out' := by
  rw [ExtendsAll, ExceptT.run_bind]
  refine Steps.add hp fun result => ?_
  cases result with
  | ok a => exact hf a
  | error e => exact .pure fun _ _ hg => hg.sublist (List.nil_sublist _)

theorem pure {a : α} (h : out a = os) : ExtendsAll last start reports os (Pure.pure a) out :=
  Steps.pure fun m _ hg => show Grown last start reports (out a) m from h ▸ hg

theorem ite {c : Prop} [Decidable c] (hp : ExtendsAll last start reports os p out)
    (hq : ExtendsAll last start reports os q out) :
    ExtendsAll last start reports os (if c then p else q) out := by
  split
  · exact hp
  · exact hq

theorem lift {p : P α} (hp : Extends last start reports os p out) :
    ExtendsAll last start reports os (liftM p) out :=
  Steps.map hp fun _ _ hg => hg

theorem map {g : α → β} (hp : ExtendsAll last start reports os p out)
    (h : ∀ a, out' (g a) = out a) : ExtendsAll last start reports os (g <$> p) out' := by
  rw [map_eq_pure_bind]
  exact hp.bind fun a => .pure (h a)

/-- What begins at the next token. -/
theorem starting {f : Token → Cancellable β}
    (hf : ∀ t reports, ExtendsAll last t.start reports [] (f t) out') :
    GrowsAll last ((liftM current : Cancellable Token) >>= f) out' := by
  intro start reports
  rw [ExtendsAll, ExceptT.run_bind]
  exact Grows.starting (f := fun t => (f t).run) (fun t reports => hf t reports) start reports

/-- The last step of what makes a node of all that it has built. -/
theorem node {f : Range → α} {kind : NodeKind} {attributes : List String}
    (h : ∀ range, out (f range) = [.node role kind range attributes os])
    (hk : kind ≠ .incompleteMember) :
    ExtendsAll last start reports os
      ((liftM (rangeFrom start) : Cancellable Range) >>= fun range => Pure.pure (f range)) out :=
  lift (Steps.node h hk)

end ExtendsAll

theorem Grows.lift {p : P α} {out : α → List Outline} (hp : Grows last p out) :
    GrowsAll last (liftM p) out :=
  fun _ _ => ExtendsAll.lift (hp _ _)

/-- A step that cannot be cancelled before others. -/
theorem Steps.liftBind {p : P α} {f : α → Cancellable β} {c : Moment → Prop}
    {after : α → Moment → Prop} {post : Except Cancelled β → Moment → Prop}
    (hp : Steps last c p after) (hf : ∀ a, Steps last (after a) (f a).run post) :
    Steps last c ((liftM p : Cancellable α) >>= f).run post :=
  Steps.bind (f := fun a => (f a).run) hp hf

theorem QuietAll.lift {p : P α} (hp : Quiet last p) : QuietAll last (liftM p : Cancellable α) :=
  Steps.map hp fun _ _ => id

theorem ExtendsAll.iterate {step : α → Cancellable (ForInStep α)} (out : α → List Outline)
    (hs : ∀ a, ExtendsAll last start reports (out a) (step a) fun result => out result.value)
    (n : Nat) (a : α) : ExtendsAll last start reports (out a) (iterate step n a) out := by
  induction n generalizing a with
  | zero => exact .next (.lift quiet_runOut) fun _ => .pure rfl
  | succ n ih =>
    refine .bind (hs a) fun result => ?_
    cases result with
    | done b => exact .pure rfl
    | yield b => exact ih b

theorem quietAll_poll : QuietAll last poll := by
  refine quiet_of_moment_eq fun env s => ?_
  obtain ⟨m, names, polls⟩ := s
  rcases polls with _ | _ | n <;> rfl

theorem growsAll_membersUntil (ends : TokenKind → Bool) {member : Cancellable α}
    {out : α → List Outline} (hm : GrowsAll last member out) :
    GrowsAll last (membersUntil ends member) fun ms => ms.flatMap out := by
  intro start reports
  have hloop : ExtendsAll last start reports [] (loop [] fun members => do
      if ends (← currentKind) then return .done members
      poll
      let left := (← get).rest.length
      let m ← member
      if (← get).rest.length = left then advance
      return .yield (m :: members)) fun ms => ms.reverse.flatMap out := by
    refine .next (.lift quiet_read) fun env => ?_
    refine .iterate (fun ms => ms.reverse.flatMap out) (fun ms => ?_) env.budget []
    refine .next (.lift quiet_currentKind) fun _ => .ite (.pure rfl) ?_
    refine .next quietAll_poll fun _ => .next (.lift quiet_get) fun _ => .add hm fun m => ?_
    have hlast : ExtendsAll last start reports (ms.reverse.flatMap out ++ out m)
        (Pure.pure (ForInStep.yield (m :: ms)) : Cancellable _)
        fun result => result.value.reverse.flatMap out := .pure (by simp)
    exact .next (.lift quiet_get) fun _ => .ite (.next (.lift quiet_advance) fun _ => hlast) hlast
  exact hloop.bind fun _ => .pure rfl

theorem quiet_modifiers : Quiet last modifiers :=
  .next quiet_get fun _ => .next (quiet_advanceBy _) fun _ => .pure fun _ _ => id

/-! ### Directives -/

theorem grows_alias? (role : String) :
    Grows last alias? fun i? => (i?.map (·.outline role)).toList :=
  fun _ _ => .next quiet_get fun _ => .ite (.bind (grows_identifier role _ _) fun _ =>
    .next quiet_advance fun _ => .pure fun _ _ => id) (.pure fun _ _ => id)

theorem grows_usingDirective (hr : r.Grow last) (role : String) :
    Grows last (usingDirective r) fun u => [u.outline role] := by
  refine .starting fun t reports => .next (quiet_eat _) fun _ => .next (quiet_accept _) fun _ => ?_
  refine .add (grows_alias? "alias") fun _ => .add (grows_name hr.type "name") fun _ => ?_
  have hout (isStatic : Bool) (i? : Option Identifier) (name : TypeSyntax) (range : Range) :
      [UsingDirective.outline role ⟨range, isStatic, i?, name⟩] =
        [.node role .usingDirective range (if isStatic then ["static"] else [])
          ((i?.map (·.outline "alias")).toList ++ [name.outline "name"])] := rfl
  exact .next (quiet_eat _) fun _ => .node (hout _ _ _) nofun

theorem grows_usingDirectives (hr : r.Grow last) (role : String) :
    Grows last (usingDirectives r) fun us => us.flatMap fun u => [u.outline role] := by
  refine grows_many fun _ _ => .next quiet_currentKind fun _ => .ite ?_ (.pure fun _ _ => id)
  exact (grows_usingDirective hr role).map (fun _ => rfl) _ _

/-! ### Members of types -/

theorem grows_parameter (hr : r.Grow last) (role : String) :
    Grows last (parameter r) fun p => [p.outline role] := by
  refine .starting fun t reports => ?_
  have hrest (o? : Option Leaf) :
      Extends last t.start reports (o?.map (·.outline "modifier")).toList (do
        let type ← r.type true
        let identifier ← identifier
        return Parameter.mk (← rangeFrom t.start) o? type identifier)
      fun p => [p.outline role] := by
    refine .add (hr.type.grows true "type") fun _ => ?_
    refine .add (grows_identifier "identifier") fun _ => ?_
    exact .node (fun _ => by rw [Parameter.outline, List.append_assoc]; rfl) (by nofun)
  have htake : Grows last take fun l => [l.outline "modifier"] := grows_take
  exact .ite (.bind (htake.map (fun _ => rfl) _ _) hrest) (hrest none)

theorem grows_parameters (hr : r.Grow last) (role : String) :
    Grows last (parameters r) fun ps => ps.flatMap fun p => [p.outline role] := by
  intro start reports
  have hlast (ps : List Parameter) :
      Extends last start reports (ps.flatMap fun p => [p.outline role])
        (do let _ ← eat (.punct .closeParen); return ps)
        fun ps => ps.flatMap fun p => [p.outline role] :=
    .next (quiet_eat _) fun _ => .pure fun _ _ => id
  refine .next (quiet_eat _) fun _ => .next quiet_currentKind fun _ => .ite (hlast []) ?_
  exact .bind (grows_separated (grows_parameter hr role) _ _) hlast

theorem grows_methodBody (hr : r.Grow last) (isAsync : Bool) (role : String) :
    Grows last (methodBody r isAsync) fun b? => (b?.map (·.outline role)).toList :=
  fun _ _ => .next (quiet_accept _) fun _ => .ite (.pure fun _ _ => id) <|
    .withReader (fun _ => rfl) ((grows_block hr role).map (fun _ => rfl) _ _)

theorem quiet_constructorInitializer (hr : r.Grow last) :
    Quiet last (constructorInitializer r) := by
  have harguments : Quiet last (do let _ ← arguments r .openParen .closeParen) :=
    .next (grows_arguments hr _ _ "").quiet fun _ => .pure fun _ _ => id
  refine .next (quiet_accept _) fun _ => ?_
  refine .ite (.next quiet_currentKind fun _ => ?_) (.pure fun _ _ => id)
  split
  · exact .next quiet_advance fun _ => harguments
  · exact .next quiet_advance fun _ => harguments
  · exact .next quiet_expectedSpan fun _ => .next quiet_report fun _ => harguments

theorem steps_methodRest (hr : r.Grow last) (ms : Modifiers) (type? : Option TypeSyntax)
    (i : Identifier) (role : String) :
    Extends last start reports
      ((type?.map (·.outline "returnType")).toList ++ [i.outline "identifier"])
      (methodRest r start ms type? i) fun m => [m.outline role] := by
  refine .add (grows_parameters hr "parameter") fun ps => ?_
  have hlast : Extends last start reports
      ((type?.map (·.outline "returnType")).toList ++ [i.outline "identifier"] ++
        ps.flatMap fun p => [p.outline "parameter"]) (do
        let body? ← methodBody r (ms.contains .asyncMod)
        return ClassMember.method ⟨← rangeFrom start, ms, type?, i, ps, body?⟩)
      fun m => [m.outline role] := by
    refine .add (grows_methodBody hr _ "body") fun b? => ?_
    have hout (range : Range) : [ClassMember.outline role (.method ⟨range, ms, type?, i, ps, b?⟩)] =
        [.node role (if type?.isSome then .methodDeclaration else .constructorDeclaration) range
          [ms.render] ((type?.map (·.outline "returnType")).toList ++ [i.outline "identifier"] ++
            (ps.flatMap fun p => [p.outline "parameter"]) ++
            (b?.map (·.outline "body")).toList)] := by
      rw [ClassMember.outline, Method.outline, List.map_eq_flatMap]
    exact .node hout (by split <;> nofun)
  exact .ite (.next (quiet_constructorInitializer hr) fun _ => hlast) hlast

theorem steps_conversionOperator (hr : r.Grow last) (ms : Modifiers) (role : String) :
    Extends last start reports [] (conversionOperator r start ms) fun m => [m.outline role] := by
  have hkind : Grows last take fun l => [l.outline "kind"] := grows_take
  refine .bind (hkind _ _) fun k => .next (quiet_eat _) fun _ => ?_
  refine .add (hr.type.grows true "type") fun t => ?_
  refine .add (grows_parameters hr "parameter") fun ps => ?_
  refine .add (grows_methodBody hr _ "body") fun b? => ?_
  have hout (range : Range) : [ClassMember.outline role (.conversion ⟨range, ms, k, t, ps, b?⟩)] =
      [.node role .conversionOperatorDeclaration range
        [ms.render, if k.kind == .keyword .kwImplicit then "implicit" else "explicit"]
        ([k.outline "kind"] ++ [t.outline "type"] ++
          (ps.flatMap fun p => [p.outline "parameter"]) ++
          (b?.map (·.outline "body")).toList)] := by
    rw [ClassMember.outline, ConversionOperator.outline, List.map_eq_flatMap]
    rfl
  exact .node hout nofun

/-- A field is built from where its type begins, its node from the modifiers on. -/
theorem steps_typedMember (hr : r.Grow last) (ms : Modifiers) (role : String)
    (hk : tok.kind.beginsType = true) :
    Steps last (fun m => m.next last = tok ∧ Grown last start reports [] m) (typedMember r start ms)
      fun m => Grown last start reports [m.outline role] := by
  have htype : Steps last (fun m => m.next last = tok ∧ Grown last start reports [] m) (r.type true)
      fun t m => start ≤ tok.start ∧ Typed last tok 0 reports t m := by
    refine .wherever fun m _ ⟨hm, hg⟩ => ?_
    have hstart : start ≤ tok.start := hm ▸ hg.start_le
    have hnil : Grown last tok.start reports [] m :=
      .nil (Nat.le_of_eq (congrArg Token.start hm.symm)) fun hd => by simpa using hg.counted hd
    have ht : Steps last (· = m) (r.type true) (Typed last tok 0 reports) :=
      (hr.type true tok 0 reports).given fun _ _ h => h ▸ ⟨hm, Nat.zero_le _, hnil⟩
    exact ht.imp fun _ _ _ h => ⟨hstart, h⟩
  refine htype.bind fun t => ?_
  have hname : Steps last (fun m => start ≤ tok.start ∧ Typed last tok 0 reports t m) identifier
      fun i m => start ≤ t.range.start ∧ Named last t.range.start reports t i m ∧
        Grown last start reports [t.outline "returnType", i.outline "identifier"] m := by
    refine .wherever fun m hm ⟨hstart, ht⟩ => ?_
    refine (steps_nameOfVariable m hm).since.imp fun i n _ ⟨m', _, h, hb, hi, hg, hprev, hg'⟩ => ?_
    subst h
    have htok : tok.start ≤ (m'.next last).start := (ht.grown "").start_le
    have hboth : Grown last tok.start reports [t.outline "returnType", i.outline "identifier"] n :=
      (ht.grown "returnType").append hb hg htok hm.prevStop_le
    refine ⟨?_, ht.named_range hk hm hb hi hprev hg', hboth.widen hstart fun _ => Nat.le_refl _⟩
    rcases ht with ht | ht
    · rw [ht.start_eq]
      exact hstart
    · -- where a type can begin, it is missing only past the limit
      obtain ⟨pos, rfl, -, -, hwhy⟩ := ht.missing
      obtain ⟨-, rfl⟩ := hwhy.resolve_right (by simp [hk])
      exact Nat.le_trans (Nat.le_trans hstart htok) (Moment.start_next_le_start_last hm)
  refine hname.bind fun i => .currentKind fun _ => .drop (.ite ?_ ?_)
  · exact (steps_methodRest hr ms (some t) i role).given fun _ _ h => h.2.2
  · refine .wherever fun m _ ⟨hstart, hnamed, _⟩ => ?_
    have hfield : Steps last (· = m) (declarators r t.range.start t i)
        fun d => Grown last start reports [d.outline "declaration"] :=
      ((steps_declarators hr "declaration").given fun _ _ h => h ▸ hnamed).imp fun d _ _ hg =>
        hg.widen hstart fun _ => Nat.le_refl _
    have hout (d : VariableDeclaration) (range : Range) :
        [ClassMember.outline role (.field ⟨range, ms, d⟩)] =
          [.node role .fieldDeclaration range [ms.render] [d.outline "declaration"]] := by
      rw [ClassMember.outline, Field.outline]
    exact hfield.bind fun d => .next (quiet_eat _) fun _ => .node (hout d) nofun

/-- The last step of what could not be read, after a report or past the limit. -/
theorem Steps.incomplete {f : Range → α} {out : α → List Outline}
    (h : ∀ range, out (f range) = [.node role .incompleteMember range [] os]) :
    Steps last (Grown last start (reports + 1) os)
      (rangeFrom start >>= fun range => Pure.pure (f range))
      fun a => Grown last start reports (out a) := by
  refine steps_rangeFrom.bind fun range => .pure fun m _ ⟨hrange, hg⟩ => ?_
  rw [h range]
  exact hg.incomplete hrange

theorem steps_badMember (role : String) :
    Extends last start reports [] (badMember start) fun m => [m.outline role] := by
  have hlast : Steps last (Grown last start (reports + 1) [])
      (do return ClassMember.incomplete (← rangeFrom start))
      fun m => Grown last start reports [m.outline role] :=
    .incomplete fun _ => by rw [ClassMember.outline]
  refine .next quiet_current fun t => (steps_report _ _ _).bind fun _ => .ite hlast ?_
  refine .next quiet_advance fun _ => .next quiet_get fun _ => ?_
  exact .next (quiet_advanceBy _) fun _ => hlast

theorem steps_plainMember (hr : r.Grow last) (ms : Modifiers) (role : String) :
    Extends last start reports [] (plainMember r start ms) fun m => [m.outline role] := by
  refine .get fun s => .ite (.drop (steps_conversionOperator hr ms role)) (.ite (.drop ?_) ?_)
  · exact .bind (grows_identifier "identifier" _ _) fun i => steps_methodRest hr ms none i role
  · split
    next hk =>
      refine .wherever fun m hm ⟨hs, hg⟩ => ?_
      have hnext : (m.next last).kind = Lookahead.kind s.rest := by
        rw [hm.kind_next, hs]
      have hbegins : (m.next last).kind.beginsType = true := by
        rw [hnext]
        simpa [TokenKind.beginsType, or_comm] using hk
      refine (steps_typedMember hr ms role hbegins).given fun _ _ h => ?_
      rw [h]
      exact ⟨rfl, hg⟩
    · exact .drop (steps_badMember role)

theorem growsAll_classMember (hr : r.Grow last) (role : String)
    {nestedType : Nat → Modifiers → Cancellable ClassMember}
    (hn : ∀ start reports ms,
      ExtendsAll last start reports [] (nestedType start ms) fun m => [m.outline role]) :
    GrowsAll last (classMember r nestedType) fun m => [m.outline role] := by
  refine .starting fun t reports => .next (.lift quiet_modifiers) fun ms => ?_
  refine .next (.lift quiet_currentKind) fun _ => ?_
  exact .ite (hn _ _ ms) (.lift (steps_plainMember hr ms role))

/-! ### Types -/

theorem quiet_baseTypes (hr : r.Grow last) : Quiet last (baseTypes r) := by
  have hbases : Quiet last (separated (r.type true)) :=
    (grows_separated (hr.type.grows true "")).quiet
  exact .next (quiet_accept _) fun _ =>
    .ite (.next hbases fun _ => .pure fun _ _ => id) (.pure fun _ _ => id)

theorem extendsAll_typeDeclaration (hr : r.Grow last) {members : Cancellable (List ClassMember)}
    (hm : GrowsAll last members fun ms => ms.flatMap fun m => [m.outline "member"])
    (ms : Modifiers) (role : String) :
    ExtendsAll last start reports [] (typeDeclaration r members start ms)
      fun d => [d.outline role] := by
  refine .next (.lift quiet_currentKind) fun k => .next (.lift quiet_advance) fun _ => ?_
  refine .add (grows_identifier "identifier").lift fun i => ?_
  refine .next (.lift (quiet_baseTypes hr)) fun _ => .next (.lift (quiet_eat _)) fun _ => ?_
  refine .add hm fun cs => .next (.lift (quiet_eat _)) fun _ => ?_
  have hout (isStruct : Bool) (range : Range) :
      [TypeDeclaration.outline role ⟨range, isStruct, ms, i, cs⟩] =
        [.node role (if isStruct then .structDeclaration else .classDeclaration) range [ms.render]
          ([] ++ [i.outline "identifier"] ++ cs.flatMap fun m => [m.outline "member"])] := by
    rw [TypeDeclaration.outline, ClassMember.outlines_eq_flatMap]
    rfl
  exact .node (hout _) (by split <;> nofun)

/-- What stands for a declaration past the limit. -/
theorem refuses_incomplete {f : Range → α} {out : α → List Outline}
    (h : ∀ range, out (f range) = [.node role .incompleteMember range [] []]) :
    Steps last (fun m => m.tooDeep = true ∧ Grown last start reports [] m)
      (do return f (← rangeFrom start)) fun a => Grown last start reports (out a) := by
  refine .given (.incomplete h) fun m _ ⟨hd, hg⟩ => ?_
  exact ⟨hg.start_le, hg.fits, hg.within, hg.sorted, fun h => absurd hd (by simp [h])⟩

theorem ExtendsAll.nestedDeclaration {refused : P α} {body : Cancellable α}
    {out : α → List Outline}
    (hr : Steps last (fun m => m.tooDeep = true ∧ Grown last start reports [] m) refused
      fun a => Grown last start reports (out a))
    (hp : ExtendsAll last start reports [] body out) :
    ExtendsAll last start reports [] (nestedDeclaration refused body) out :=
  steps_nested (fun _ _ _ h => h.of_before (before_depth _ _))
    (fun _ _ h _ hb hd => ⟨hd, h.of_before hb⟩) (Steps.map hr fun _ _ => id) hp

/-- At the end of their bound declarations go past the limit. -/
theorem extendsAll_refused {f : Range → α} {out : α → List Outline}
    (h : ∀ range, out (f range) = [.node role .incompleteMember range [] []]) :
    ExtendsAll last start reports [] (do
      runOut
      refuse
      return f (← rangeFrom start)) out :=
  .next (.lift quiet_runOut) fun _ => Steps.liftBind steps_refuse fun _ =>
    Steps.map (refuses_incomplete h) fun _ _ => id

theorem growsAll_classMembers (n : Nat) :
    GrowsAll last (classMembers n) fun ms => ms.flatMap fun m => [m.outline "member"] := by
  have hincomplete (range : Range) : [ClassMember.outline "member" (.incomplete range)] =
      [.node "member" .incompleteMember range [] []] := by rw [ClassMember.outline]
  induction n with
  | zero =>
    refine growsAll_membersUntil _ (growsAll_classMember (rules_grow 0) "member" fun _ _ _ => ?_)
    exact extendsAll_refused hincomplete
  | succ n ih =>
    refine growsAll_membersUntil _ ?_
    refine growsAll_classMember (rules_grow (n + 1)) "member" fun _ _ ms => ?_
    refine .nestedDeclaration (refuses_incomplete hincomplete) ?_
    exact .map (extendsAll_typeDeclaration (rules_grow n) ih ms "member") fun d => by
      rw [ClassMember.outline]

/-! ### Namespaces and units -/

theorem growsAll_namespaceDeclaration (hr : r.Grow last) {members : Cancellable (List Member)}
    (hm : GrowsAll last members fun ms => ms.flatMap fun m => [m.outline "member"])
    (role : String) :
    GrowsAll last (namespaceDeclaration r members) fun n => [n.outline role] := by
  refine .starting fun t reports => .next (.lift (quiet_eat _)) fun _ => ?_
  refine .add (grows_name hr.type "name").lift fun name => ?_
  refine .next (.lift (quiet_accept _)) fun b => ?_
  have hlast (us : List UsingDirective) (ms : List Member) :
      ExtendsAll last t.start reports ([] ++ [name.outline "name"] ++
          (us.flatMap fun u => [u.outline "using"]) ++ ms.flatMap fun m => [m.outline "member"])
        (do return (⟨← rangeFrom t.start, name, us, ms⟩ : NamespaceDeclaration))
        fun n => [n.outline role] := by
    have hout (range : Range) : [NamespaceDeclaration.outline role ⟨range, name, us, ms⟩] =
        [.node role .namespaceDeclaration range [] ([] ++ [name.outline "name"] ++
          (us.flatMap fun u => [u.outline "using"]) ++
          ms.flatMap fun m => [m.outline "member"])] := by
      rw [NamespaceDeclaration.outline, Member.outlines_eq_flatMap, List.map_eq_flatMap]
      rfl
    exact .node hout nofun
  have hrest : ExtendsAll last t.start reports ([] ++ [name.outline "name"])
      (do
        let usings ← usingDirectives r
        let members ← members
        if !b then
          let _ ← eat (.punct .closeBrace)
        return (⟨← rangeFrom t.start, name, usings, members⟩ : NamespaceDeclaration))
      fun n => [n.outline role] := by
    refine .add (grows_usingDirectives hr "using").lift fun us => .add hm fun ms => ?_
    exact .ite (.next (.lift (quiet_eat _)) fun _ => hlast us ms) (hlast us ms)
  exact .ite (.next (.lift (quiet_eat _)) fun _ => hrest) hrest

theorem grows_globalStatement (hr : r.Grow last) (role : String) :
    Grows last (globalStatement r) fun m => [m.outline role] :=
  fun _ _ => .withReader (fun _ => rfl)
    ((hr.statement "global").map (fun s => by rw [Member.outline]) _ _)

theorem grows_badGlobalMember (role : String) :
    Grows last badGlobalMember fun m => [m.outline role] := by
  refine .starting fun t reports => (steps_report _ _ _).bind fun _ => ?_
  refine .next quiet_advance fun _ => ?_
  exact .incomplete fun _ => by rw [Member.outline]

theorem growsAll_member (hr : r.Grow last) (inNamespace : Bool)
    {declaration : Nat → Cancellable Member}
    (hd : ∀ start reports,
      ExtendsAll last start reports [] (declaration start) fun m => [m.outline role]) :
    GrowsAll last (member r inNamespace declaration) fun m => [m.outline role] := by
  refine .starting fun t reports => .next (.lift quiet_get) fun _ => .ite (hd _ _) (.ite ?_ ?_)
  · exact (grows_globalStatement hr role).lift _ _
  · exact (grows_badGlobalMember role).lift _ _

theorem extendsAll_declarationBody (hr : r.Grow last)
    {namespaceMembers : Cancellable (List Member)} {classMembers : Cancellable (List ClassMember)}
    (hn : GrowsAll last namespaceMembers fun ms => ms.flatMap fun m => [m.outline "member"])
    (hc : GrowsAll last classMembers fun ms => ms.flatMap fun m => [m.outline "member"])
    (role : String) :
    ExtendsAll last start reports [] (declarationBody r namespaceMembers classMembers start)
      fun m => [m.outline role] := by
  refine .next (.lift quiet_currentKind) fun _ => .ite ?_ ?_
  · exact .map (growsAll_namespaceDeclaration hr hn role _ _) fun _ => by rw [Member.outline]
  · refine .next (.lift quiet_modifiers) fun ms => ?_
    exact .map (extendsAll_typeDeclaration hr hc ms role) fun _ => by rw [Member.outline]

theorem growsAll_members (n : Nat) (inNamespace : Bool) :
    GrowsAll last (members n inNamespace) fun ms => ms.flatMap fun m => [m.outline "member"] := by
  have hincomplete (range : Range) : [Member.outline "member" (.incomplete range)] =
      [.node "member" .incompleteMember range [] []] := by rw [Member.outline]
  induction n generalizing inNamespace with
  | zero =>
    refine growsAll_membersUntil _ (growsAll_member (rules_grow 0) inNamespace fun _ _ => ?_)
    exact extendsAll_refused hincomplete
  | succ n ih =>
    refine growsAll_membersUntil _ (growsAll_member (rules_grow (n + 1)) inNamespace fun _ _ => ?_)
    refine .nestedDeclaration (refuses_incomplete hincomplete) ?_
    exact extendsAll_declarationBody (rules_grow n) (ih true) (growsAll_classMembers n) "member"

/-- What a unit comes to: its parts fit, and no more of them are made up than has been reported. -/
structure UnitGrown (reports : Nat) (role : String) (u : CompilationUnit) (m : Moment) : Prop where
  fits : (u.outline role).FitsAll
  counted : m.tooDeep = false → (u.outline role).placeholders + reports ≤ m.diagnostics.size

/-- A unit covers the text from its start to the token at its end. -/
theorem unitGrown_of_grown {m : Moment} {us : List UsingDirective} {ms : List Member}
    (hm : m.Settled last)
    (hg : Grown last 0 reports ((us.flatMap fun u => [u.outline "using"]) ++
      ms.flatMap fun m => [m.outline "member"]) m) (role : String) :
    UnitGrown reports role
      ⟨⟨0, (m.next last).stop⟩, us, ms, ⟨.endOfFile, (m.next last).range, false⟩⟩ m := by
  let os : List Outline := (us.flatMap fun u => [u.outline "using"]) ++
    ms.flatMap fun m => [m.outline "member"]
  let eof : Outline := Leaf.outline "eof" ⟨.endOfFile, (m.next last).range, false⟩
  have hout : CompilationUnit.outline role
      ⟨⟨0, (m.next last).stop⟩, us, ms, ⟨.endOfFile, (m.next last).range, false⟩⟩ =
        .node role .compilationUnit ⟨0, (m.next last).stop⟩ [] (os ++ [eof]) := by
    rw [CompilationUnit.outline, Member.outlines_eq_flatMap, List.map_eq_flatMap]
  have hprev : m.prevStop ≤ (m.next last).start := hm.prevStop_le
  have hnext : (m.next last).start ≤ (m.next last).stop := Moment.start_next_le_stop_next hm
  have heof : eof.FitsAll :=
    Outline.fitsAll_mk.mpr ⟨.of_sorted hnext (List.forall_mem_nil _) .nil, List.forall_mem_nil _⟩
  refine ⟨?_, fun hd => ?_⟩
  · rw [hout]
    refine Outline.fitsAll_mk.mpr ⟨.of_sorted (Nat.zero_le _) ?_ ?_, ?_⟩
    · refine List.forall_mem_append.mpr ⟨fun o ho hne => ⟨Nat.zero_le _, ?_⟩, fun o ho _ => ?_⟩
      · exact Nat.le_trans (Nat.le_trans (hg.within o ho hne).2 hprev) hnext
      · rw [List.mem_singleton.mp ho]
        exact ⟨Nat.zero_le _, Nat.le_refl _⟩
    · refine List.pairwise_append.mpr ⟨hg.sorted, List.pairwise_singleton _ _, ?_⟩
      intro o ho o' ho' hne _
      rw [List.mem_singleton.mp ho']
      exact Nat.le_trans (hg.within o ho hne).2 hprev
    · refine List.forall_mem_append.mpr ⟨hg.fits, fun o ho => ?_⟩
      rw [List.mem_singleton.mp ho]
      exact heof
  · have hcount : Outline.allPlaceholders os + reports ≤ m.diagnostics.size := hg.counted hd
    have hleaf : eof.placeholders = 0 := rfl
    have hunit (range : Range) :
        (Outline.node role .compilationUnit range [] (os ++ [eof])).placeholders =
          Outline.allPlaceholders os := by
      refine (Outline.placeholders_mk _ _).trans ?_
      rw [Outline.allPlaceholders_append, Outline.allPlaceholders_cons, hleaf]
      rfl
    rw [hout, hunit]
    exact hcount

theorem steps_compilationUnit (n : Nat) (role : String) :
    Steps last (Grown last 0 reports []) (compilationUnit n).run
      fun result m => ∀ u, result = .ok u → UnitGrown reports role u m := by
  refine Steps.liftBind (grows_usingDirectives (rules_grow n) "using" _ _) fun us => ?_
  rw [ExceptT.run_bind]
  refine Steps.add (growsAll_members n false) fun result => ?_
  cases result with
  | error e => exact .pure fun _ _ _ => nofun
  | ok ms =>
    let unit (t : Token) : CompilationUnit :=
      ⟨⟨0, t.stop⟩, us, ms, ⟨.endOfFile, t.range, false⟩⟩
    refine Steps.current (f := fun t => Pure.pure (Except.ok (unit t))) fun t => .pure ?_
    rintro m hm ⟨rfl, hg⟩ u hu
    obtain rfl := Except.ok.inj hu
    exact unitGrown_of_grown hm hg role

end Parser

end CSharpFront
