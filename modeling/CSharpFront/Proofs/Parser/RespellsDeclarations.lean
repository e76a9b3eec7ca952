import CSharpFront.Proofs.Parser.RespellsRules
/-!
Declarations in two spellings, and whole units.
-/

namespace CSharpFront

namespace Parser

variable {σ : Spelling} {r : Rules}

/-- Two parsers on tokens in two spellings that may find that they have been cancelled. -/
abbrev RespellsAll (σ : Spelling) {α β : Type} (rel : α → β → Prop) (p : Cancellable α)
    (q : Cancellable β) : Prop :=
  ParallelAll (Env.Respelled σ) (State.Respelled σ) rel p q

/-! ### Directives -/

theorem respells_alias? : Respells σ (Option.Rel σ.names) alias? alias? := by
  apply Parallel.bind .get
  intro s s' hs
  simp only [hs.alike.kind, hs.alike.secondKind]
  refine .ite (.bind respells_identifier fun _ _ hi => ?_) .absent
  exact .next parallel_advance fun _ _ => .pure (.some hi)

theorem respells_usingDirective (hr : r.Respell σ) :
    Respells σ (UsingDirective.Respelled σ.names) (usingDirective r) (usingDirective r) := by
  apply Parallel.bind respells_current
  intro t u ht
  rw [ht.start]
  refine .next (respells_eat _) fun _ _ => .same (parallel_accept _) fun _ => ?_
  refine .bind respells_alias? fun _ _ ha => .bind (respells_name hr) fun _ _ hn => ?_
  refine .next (respells_eat _) fun _ _ => .same (respells_rangeFrom _) fun _ => ?_
  exact .pure ⟨rfl, rfl, ha, hn⟩

theorem respells_usingDirectives (hr : r.Respell σ) :
    Respells σ (List.Forall₂ (UsingDirective.Respelled σ.names)) (usingDirectives r)
      (usingDirectives r) :=
  .many (.same parallel_currentKind fun _ => .ite (respells_usingDirective hr).present .absent)

/-! ### Members of types -/

theorem respells_parameter (hr : r.Respell σ) :
    Respells σ (Parameter.Respelled σ.names) (parameter r) (parameter r) := by
  apply Parallel.bind respells_current
  intro t u ht
  rw [ht.kind, ht.start]
  have hmodifier : Respells σ Eq (some <$> take) (some <$> take) :=
    respells_take.map fun _ _ h => congrArg some h
  refine .iteBind hmodifier (.pure rfl) ?_
  rintro modifier? _ rfl
  refine .bind (hr.type true) fun _ _ htype => .bind respells_identifier fun _ _ hi => ?_
  exact .same (respells_rangeFrom _) fun _ => .pure ⟨rfl, rfl, htype, hi⟩

theorem respells_parameters (hr : r.Respell σ) :
    Respells σ (List.Forall₂ (Parameter.Respelled σ.names)) (parameters r) (parameters r) := by
  refine .next (respells_eat _) fun _ _ => .same parallel_currentKind fun _ => ?_
  refine .iteBind (.pure .nil) (parallel_separated (respells_parameter hr)) fun _ _ hps => ?_
  exact .next (respells_eat _) fun _ _ => .pure hps

theorem respells_methodBody (hr : r.Respell σ) (isAsync : Bool) :
    Respells σ (Option.Rel (Block.Respelled σ.names)) (methodBody r isAsync)
      (methodBody r isAsync) := by
  refine .same (parallel_accept _) fun _ => .ite .absent ?_
  refine .withReader (fun _ _ he => ?_) (respells_block hr).present
  exact Abreast.withAsync (State.Respelled σ) isAsync he

theorem respells_constructorInitializer (hr : r.Respell σ) :
    Respells σ anyway (constructorInitializer r) (constructorInitializer r) := by
  have harguments : Respells σ anyway (do let _ ← arguments r .openParen .closeParen)
      (do let _ ← arguments r .openParen .closeParen) :=
    .next (respells_arguments hr _ _) fun _ _ => .pure trivial
  refine .same (parallel_accept _) fun _ => .ite ?_ (.pure trivial)
  refine .same parallel_currentKind fun _ => ?_
  split
  · exact .next parallel_advance fun _ _ => harguments
  · exact .next parallel_advance fun _ _ => harguments
  · refine .same respells_expectedSpan fun _ => ?_
    exact .next (respells_report (σ.plain (by decide))) fun _ _ => harguments

theorem respells_methodRest (hr : r.Respell σ) (start : Nat) (ms : Modifiers)
    {type? type?' : Option TypeSyntax}
    (ht : Option.Rel (TypeSyntax.Respelled σ.names) type? type?') {i i' : Identifier}
    (hi : σ.names i i') :
    Respells σ (ClassMember.Respelled σ.names) (methodRest r start ms type? i)
      (methodRest r start ms type?' i') := by
  refine .bind (respells_parameters hr) fun ps ps' hps => ?_
  have hlast : Respells σ (ClassMember.Respelled σ.names)
      (do
        let body? ← methodBody r (ms.contains .asyncMod)
        return .method ⟨← rangeFrom start, ms, type?, i, ps, body?⟩)
      (do
        let body? ← methodBody r (ms.contains .asyncMod)
        return .method ⟨← rangeFrom start, ms, type?', i', ps', body?⟩) := by
    refine .bind (respells_methodBody hr _) fun _ _ hb => ?_
    exact .same (respells_rangeFrom _) fun _ => .pure (.method ⟨rfl, rfl, ht, hi, hps, hb⟩)
  cases ht with
  | none => exact .next (respells_constructorInitializer hr) fun _ _ => hlast
  | some ht => exact hlast

theorem respells_conversionOperator (hr : r.Respell σ) (start : Nat) (ms : Modifiers) :
    Respells σ (ClassMember.Respelled σ.names) (conversionOperator r start ms)
      (conversionOperator r start ms) := by
  refine .same respells_take fun _ => .next (respells_eat _) fun _ _ => ?_
  refine .bind (hr.type true) fun _ _ ht => .bind (respells_parameters hr) fun _ _ hps => ?_
  refine .bind (respells_methodBody hr _) fun _ _ hb => ?_
  refine .same (respells_rangeFrom _) fun _ => .pure (.conversion ?_)
  exact ⟨rfl, rfl, rfl, ht, hps, hb⟩

theorem respells_typedMember (hr : r.Respell σ) (start : Nat) (ms : Modifiers) :
    Respells σ (ClassMember.Respelled σ.names) (typedMember r start ms)
      (typedMember r start ms) := by
  refine .bind (hr.type true) fun _ _ ht => .bind respells_identifier fun _ _ hi => ?_
  refine .same parallel_currentKind fun _ => ?_
  refine .ite (respells_methodRest hr start ms (.some ht) hi) ?_
  rw [ht.range σ.sameRange]
  refine .bind (respells_declarators hr _ ht hi) fun _ _ hd => .next (respells_eat _) fun _ _ => ?_
  exact .same (respells_rangeFrom _) fun _ => .pure (.field ⟨rfl, rfl, hd⟩)

/-- What is reported of a token cites it, unless it is an identifier. -/
theorem respells_badMember (start : Nat) {env env' : Env} {s s' : State}
    (he : env.Respelled σ env') (hs : s.Respelled σ s')
    (hk : Lookahead.kind s.rest ≠ .identifier) :
    (badMember start env s).1.Respelled σ.names (badMember start env' s').1 ∧
      State.Respelled σ (badMember start env s).2 (badMember start env' s').2 := by
  have hincomplete : Respells σ (ClassMember.Respelled σ.names)
      (do return .incomplete (← rangeFrom start)) (do return .incomplete (← rangeFrom start)) :=
    .same (respells_rangeFrom _) fun _ => .pure (.incomplete _)
  have hall (t u : Token) (ht : t.Respelled σ u) (htext : t.text = u.text) :
      Respells σ (ClassMember.Respelled σ.names)
        (do
          report .invalidMemberToken t.span [t.text]
          unless t.kind = .punct .closeBrace do
            advance
            advanceBy ((← get).rest.takeWhile fun t => !t.kind.startsClassMember).length
          return .incomplete (← rangeFrom start))
        (do
          report .invalidMemberToken u.span [u.text]
          unless u.kind = .punct .closeBrace do
            advance
            advanceBy ((← get).rest.takeWhile fun t => !t.kind.startsClassMember).length
          return .incomplete (← rangeFrom start)) := by
    rw [← ht.kind, ← ht.span, ← htext]
    refine .next (respells_report (ht.member _)) fun _ _ => .ite hincomplete ?_
    refine .next parallel_advance fun _ _ => .bind .get fun s s' hs => ?_
    rw [hs.alike.length_takeWhile fun k => !k.startsClassMember]
    exact .next (parallel_advanceBy _) fun _ _ => hincomplete
  have htext : (s.rest.headD env.endOfFile).text = (s'.rest.headD env'.endOfFile).text := by
    have hrest := hs.rest
    generalize s.rest = ts, s'.rest = us at hrest hk
    cases hrest with
    | nil => exact he.text
    | cons htu _ => exact htu.text hk
  exact hall _ _ (he.first hs) htext env env' s s' he hs

theorem respells_plainMember (hr : r.Respell σ) (start : Nat) (ms : Modifiers) :
    Respells σ (ClassMember.Respelled σ.names) (plainMember r start ms)
      (plainMember r start ms) := by
  have hconstructor : Respells σ (ClassMember.Respelled σ.names)
      (do methodRest r start ms none (← identifier))
      (do methodRest r start ms none (← identifier)) :=
    .bind respells_identifier fun _ _ hi => respells_methodRest hr start ms .none hi
  have hrun (env : Env) (s : State) : plainMember r start ms env s =
      (if Lookahead.kind s.rest = .keyword .kwImplicit ∨
          Lookahead.kind s.rest = .keyword .kwExplicit then conversionOperator r start ms
        else if Lookahead.kind s.rest = .identifier ∧
          Lookahead.secondKind s.rest = .punct .openParen then
          do methodRest r start ms none (← identifier)
        else if Lookahead.kind s.rest = .identifier ∨ (Lookahead.kind s.rest).isPredefinedType then
          typedMember r start ms
        else badMember start) env s := rfl
  intro env env' s s' he hs
  rw [hrun, hrun, ← hs.alike.kind, ← hs.alike.secondKind]
  split
  · exact respells_conversionOperator hr start ms env env' s s' he hs
  split
  · exact hconstructor env env' s s' he hs
  split
  · exact respells_typedMember hr start ms env env' s s' he hs
  next hk => exact respells_badMember start he hs fun h => hk (.inl h)

theorem respellsAll_classMember (hr : r.Respell σ)
    {nested nested' : Nat → Modifiers → Cancellable ClassMember}
    (hn : ∀ start ms,
      RespellsAll σ (ClassMember.Respelled σ.names) (nested start ms) (nested' start ms)) :
    RespellsAll σ (ClassMember.Respelled σ.names) (classMember r nested)
      (classMember r nested') := by
  refine .bind (.lift respells_current) fun t u ht => .bind (.lift parallel_modifiers) ?_
  rintro ms _ rfl
  rw [ht.start]
  apply ParallelAll.bind (.lift parallel_currentKind)
  rintro kind _ rfl
  exact .ite (hn _ ms) (.lift (respells_plainMember hr _ ms))

/-! ### Types -/

theorem respells_baseTypes (hr : r.Respell σ) :
    Respells σ anyway (baseTypes r) (baseTypes r) := by
  refine .same (parallel_accept _) fun _ => .ite ?_ (.pure trivial)
  exact .next (parallel_separated (hr.type true)) fun _ _ => .pure trivial

theorem respellsAll_typeDeclaration (hr : r.Respell σ)
    {members members' : Cancellable (List ClassMember)}
    (hm : RespellsAll σ (List.Forall₂ (ClassMember.Respelled σ.names)) members members')
    (start : Nat) (ms : Modifiers) :
    RespellsAll σ (TypeDeclaration.Respelled σ.names) (typeDeclaration r members start ms)
      (typeDeclaration r members' start ms) := by
  refine .same (.lift parallel_currentKind) fun _ => .next (.lift parallel_advance) fun _ _ => ?_
  refine .bind (.lift respells_identifier) fun _ _ hi => ?_
  refine .next (.lift (respells_baseTypes hr)) fun _ _ => ?_
  refine .next (.lift (respells_eat _)) fun _ _ => ?_
  refine .bind hm fun _ _ hms => .next (.lift (respells_eat _)) fun _ _ => ?_
  exact .same (.lift (respells_rangeFrom _)) fun _ => .pure (.mk _ _ _ hi hms)

theorem respellsAll_classMembers (n : Nat) :
    RespellsAll σ (List.Forall₂ (ClassMember.Respelled σ.names)) (classMembers n)
      (classMembers n) := by
  induction n with
  | zero =>
    apply parallelAll_membersUntil
    refine respellsAll_classMember (rules_respell σ 0) fun start ms => ?_
    refine .next (.lift parallel_runOut) fun _ _ => .next (.lift respells_refuse) fun _ _ => ?_
    exact .same (.lift (respells_rangeFrom _)) fun _ => .pure (.incomplete _)
  | succ n ih =>
    apply parallelAll_membersUntil
    refine respellsAll_classMember (rules_respell σ _) fun start ms => ?_
    refine parallelAll_nestedDeclaration ?_ ?_
    · exact (respells_rangeFrom start).map fun _ _ h => h ▸ .incomplete _
    · exact (respellsAll_typeDeclaration (rules_respell σ n) ih start ms).map
        fun _ _ h => .nestedType h

/-! ### Namespaces and units -/

theorem respellsAll_namespaceDeclaration (hr : r.Respell σ)
    {members members' : Cancellable (List Member)}
    (hm : RespellsAll σ (List.Forall₂ (Member.Respelled σ.names)) members members') :
    RespellsAll σ (NamespaceDeclaration.Respelled σ.names) (namespaceDeclaration r members)
      (namespaceDeclaration r members') := by
  apply ParallelAll.bind (.lift respells_current)
  intro t u ht
  rw [ht.start]
  refine .next (.lift (respells_eat _)) fun _ _ => ?_
  apply ParallelAll.bind (.lift (respells_name hr))
  intro name name' hname
  refine .same (.lift (parallel_accept _)) fun b => ?_
  have hlast {us us' : List UsingDirective}
      (hus : List.Forall₂ (UsingDirective.Respelled σ.names) us us') {ms ms' : List Member}
      (hms : List.Forall₂ (Member.Respelled σ.names) ms ms') :
      RespellsAll σ (NamespaceDeclaration.Respelled σ.names)
        (do return ⟨← rangeFrom u.start, name, us, ms⟩)
        (do return ⟨← rangeFrom u.start, name', us', ms'⟩) :=
    .same (.lift (respells_rangeFrom _)) fun _ => .pure (.mk _ hname hus hms)
  have hrest : RespellsAll σ (NamespaceDeclaration.Respelled σ.names)
      (do
        let usings ← usingDirectives r
        let members ← members
        if !b then
          let _ ← eat (.punct .closeBrace)
        return ⟨← rangeFrom u.start, name, usings, members⟩)
      (do
        let usings ← usingDirectives r
        let members ← members'
        if !b then
          let _ ← eat (.punct .closeBrace)
        return ⟨← rangeFrom u.start, name', usings, members⟩) := by
    refine .bind (.lift (respells_usingDirectives hr)) fun us us' hus => ?_
    refine .bind hm fun ms ms' hms => ?_
    exact .ite (.next (.lift (respells_eat _)) fun _ _ => hlast hus hms) (hlast hus hms)
  exact .ite (.next (.lift (respells_eat _)) fun _ _ => hrest) hrest

theorem respells_globalStatement (hr : r.Respell σ) :
    Respells σ (Member.Respelled σ.names) (globalStatement r) (globalStatement r) :=
  .withReader (fun _ _ => Abreast.withAsync (State.Respelled σ) true)
    (hr.statement.map fun _ _ h => .globalStatement h)

theorem respells_badGlobalMember :
    Respells σ (Member.Respelled σ.names) badGlobalMember badGlobalMember := by
  apply Parallel.bind respells_current
  intro t u ht
  rw [ht.span, ht.start]
  refine .next (respells_report (σ.reports_of ..)) fun _ _ => .next parallel_advance fun _ _ => ?_
  exact .same (respells_rangeFrom _) fun _ => .pure (.incomplete _)

theorem respellsAll_member (hr : r.Respell σ) (inNamespace : Bool)
    {declaration declaration' : Nat → Cancellable Member}
    (hd : ∀ start,
      RespellsAll σ (Member.Respelled σ.names) (declaration start) (declaration' start)) :
    RespellsAll σ (Member.Respelled σ.names) (member r inNamespace declaration)
      (member r inNamespace declaration') := by
  apply ParallelAll.bind (.lift respells_current)
  intro t u ht
  apply ParallelAll.bind .get
  intro s s' hs
  rw [ht.kind, ht.start, hs.alike.startsTypeDeclaration]
  exact .ite (hd _) (.ite (.lift (respells_globalStatement hr)) (.lift respells_badGlobalMember))

theorem respellsAll_declarationBody (hr : r.Respell σ)
    {namespaceMembers namespaceMembers' : Cancellable (List Member)}
    (hn : RespellsAll σ (List.Forall₂ (Member.Respelled σ.names)) namespaceMembers
      namespaceMembers')
    {classMembers classMembers' : Cancellable (List ClassMember)}
    (hc : RespellsAll σ (List.Forall₂ (ClassMember.Respelled σ.names)) classMembers classMembers')
    (start : Nat) :
    RespellsAll σ (Member.Respelled σ.names)
      (declarationBody r namespaceMembers classMembers start)
      (declarationBody r namespaceMembers' classMembers' start) := by
  refine .same (.lift parallel_currentKind) fun _ => .ite ?_ ?_
  · exact (respellsAll_namespaceDeclaration hr hn).map fun _ _ h => .namespaceMember h
  · refine .same (.lift parallel_modifiers) fun ms => ?_
    exact (respellsAll_typeDeclaration hr hc start ms).map fun _ _ h => .typeMember h

theorem respellsAll_members (n : Nat) (inNamespace : Bool) :
    RespellsAll σ (List.Forall₂ (Member.Respelled σ.names)) (members n inNamespace)
      (members n inNamespace) := by
  induction n generalizing inNamespace with
  | zero =>
    refine parallelAll_membersUntil _ (respellsAll_member (rules_respell σ 0) _ fun start => ?_)
    refine .next (.lift parallel_runOut) fun _ _ => .next (.lift respells_refuse) fun _ _ => ?_
    exact .same (.lift (respells_rangeFrom _)) fun _ => .pure (.incomplete _)
  | succ n ih =>
    refine parallelAll_membersUntil _ (respellsAll_member (rules_respell σ _) _ fun start => ?_)
    refine parallelAll_nestedDeclaration ?_ ?_
    · exact (respells_rangeFrom start).map fun _ _ h => h ▸ .incomplete _
    · exact respellsAll_declarationBody (rules_respell σ n) (ih true) (respellsAll_classMembers n)
        start

theorem respellsAll_compilationUnit (n : Nat) :
    RespellsAll σ (CompilationUnit.Respelled σ.names) (compilationUnit n) (compilationUnit n) := by
  refine .bind (.lift (respells_usingDirectives (rules_respell σ n))) fun _ _ hus => ?_
  refine .bind (respellsAll_members n false) fun _ _ hms => ?_
  refine .bind (.lift respells_current) fun t u ht => .pure ?_
  rw [ht.stop, ht.range]
  exact ⟨rfl, hus, hms, rfl⟩

/-- Units parsed from the same tokens in two spellings are the same but for the names, and the same
has been reported of them. -/
theorem parseUnit_respells {stream stream' : TokenStream} (maxDepth : Nat)
    (before : Array Diagnostic) (polls : Polls)
    (ht : List.Forall₂ (Token.Respelled σ) stream.tokens stream'.tokens)
    (he : stream.endOfFile.Respelled σ stream'.endOfFile)
    (hend : stream.endOfFile.text = stream'.endOfFile.text) (hbefore : ∀ d ∈ before, σ.reports d) :
    let run := parseUnit stream maxDepth before polls
    let run' := parseUnit stream' maxDepth before polls
    Outcomes (CompilationUnit.Respelled σ.names) run.1 run'.1 ∧
      State.Respelled σ run.2 run'.2 := by
  have henv : Env.Respelled σ (.of stream maxDepth) (.of stream' maxDepth) :=
    ⟨he, hend, congrArg (· + 1) ht.length_eq, rfl, rfl⟩
  have hstart : State.Respelled σ (.start stream before polls) (.start stream' before polls) :=
    ⟨ht, rfl, rfl, rfl, rfl, hbefore, rfl⟩
  exact respellsAll_compilationUnit _ _ _ _ _ henv hstart

end Parser

end CSharpFront
