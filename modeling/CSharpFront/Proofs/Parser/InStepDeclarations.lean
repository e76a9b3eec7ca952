import CSharpFront.Proofs.Parser.InStepRules
/-!
Declarations in two layouts, and whole units. A parser that can be cancelled finds so in both
layouts at once.
-/

namespace CSharpFront

namespace Parser

variable {l : Rerun} {r : Rules}

/-- Two parsers in step that may find that they have been cancelled. -/
abbrev InStepAll (l : Rerun) {α β : Type} (rel : α → β → Prop) (p : Cancellable α)
    (q : Cancellable β) : Prop :=
  ParallelAll (Env.Relaid l) (State.Relaid l) rel p q

/-! ### Directives -/

theorem inStep_alias? :
    InStep l (Option.Rel (Identifier.Relaid l)) alias? alias? := by
  apply Parallel.bind .get
  intro s s' hs
  simp only [hs.rest.alike.kind, hs.rest.alike.secondKind]
  refine .ite (.bind inStep_identifier fun _ _ hi => .next parallel_advance fun _ _ => ?_) .absent
  exact .pure (.some hi)

theorem inStep_usingDirective (hr : r.InStep l) :
    InStep l anyway (usingDirective r) (usingDirective r) := by
  refine .next inStep_current fun _ _ => .next (inStep_eat _) fun _ _ => ?_
  refine .next (parallel_accept _) fun _ _ => .next inStep_alias? fun _ _ => ?_
  refine .next (inStep_name hr) fun _ _ => .next (inStep_eat _) fun _ _ => ?_
  exact .next inStep_anyRange fun _ _ => .pure trivial

theorem inStep_usingDirectives (hr : r.InStep l) :
    InStep l (List.Forall₂ anyway) (usingDirectives r) (usingDirectives r) := by
  apply Parallel.many
  apply Parallel.bind parallel_currentKind
  rintro kind _ rfl
  exact .ite (inStep_usingDirective hr).present .absent

/-! ### Members of types -/

theorem inStep_parameter (hr : r.InStep l) :
    InStep l (Parameter.Relaid l) (parameter r) (parameter r) := by
  apply Parallel.bind inStep_current
  intro t u ht
  rw [ht.kind]
  refine .iteBind inStep_take.present .absent fun _ _ _ => .bind (hr.type true) fun _ _ htype => ?_
  refine .bind inStep_identifier fun _ _ hi => ?_
  exact .next inStep_anyRange fun _ _ => .pure ⟨htype, hi⟩

theorem inStep_parameters (hr : r.InStep l) :
    InStep l (List.Forall₂ (Parameter.Relaid l)) (parameters r) (parameters r) := by
  refine .next (inStep_eat _) fun _ _ => .bind parallel_currentKind ?_
  rintro kind _ rfl
  refine .iteBind (.pure .nil) (parallel_separated (inStep_parameter hr)) fun _ _ hps => ?_
  exact .next (inStep_eat _) fun _ _ => .pure hps

theorem inStep_methodBody (hr : r.InStep l) (isAsync : Bool) :
    InStep l (Option.Rel (Block.Relaid l)) (methodBody r isAsync) (methodBody r isAsync) := by
  apply Parallel.bind (parallel_accept _)
  rintro accepted _ rfl
  refine .ite .absent (.withReader (fun _ _ he => ?_) (inStep_block hr).present)
  exact Abreast.withAsync (State.Relaid l) isAsync he

theorem inStep_constructorInitializer (hr : r.InStep l) :
    InStep l anyway (constructorInitializer r) (constructorInitializer r) := by
  have harguments : InStep l anyway (do let _ ← arguments r .openParen .closeParen)
      (do let _ ← arguments r .openParen .closeParen) :=
    .next (inStep_arguments hr _ _) fun _ _ => .pure trivial
  apply Parallel.bind (parallel_accept _)
  rintro accepted _ rfl
  refine .ite (.bind parallel_currentKind ?_) (.pure trivial)
  rintro kind _ rfl
  split
  · exact .next parallel_advance fun _ _ => harguments
  · exact .next parallel_advance fun _ _ => harguments
  · refine .next inStep_expectedSpan fun _ _ => ?_
    exact .next inStep_report fun _ _ => harguments

theorem inStep_methodRest (hr : r.InStep l) (p q : Nat) (ms : Modifiers)
    {type? type?' : Option TypeSyntax} (ht : Option.Rel (TypeSyntax.Relaid l) type? type?')
    {i i' : Identifier} (hi : i.Relaid l i') :
    InStep l (ClassMember.Relaid l) (methodRest r p ms type? i) (methodRest r q ms type?' i') := by
  refine .bind (inStep_parameters hr) fun ps ps' hps => ?_
  have hlast : InStep l (ClassMember.Relaid l)
      (do
        let body? ← methodBody r (ms.contains .asyncMod)
        return .method ⟨← rangeFrom p, ms, type?, i, ps, body?⟩)
      (do
        let body? ← methodBody r (ms.contains .asyncMod)
        return .method ⟨← rangeFrom q, ms, type?', i', ps', body?⟩) :=
    .bind (inStep_methodBody hr _) fun _ _ hb => .next inStep_anyRange fun _ _ =>
      .pure (.method ⟨ht, hi, hps, hb⟩)
  cases ht with
  | none => exact .next (inStep_constructorInitializer hr) fun _ _ => hlast
  | some ht => exact hlast

theorem inStep_conversionOperator (hr : r.InStep l) (p q : Nat) (ms : Modifiers) :
    InStep l (ClassMember.Relaid l) (conversionOperator r p ms) (conversionOperator r q ms) := by
  refine .bind inStep_take fun _ _ hk => .next (inStep_eat _) fun _ _ => ?_
  refine .bind (hr.type true) fun _ _ ht => .bind (inStep_parameters hr) fun _ _ hps => ?_
  refine .bind (inStep_methodBody hr _) fun _ _ hb => ?_
  exact .next inStep_anyRange fun _ _ => .pure (.conversion ⟨hk, ht, hps, hb⟩)

theorem inStep_typedMember (hr : r.InStep l) (p q : Nat) (ms : Modifiers) :
    InStep l (ClassMember.Relaid l) (typedMember r p ms) (typedMember r q ms) := by
  refine .bind (hr.type true) fun _ _ ht => .bind inStep_identifier fun _ _ hi => ?_
  apply Parallel.bind parallel_currentKind
  rintro kind _ rfl
  refine .ite (inStep_methodRest hr p q ms (.some ht) hi) ?_
  refine .bind (inStep_declarators hr _ _ ht hi) fun _ _ hd => .next (inStep_eat _) fun _ _ => ?_
  exact .next inStep_anyRange fun _ _ => .pure (.field ⟨hd⟩)

theorem inStep_badMember (p q : Nat) :
    InStep l (ClassMember.Relaid l) (badMember p) (badMember q) := by
  have hlast : InStep l (ClassMember.Relaid l) (do return .incomplete (← rangeFrom p))
      (do return .incomplete (← rangeFrom q)) :=
    .next inStep_anyRange fun _ _ => .pure (.incomplete ..)
  apply Parallel.bind inStep_current
  intro t u ht
  rw [ht.text, ht.kind]
  refine .next inStep_report fun _ _ => .ite hlast (.next parallel_advance fun _ _ => ?_)
  apply Parallel.bind .get
  intro s s' hs
  rw [hs.rest.alike.length_takeWhile fun k => !k.startsClassMember]
  exact .next (parallel_advanceBy _) fun _ _ => hlast

theorem inStep_plainMember (hr : r.InStep l) (p q : Nat) (ms : Modifiers) :
    InStep l (ClassMember.Relaid l) (plainMember r p ms) (plainMember r q ms) := by
  apply Parallel.bind .get
  intro s s' hs
  simp only [hs.rest.alike.kind, hs.rest.alike.secondKind]
  refine .ite (inStep_conversionOperator hr p q ms) (.ite ?_ (.ite ?_ (inStep_badMember p q)))
  · exact .bind inStep_identifier fun _ _ hi => inStep_methodRest hr p q ms .none hi
  · exact inStep_typedMember hr p q ms

theorem inStepAll_classMember (hr : r.InStep l)
    {nested nested' : Nat → Modifiers → Cancellable ClassMember}
    (hn : ∀ p q ms, InStepAll l (ClassMember.Relaid l) (nested p ms) (nested' q ms)) :
    InStepAll l (ClassMember.Relaid l) (classMember r nested) (classMember r nested') := by
  refine .next (.lift inStep_current) fun t u => .bind (.lift parallel_modifiers) ?_
  rintro ms _ rfl
  apply ParallelAll.bind (.lift parallel_currentKind)
  rintro kind _ rfl
  exact .ite (hn _ _ ms) (.lift (inStep_plainMember hr _ _ ms))

/-! ### Types -/

theorem inStep_baseTypes (hr : r.InStep l) :
    InStep l anyway (baseTypes r) (baseTypes r) := by
  apply Parallel.bind (parallel_accept _)
  rintro accepted _ rfl
  exact .ite (.next (parallel_separated (hr.type true)) fun _ _ => .pure trivial) (.pure trivial)

theorem inStepAll_typeDeclaration (hr : r.InStep l)
    {members members' : Cancellable (List ClassMember)}
    (hm : InStepAll l (List.Forall₂ (ClassMember.Relaid l)) members members') (p q : Nat)
    (ms : Modifiers) :
    InStepAll l (TypeDeclaration.Relaid l) (typeDeclaration r members p ms)
      (typeDeclaration r members' q ms) := by
  apply ParallelAll.bind (.lift parallel_currentKind)
  rintro kind _ rfl
  refine .next (.lift parallel_advance) fun _ _ => .bind (.lift inStep_identifier) fun _ _ hi => ?_
  refine .next (.lift (inStep_baseTypes hr)) fun _ _ => .next (.lift (inStep_eat _)) fun _ _ => ?_
  refine .bind hm fun _ _ hms => .next (.lift (inStep_eat _)) fun _ _ => ?_
  exact .next (.lift inStep_anyRange) fun _ _ => .pure (.mk _ _ _ _ hi hms)

theorem inStepAll_classMembers (n : Nat) :
    InStepAll l (List.Forall₂ (ClassMember.Relaid l)) (classMembers n) (classMembers n) := by
  induction n with
  | zero =>
    refine parallelAll_membersUntil _ (inStepAll_classMember (rules_inStep l 0) fun p q ms => ?_)
    refine .next (.lift parallel_runOut) fun _ _ => .next (.lift inStep_refuse) fun _ _ => ?_
    exact .next (.lift inStep_anyRange) fun _ _ => .pure (.incomplete ..)
  | succ n ih =>
    refine parallelAll_membersUntil _ (inStepAll_classMember (rules_inStep l _) fun p q ms => ?_)
    refine parallelAll_nestedDeclaration (inStep_anyRange.map fun _ _ _ => .incomplete ..) ?_
    exact (inStepAll_typeDeclaration (rules_inStep l n) ih p q ms).map fun _ _ h => .nestedType h

/-! ### Namespaces and units -/

theorem inStepAll_namespaceDeclaration (hr : r.InStep l)
    {members members' : Cancellable (List Member)}
    (hm : InStepAll l (List.Forall₂ (Member.Relaid l)) members members') :
    InStepAll l (NamespaceDeclaration.Relaid l) (namespaceDeclaration r members)
      (namespaceDeclaration r members') := by
  refine .next (.lift inStep_current) fun t u => .next (.lift (inStep_eat _)) fun _ _ => ?_
  apply ParallelAll.bind (.lift (inStep_name hr))
  intro name name' hname
  apply ParallelAll.bind (.lift (parallel_accept _))
  rintro b _ rfl
  have hlast (us us' : List UsingDirective) {ms ms' : List Member}
      (hms : List.Forall₂ (Member.Relaid l) ms ms') :
      InStepAll l (NamespaceDeclaration.Relaid l)
        (do return ⟨← rangeFrom t.start, name, us, ms⟩)
        (do return ⟨← rangeFrom u.start, name', us', ms'⟩) :=
    .next (.lift inStep_anyRange) fun _ _ => .pure (.mk _ _ _ _ hname hms)
  have hrest : InStepAll l (NamespaceDeclaration.Relaid l)
      (do
        let usings ← usingDirectives r
        let members ← members
        if !b then
          let _ ← eat (.punct .closeBrace)
        return ⟨← rangeFrom t.start, name, usings, members⟩)
      (do
        let usings ← usingDirectives r
        let members ← members'
        if !b then
          let _ ← eat (.punct .closeBrace)
        return ⟨← rangeFrom u.start, name', usings, members⟩) := by
    refine .next (.lift (inStep_usingDirectives hr)) fun us us' => .bind hm fun ms ms' hms => ?_
    exact .ite (.next (.lift (inStep_eat _)) fun _ _ => hlast us us' hms) (hlast us us' hms)
  exact .ite (.next (.lift (inStep_eat _)) fun _ _ => hrest) hrest

theorem inStep_globalStatement (hr : r.InStep l) :
    InStep l (Member.Relaid l) (globalStatement r) (globalStatement r) :=
  .withReader (fun _ _ => Abreast.withAsync (State.Relaid l) true)
    (hr.statement.map fun _ _ h => .globalStatement h)

theorem inStep_badGlobalMember :
    InStep l (Member.Relaid l) badGlobalMember badGlobalMember := by
  refine .next inStep_current fun _ _ => .next inStep_report fun _ _ => ?_
  exact .next parallel_advance fun _ _ => .next inStep_anyRange fun _ _ => .pure (.incomplete ..)

theorem inStepAll_member (hr : r.InStep l) (inNamespace : Bool)
    {declaration declaration' : Nat → Cancellable Member}
    (hd : ∀ p q, InStepAll l (Member.Relaid l) (declaration p) (declaration' q)) :
    InStepAll l (Member.Relaid l) (member r inNamespace declaration)
      (member r inNamespace declaration') := by
  apply ParallelAll.bind (.lift inStep_current)
  intro t u ht
  apply ParallelAll.bind .get
  intro s s' hs
  rw [ht.kind, hs.rest.alike.startsTypeDeclaration]
  exact .ite (hd _ _) (.ite (.lift (inStep_globalStatement hr)) (.lift inStep_badGlobalMember))

theorem inStepAll_declarationBody (hr : r.InStep l)
    {namespaceMembers namespaceMembers' : Cancellable (List Member)}
    (hn : InStepAll l (List.Forall₂ (Member.Relaid l)) namespaceMembers namespaceMembers')
    {classMembers classMembers' : Cancellable (List ClassMember)}
    (hc : InStepAll l (List.Forall₂ (ClassMember.Relaid l)) classMembers classMembers')
    (p q : Nat) :
    InStepAll l (Member.Relaid l) (declarationBody r namespaceMembers classMembers p)
      (declarationBody r namespaceMembers' classMembers' q) := by
  apply ParallelAll.bind (.lift parallel_currentKind)
  rintro kind _ rfl
  refine .ite ?_ (.bind (.lift parallel_modifiers) ?_)
  · exact (inStepAll_namespaceDeclaration hr hn).map fun _ _ h => .namespaceMember h
  · rintro ms _ rfl
    exact (inStepAll_typeDeclaration hr hc p q ms).map fun _ _ h => .typeMember h

theorem inStepAll_members (n : Nat) (inNamespace : Bool) :
    InStepAll l (List.Forall₂ (Member.Relaid l)) (members n inNamespace)
      (members n inNamespace) := by
  induction n generalizing inNamespace with
  | zero =>
    refine parallelAll_membersUntil _ (inStepAll_member (rules_inStep l 0) _ fun p q => ?_)
    refine .next (.lift parallel_runOut) fun _ _ => .next (.lift inStep_refuse) fun _ _ => ?_
    exact .next (.lift inStep_anyRange) fun _ _ => .pure (.incomplete ..)
  | succ n ih =>
    refine parallelAll_membersUntil _ (inStepAll_member (rules_inStep l _) _ fun p q => ?_)
    refine parallelAll_nestedDeclaration (inStep_anyRange.map fun _ _ _ => .incomplete ..) ?_
    exact inStepAll_declarationBody (rules_inStep l n) (ih true) (inStepAll_classMembers n) p q

theorem inStepAll_compilationUnit (n : Nat) :
    InStepAll l (CompilationUnit.Relaid l) (compilationUnit n) (compilationUnit n) := by
  refine .next (.lift (inStep_usingDirectives (rules_inStep l n))) fun _ _ => ?_
  refine .bind (inStepAll_members n false) fun _ _ hms => ?_
  exact .next (.lift inStep_current) fun _ _ => .pure ⟨hms⟩

/-- Units parsed from the same tokens in two layouts are the same up to places, and the same has
been reported of them. -/
theorem parseUnit_inStep {stream stream' : TokenStream} (maxDepth : Nat) (polls : Polls)
    (ht : l.Tokens stream.tokens stream'.tokens)
    (he : stream.endOfFile.Relaid l stream'.endOfFile)
    (hlast : l.stops stream.endOfFile.start stream'.endOfFile.start) (hzero : l.stops 0 0) :
    let run := parseUnit stream maxDepth l.before polls
    let run' := parseUnit stream' maxDepth l.before' polls
    Outcomes (CompilationUnit.Relaid l) run.1 run'.1 ∧ State.Relaid l run.2 run'.2 := by
  have henv : Env.Relaid l (.of stream maxDepth) (.of stream' maxDepth) :=
    ⟨he, hlast, congrArg (· + 1) ht.each.length_eq, rfl, rfl⟩
  have hstart : State.Relaid l (.start stream l.before polls) (.start stream' l.before' polls) :=
    ⟨ht, hzero, rfl, rfl, AgreeAfter.refl _ _, rfl⟩
  exact inStepAll_compilationUnit _ _ _ _ _ henv hstart

end Parser

end CSharpFront
