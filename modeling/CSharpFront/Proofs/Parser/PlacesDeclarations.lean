import CSharpFront.Proofs.Parser.PlacesRules
/-!
The places of declarations, and of whole units.
-/

namespace CSharpFront.Parser

variable {sort : Nat → Prop} {r : Rules}

/-- A parser that could be cancelled but is not, and places what it builds and reports. -/
abbrev PlacesAll {α : Type} (sort : Nat → Prop) (p : Cancellable α) (post : α → Prop) : Prop :=
  Completes (Placed sort) p post

theorem places_poll : PlacesAll sort poll fun _ => True := by
  apply Completes.bind .get
  rintro s ⟨_, hs⟩
  rw [hs.polls]
  refine .lift (.of_modify fun env s' hs' => ?_)
  exact ⟨hs'.endOfFile, hs'.rest, hs'.prevStop, hs'.diagnostics, rfl⟩

theorem places_membersUntil {α : Type} (ends : TokenKind → Bool) {member : Cancellable α}
    {post : α → Prop} (hm : PlacesAll sort member post) :
    PlacesAll sort (membersUntil ends member) fun ms => ∀ m ∈ ms, post m := by
  refine .bind (.loop (fun ms => ∀ m ∈ ms, post m) (by simp) fun ms hms => ?_)
    fun ms hms => .pure fun m h => hms m (List.mem_reverse.mp h)
  apply Completes.bind (.lift places_currentKind)
  intro _ _
  refine .ite (fun _ => .pure hms) fun _ => ?_
  apply Completes.bind places_poll
  intro _ _
  apply Completes.bind .get
  intro _ _
  apply Completes.bind hm
  intro m h
  have hcons := List.forall_mem_cons.mpr ⟨h, hms⟩
  apply Completes.bind .get
  intro _ _
  refine .ite (fun _ => ?_) fun _ => .pure hcons
  apply Completes.bind (.lift places_advance)
  intro _ _
  exact .pure hcons

theorem places_modifiers : Places sort modifiers fun _ => True :=
  .bind .get fun _ _ => .bind (places_advanceBy _) fun _ _ => .pure trivial

/-! ### Directives -/

theorem places_alias? : Places sort alias? fun i? => ∀ i ∈ i?, i.range.On sort := by
  apply Keeps.bind .get
  intro _ _
  refine .ite (fun _ => ?_) fun _ => .absent
  apply Keeps.bind places_identifier
  intro i hi
  apply Keeps.bind places_advance
  intro _ _
  refine .pure ?_
  simpa using hi

theorem places_usingDirective (hr : r.Placing sort) :
    Places sort (usingDirective r) (UsingDirective.Ranges (Range.On sort)) := by
  apply Keeps.bind places_current
  intro t ht
  apply Keeps.bind (places_eat _)
  intro _ _
  apply Keeps.bind (places_accept _)
  intro _ _
  apply Keeps.bind places_alias?
  intro i? hi
  apply Keeps.bind (places_name hr)
  intro name hname
  apply Keeps.bind (places_eat _)
  intro _ _
  apply Keeps.bind (places_rangeFrom ht.start)
  intro _ h
  exact .pure ⟨h, hi, hname⟩

theorem places_usingDirectives (hr : r.Placing sort) :
    Places sort (usingDirectives r) fun us => ∀ u ∈ us, u.Ranges (Range.On sort) := by
  refine .many (.bind places_currentKind fun _ _ => .ite (fun _ => ?_) fun _ => .absent)
  exact .present (places_usingDirective hr)

/-! ### Members of types -/

theorem places_parameter (hr : r.Placing sort) :
    Places sort (parameter r) (Parameter.Ranges (Range.On sort)) := by
  apply Keeps.bind places_current
  intro t ht
  apply Keeps.iteBind (fun _ => .present places_take) fun _ => .absent
  intro m? hm
  apply Keeps.bind (hr.type true)
  intro type htype
  apply Keeps.bind places_identifier
  intro i hi
  apply Keeps.bind (places_rangeFrom ht.start)
  intro _ h
  exact .pure ⟨h, hm, htype, hi⟩

theorem places_parameters (hr : r.Placing sort) :
    Places sort (parameters r) fun ps => ∀ p ∈ ps, p.Ranges (Range.On sort) := by
  apply Keeps.bind (places_eat _)
  intro _ _
  apply Keeps.bind places_currentKind
  intro _ _
  apply Keeps.iteBind (fun _ => .pure (List.forall_mem_nil _))
    fun _ => places_separated (places_parameter hr)
  intro ps hps
  apply Keeps.bind (places_eat _)
  intro _ _
  exact .pure hps

/-- Whether `await` is a reserved word has nothing to do with places. -/
theorem placed_iff_of_inAsync (inAsync : Bool) (env : Env) (s : State) :
    Placed sort { env with inAsync } s ↔ Placed sort env s :=
  ⟨fun h => ⟨h.endOfFile, h.rest, h.prevStop, h.diagnostics, h.polls⟩,
    fun h => ⟨h.endOfFile, h.rest, h.prevStop, h.diagnostics, h.polls⟩⟩

theorem places_methodBody (hr : r.Placing sort) (isAsync : Bool) :
    Places sort (methodBody r isAsync) fun b? => ∀ b ∈ b?, b.Ranges (Range.On sort) := by
  apply Keeps.bind (places_accept _)
  intro _ _
  refine .ite (fun _ => .absent) fun _ => ?_
  refine .withReader (placed_iff_of_inAsync isAsync) ?_
  exact .present (places_block hr)

theorem places_constructorInitializer (hr : r.Placing sort) :
    Places sort (constructorInitializer r) fun _ => True := by
  have hrest : Places sort (do let _ ← arguments r .openParen .closeParen) fun _ => True :=
    .bind (places_arguments hr _ _) fun _ _ => .pure trivial
  apply Keeps.bind (places_accept _)
  intro _ _
  refine .ite (fun _ => ?_) fun _ => .pure trivial
  apply Keeps.bind places_currentKind
  intro _ _
  split
  · apply Keeps.bind places_advance
    intro _ _
    exact hrest
  · apply Keeps.bind places_advance
    intro _ _
    exact hrest
  · apply Keeps.bind places_expectedSpan
    intro _ hspan
    apply Keeps.bind (places_report _ hspan _)
    intro _ _
    exact hrest

theorem places_methodRest (hr : r.Placing sort) {start : Nat} (hs : sort start)
    (modifiers : Modifiers) {type? : Option TypeSyntax}
    (ht : ∀ t ∈ type?, t.Ranges (Range.On sort)) {i : Identifier} (hi : i.range.On sort) :
    Places sort (methodRest r start modifiers type? i) (ClassMember.Ranges (Range.On sort)) := by
  apply Keeps.bind (places_parameters hr)
  intro ps hps
  have hrest : Places sort (do
      let body? ← methodBody r (modifiers.contains .asyncMod)
      return ClassMember.method ⟨← rangeFrom start, modifiers, type?, i, ps, body?⟩)
      (ClassMember.Ranges (Range.On sort)) := by
    apply Keeps.bind (places_methodBody hr _)
    intro b? hb
    apply Keeps.bind (places_rangeFrom hs)
    intro _ h
    exact .pure (.method ⟨h, ht, hi, hps, hb⟩)
  refine .ite (fun _ => ?_) fun _ => hrest
  apply Keeps.bind (places_constructorInitializer hr)
  intro _ _
  exact hrest

theorem places_conversionOperator (hr : r.Placing sort) {start : Nat} (hs : sort start)
    (modifiers : Modifiers) :
    Places sort (conversionOperator r start modifiers) (ClassMember.Ranges (Range.On sort)) := by
  apply Keeps.bind places_take
  intro o ho
  apply Keeps.bind (places_eat _)
  intro _ _
  apply Keeps.bind (hr.type true)
  intro t ht
  apply Keeps.bind (places_parameters hr)
  intro ps hps
  apply Keeps.bind (places_methodBody hr _)
  intro b? hb
  apply Keeps.bind (places_rangeFrom hs)
  intro _ h
  exact .pure (.conversion ⟨h, ho, ht, hps, hb⟩)

theorem places_typedMember (hr : r.Placing sort) {start : Nat} (hs : sort start)
    (modifiers : Modifiers) :
    Places sort (typedMember r start modifiers) (ClassMember.Ranges (Range.On sort)) := by
  apply Keeps.bind (hr.type true)
  intro t ht
  apply Keeps.bind places_identifier
  intro i hi
  apply Keeps.bind places_currentKind
  intro _ _
  refine .ite (fun _ => ?_) fun _ => ?_
  · exact places_methodRest hr hs modifiers (by simpa using ht) hi
  · apply Keeps.bind (places_declarators hr ht.range.start ht hi)
    intro d hd
    apply Keeps.bind (places_eat _)
    intro _ _
    apply Keeps.bind (places_rangeFrom hs)
    intro _ h
    exact .pure (.field ⟨h, hd⟩)

theorem places_badMember {start : Nat} (hs : sort start) :
    Places sort (badMember start) (ClassMember.Ranges (Range.On sort)) := by
  have hrest : Places sort (do return ClassMember.incomplete (← rangeFrom start))
      (ClassMember.Ranges (Range.On sort)) :=
    .bind (places_rangeFrom hs) fun _ h => .pure (.incomplete h)
  apply Keeps.bind places_current
  intro t ht
  apply Keeps.bind (places_report _ ht.toSpan _)
  intro _ _
  refine .ite (fun _ => hrest) fun _ => .bind places_advance fun _ _ => ?_
  apply Keeps.bind .get
  intro _ _
  apply Keeps.bind (places_advanceBy _)
  intro _ _
  exact hrest

theorem places_plainMember (hr : r.Placing sort) {start : Nat} (hs : sort start)
    (modifiers : Modifiers) :
    Places sort (plainMember r start modifiers) (ClassMember.Ranges (Range.On sort)) := by
  apply Keeps.bind .get
  intro _ _
  refine .ite (fun _ => places_conversionOperator hr hs _) fun _ => ?_
  refine .ite (fun _ => ?_) fun _ => ?_
  · apply Keeps.bind places_identifier
    intro i hi
    exact places_methodRest hr hs modifiers (by simp) hi
  · exact .ite (fun _ => places_typedMember hr hs _) fun _ => places_badMember hs

theorem places_classMember (hr : r.Placing sort)
    {nestedType : Nat → Modifiers → Cancellable ClassMember}
    (hn : ∀ start modifiers, sort start →
      PlacesAll sort (nestedType start modifiers) (ClassMember.Ranges (Range.On sort))) :
    PlacesAll sort (classMember r nestedType) (ClassMember.Ranges (Range.On sort)) := by
  apply Completes.bind (.lift places_current)
  intro t ht
  apply Completes.bind (.lift places_modifiers)
  intro ms _
  apply Completes.bind (.lift places_currentKind)
  intro _ _
  refine .ite (fun _ => hn _ _ ht.start) fun _ => ?_
  exact .lift (places_plainMember hr ht.start ms)

/-! ### Types -/

theorem places_baseTypes (hr : r.Placing sort) : Places sort (baseTypes r) fun _ => True := by
  apply Keeps.bind (places_accept _)
  intro _ _
  refine .ite (fun _ => ?_) fun _ => .pure trivial
  apply Keeps.bind (places_separated (hr.type true))
  intro _ _
  exact .pure trivial

theorem places_typeDeclaration (hr : r.Placing sort) {members : Cancellable (List ClassMember)}
    (hm : PlacesAll sort members fun ms => ∀ m ∈ ms, m.Ranges (Range.On sort)) {start : Nat}
    (hs : sort start) (modifiers : Modifiers) :
    PlacesAll sort (typeDeclaration r members start modifiers)
      (TypeDeclaration.Ranges (Range.On sort)) := by
  apply Completes.bind (.lift places_currentKind)
  intro _ _
  apply Completes.bind (.lift places_advance)
  intro _ _
  apply Completes.bind (.lift places_identifier)
  intro i hi
  apply Completes.bind (.lift (places_baseTypes hr))
  intro _ _
  apply Completes.bind (.lift (places_eat _))
  intro _ _
  apply Completes.bind hm
  intro ms hms
  apply Completes.bind (.lift (places_eat _))
  intro _ _
  apply Completes.bind (.lift (places_rangeFrom hs))
  intro _ h
  exact .pure (.mk _ _ h hi hms)

theorem places_nestedDeclaration {α : Type} {refused : P α} {body : Cancellable α}
    {post : α → Prop} (hr : Places sort refused post) (hb : PlacesAll sort body post) :
    PlacesAll sort (nestedDeclaration refused body) post :=
  Keeps.nested places_refuse (hr.map fun a h => ⟨a, rfl, h⟩) hb

theorem places_classMembers (n : Nat) :
    PlacesAll sort (classMembers n) fun ms => ∀ m ∈ ms, m.Ranges (Range.On sort) := by
  induction n with
  | zero =>
    refine places_membersUntil _ (places_classMember (placing_rules 0) fun start _ hs => ?_)
    apply Completes.bind (.lift .runOut)
    intro _ _
    apply Completes.bind (.lift places_refuse)
    intro _ _
    apply Completes.bind (.lift (places_rangeFrom hs))
    intro _ h
    exact .pure (.incomplete h)
  | succ n ih =>
    refine places_membersUntil _ (places_classMember (placing_rules _) fun start _ hs => ?_)
    refine places_nestedDeclaration ((places_rangeFrom hs).map fun _ h => .incomplete h) ?_
    exact (places_typeDeclaration (placing_rules n) ih hs _).map fun _ hd => .nestedType hd

/-! ### Namespaces and units -/

theorem places_namespaceDeclaration (hr : r.Placing sort) {members : Cancellable (List Member)}
    (hm : PlacesAll sort members fun ms => ∀ m ∈ ms, m.Ranges (Range.On sort)) :
    PlacesAll sort (namespaceDeclaration r members)
      (NamespaceDeclaration.Ranges (Range.On sort)) := by
  apply Completes.bind (.lift places_current)
  intro t ht
  apply Completes.bind (.lift (places_eat _))
  intro _ _
  apply Completes.bind (.lift (places_name hr))
  intro name hname
  apply Completes.bind (.lift (places_accept _))
  intro b _
  have hlast {us : List UsingDirective} (hus : ∀ u ∈ us, u.Ranges (Range.On sort))
      {ms : List Member} (hms : ∀ m ∈ ms, m.Ranges (Range.On sort)) :
      PlacesAll sort (do return ⟨← rangeFrom t.start, name, us, ms⟩)
        (NamespaceDeclaration.Ranges (Range.On sort)) :=
    .bind (.lift (places_rangeFrom ht.start)) fun _ h => .pure (.mk h hname hus hms)
  have hrest : PlacesAll sort (do
      let usings ← usingDirectives r
      let members ← members
      if !b then
        let _ ← eat (.punct .closeBrace)
      return ⟨← rangeFrom t.start, name, usings, members⟩)
      (NamespaceDeclaration.Ranges (Range.On sort)) := by
    apply Completes.bind (.lift (places_usingDirectives hr))
    intro us hus
    apply Completes.bind hm
    intro ms hms
    refine .ite (fun _ => ?_) fun _ => hlast hus hms
    apply Completes.bind (.lift (places_eat _))
    intro _ _
    exact hlast hus hms
  refine .ite (fun _ => ?_) fun _ => hrest
  apply Completes.bind (.lift (places_eat _))
  intro _ _
  exact hrest

theorem places_globalStatement (hr : r.Placing sort) :
    Places sort (globalStatement r) (Member.Ranges (Range.On sort)) :=
  .withReader (placed_iff_of_inAsync true) (hr.statement.map fun _ hs => .globalStatement hs)

theorem places_badGlobalMember :
    Places sort badGlobalMember (Member.Ranges (Range.On sort)) := by
  apply Keeps.bind places_current
  intro t ht
  apply Keeps.bind (places_report _ ht.toSpan _)
  intro _ _
  apply Keeps.bind places_advance
  intro _ _
  apply Keeps.bind (places_rangeFrom ht.start)
  intro _ h
  exact .pure (.incomplete h)

theorem places_member (hr : r.Placing sort) (inNamespace : Bool)
    {declaration : Nat → Cancellable Member}
    (hd : ∀ start, sort start →
      PlacesAll sort (declaration start) (Member.Ranges (Range.On sort))) :
    PlacesAll sort (member r inNamespace declaration) (Member.Ranges (Range.On sort)) := by
  apply Completes.bind (.lift places_current)
  intro t ht
  apply Completes.bind .get
  intro _ _
  refine .ite (fun _ => hd _ ht.start) fun _ => ?_
  exact .ite (fun _ => .lift (places_globalStatement hr)) fun _ => .lift places_badGlobalMember

theorem places_declarationBody (hr : r.Placing sort)
    {namespaceMembers : Cancellable (List Member)}
    (hn : PlacesAll sort namespaceMembers fun ms => ∀ m ∈ ms, m.Ranges (Range.On sort))
    {classMembers : Cancellable (List ClassMember)}
    (hc : PlacesAll sort classMembers fun ms => ∀ m ∈ ms, m.Ranges (Range.On sort))
    {start : Nat} (hs : sort start) :
    PlacesAll sort (declarationBody r namespaceMembers classMembers start)
      (Member.Ranges (Range.On sort)) := by
  apply Completes.bind (.lift places_currentKind)
  intro _ _
  refine .ite (fun _ => ?_) fun _ => ?_
  · exact (places_namespaceDeclaration hr hn).map fun _ h => .namespaceMember h
  · apply Completes.bind (.lift places_modifiers)
    intro ms _
    exact (places_typeDeclaration hr hc hs ms).map fun _ h => .typeMember h

theorem places_members (n : Nat) (inNamespace : Bool) :
    PlacesAll sort (members n inNamespace) fun ms => ∀ m ∈ ms, m.Ranges (Range.On sort) := by
  induction n generalizing inNamespace with
  | zero =>
    refine places_membersUntil _ (places_member (placing_rules 0) _ fun start hs => ?_)
    apply Completes.bind (.lift .runOut)
    intro _ _
    apply Completes.bind (.lift places_refuse)
    intro _ _
    apply Completes.bind (.lift (places_rangeFrom hs))
    intro _ h
    exact .pure (.incomplete h)
  | succ n ih =>
    refine places_membersUntil _ (places_member (placing_rules _) _ fun start hs => ?_)
    refine places_nestedDeclaration ((places_rangeFrom hs).map fun _ h => .incomplete h) ?_
    exact places_declarationBody (placing_rules n) (ih true) (places_classMembers n) hs

/-- A unit begins at the start of the text. -/
theorem places_compilationUnit (levels : Nat) (hz : sort 0) :
    PlacesAll sort (compilationUnit levels) (CompilationUnit.Ranges (Range.On sort)) := by
  apply Completes.bind (.lift (places_usingDirectives (placing_rules levels)))
  intro us hus
  apply Completes.bind (places_members levels false)
  intro ms hms
  apply Completes.bind (.lift places_current)
  intro t ht
  exact .pure ⟨⟨hz, ht.stop⟩, hus, hms, ht⟩

/-- A unit that is not cancelled is parsed to its end. The ends of its tokens and of what was
reported before are of one sort, and so are those of its tree and of what is reported after. -/
theorem exists_ok_parseUnit {stream : TokenStream} (maxDepth : Nat)
    {diagnostics : Array Diagnostic} (hz : sort 0)
    (ht : ∀ t ∈ stream.toList, t.range.On sort) (hd : ∀ d ∈ diagnostics, d.span.On sort) :
    ∃ u s, parseUnit stream maxDepth diagnostics none = (.ok u, s) ∧
      u.Ranges (Range.On sort) ∧ s.polls = none ∧ ∀ d ∈ s.diagnostics, d.span.On sort := by
  have hstart : Placed sort (.of stream maxDepth) (.start stream diagnostics none) :=
    ⟨ht _ (by simp [TokenStream.toList, Env.of]),
      fun t h => ht t (List.mem_append_left _ h), hz, hd, rfl⟩
  obtain ⟨⟨u, hu, hr⟩, hs⟩ := places_compilationUnit _ hz _ _ hstart
  exact ⟨u, _, Prod.ext hu rfl, hr, hs.polls, hs.diagnostics⟩

/-- A unit that is not cancelled is parsed to its end, wherever its tokens stand. -/
theorem exists_parseUnit_eq (stream : TokenStream) (maxDepth : Nat)
    (diagnostics : Array Diagnostic) :
    ∃ u s, parseUnit stream maxDepth diagnostics none = (.ok u, s) := by
  have hplace : ∀ r : Range, r.On fun _ => True := fun _ => ⟨trivial, trivial⟩
  have hspan : ∀ d ∈ diagnostics, d.span.On fun _ => True := fun _ _ => ⟨trivial, trivial⟩
  obtain ⟨u, s, hrun, -⟩ := exists_ok_parseUnit maxDepth trivial (fun t _ => hplace t.range) hspan
  exact ⟨u, s, hrun⟩

end CSharpFront.Parser
