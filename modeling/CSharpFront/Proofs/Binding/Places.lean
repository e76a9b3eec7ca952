import CSharpFront.Binding.Unit
import CSharpFront.Proofs.Keeps
import CSharpFront.Proofs.Syntax.Ranges
import CSharpFront.Proofs.Text.Boundary
/-!
Where the binder reports. It knows no places but those of the tree, so that its spans begin and end
at offsets of the same sort.
-/

namespace CSharpFront.Binding

variable {sort : Nat → Prop} {c : Context}

/-- A binding that reports at offsets of one sort if all that was reported before is there. -/
def Places {α : Type} (sort : Nat → Prop) (m : BindM α) : Prop :=
  Keeps (fun s => ∀ d ∈ s.diagnostics, d.span.On sort) m fun _ => True

namespace Places

variable {α β : Type} {m : BindM α}

theorem pure (a : α) : Places sort (Pure.pure a : BindM α) := Keeps.pure trivial

theorem bind {f : α → BindM β} (hm : Places sort m) (hf : ∀ a, Places sort (f a)) :
    Places sort (m >>= f) :=
  Keeps.bind hm fun a _ => hf a

theorem map {f : α → β} (hm : Places sort m) : Places sort (f <$> m) :=
  hm.bind fun a => .pure (f a)

theorem ite {p : Prop} [Decidable p] {n : BindM α} (hm : p → Places sort m)
    (hn : ¬ p → Places sort n) : Places sort (if p then m else n) :=
  Keeps.ite hm hn

theorem foldlM {f : β → α → BindM β} {as : List α} (b : β)
    (hf : ∀ b, ∀ a ∈ as, Places sort (f b a)) : Places sort (as.foldlM f b) :=
  Keeps.foldlM b (fun b _ => hf b) trivial

/-- What changes no diagnostics reports nothing. -/
theorem of_diagnostics_eq (h : ∀ s, (m s).2.diagnostics = s.diagnostics) : Places sort m :=
  fun s hs => ⟨trivial, fun d hd => hs d (h s ▸ hd)⟩

end Places

/-! ### Elementary steps -/

theorem places_report (message : Message) {span : Span} (h : span.On sort)
    (arguments : List String) : Places sort (report message span arguments) := by
  refine Keeps.of_modify fun s hs d hd => ?_
  rcases Array.mem_push.mp hd with hd | rfl
  · exact hs d hd
  · exact h

theorem places_complain {d? : Option Diagnostic} (h : ∀ d ∈ d?, d.span.On sort) :
    Places sort (complain d?) := by
  cases d? with
  | none => exact .pure ()
  | some d =>
    refine Keeps.of_modify fun s hs e he => ?_
    rcases Array.mem_push.mp he with he | rfl
    · exact hs e he
    · exact h _ rfl

theorem places_list (t : Ty) : Places sort (list t) := .of_diagnostics_eq fun _ => rfl

theorem places_resolve (c : Context) (type : TypeSyntax) : Places sort (c.resolve type) :=
  .of_diagnostics_eq fun _ => rfl

theorem places_declare (c : Context) {i : Identifier} (h : i.range.On sort) (t : Ty) :
    Places sort (c.declare i t) := by
  refine .ite (fun _ => .pure _) fun _ => ?_
  split
  · exact .pure _
  · apply Places.bind (places_report _ h.toSpan _)
    intro _
    exact .pure _

theorem span_of_mem_mismatch? {declared : List DeclaredConversion} {span : Span}
    {source target : Ty} : ∀ d ∈ Ty.mismatch? declared span source target, d.span = span := by
  intro d hd
  unfold Ty.mismatch? at hd
  split at hd
  · simp at hd
  split at hd
  · simp at hd
  · simp at hd
  · simp at hd
  · obtain rfl := Option.some.inj hd
    rfl
  · obtain rfl := Option.some.inj hd
    rfl

theorem places_assign (c : Context) {e : Expr} (he : e.Ranges (Range.On sort)) (s t : Ty) :
    Places sort (c.assign e s t) := by
  refine .ite (fun _ => .pure _) fun _ => places_complain fun d hd => ?_
  rw [span_of_mem_mismatch? d hd]
  exact he.range.toSpan

theorem places_require (c : Context) {e : Expr} (he : e.Ranges (Range.On sort)) (t : Ty) :
    Places sort (c.require e t) := by
  refine places_complain fun d hd => ?_
  simp only [Ty.checkCondition] at hd
  split at hd
  · simp at hd
  · rw [span_of_mem_mismatch? d hd]
    exact he.range.toSpan

theorem places_requireCast (c : Context) {span : Span} (h : span.On sort) (s t : Ty) :
    Places sort (c.requireCast span s t) :=
  .ite (fun _ => places_report _ h _) fun _ => .pure _

theorem places_rangeType (c : Context) (type? : Option TypeSyntax) (source : Ty) :
    Places sort (rangeType c type? source) := by
  cases type? with
  | some type => exact places_resolve c type
  | none => exact .pure _

/-! ### Expressions -/

mutual

theorem places_expression (c : Context) (expected? : Option Ty) :
    (e : Expr) → e.Ranges (Range.On sort) → Places sort (expression c expected? e)
  | .identifier _, _ | .literal _, _ | .thisWord _, _ | .predefinedType _ _, _ | .missing _, _ =>
    .pure _
  | .parenthesized _ e, .parenthesized _ he =>
    .bind (places_expression c none e he) fun _ => .pure _
  | .binary _ left _ right, .binary _ hl _ hr =>
    .bind (places_expression c none left hl) fun _ =>
      .bind (places_expression c none right hr) fun _ => .bind (places_list _) fun _ => .pure _
  | .assignment _ left _ right, .assignment _ hl _ hr => by
    apply Places.bind (places_expression c none left hl)
    intro _
    apply Places.bind (places_expression c none right hr)
    intro _
    refine .ite (fun _ => ?_) fun _ => .pure _
    apply Places.bind (places_assign c hr _ _)
    intro _
    exact .pure _
  | .conditional _ e t f, .conditional _ he ht hf => by
    apply Places.bind (places_expression c none e he)
    intro _
    apply Places.bind (places_require c he _)
    intro _
    apply Places.bind (places_expression c none t ht)
    intro _
    apply Places.bind (places_expression c none f hf)
    intro _
    exact .pure _
  | .prefixUnary _ _ e, .prefixUnary _ _ he =>
    .bind (places_expression c none e he) fun _ => .bind (places_list _) fun _ => .pure _
  | .postfixUnary _ e _, .postfixUnary _ he _ =>
    .bind (places_expression c none e he) fun _ => .pure _
  | .cast _ _ e, .cast hr _ he => by
    apply Places.bind (places_resolve c _)
    intro _
    apply Places.bind (places_expression c none e he)
    intro _
    apply Places.bind (places_requireCast c hr.toSpan _ _)
    intro _
    exact .pure _
  | .typeTest _ e _ _, .typeTest _ he _ _ =>
    .bind (places_expression c none e he) fun _ => .bind (places_resolve c _) fun _ => .pure _
  | .memberAccess _ e _ _, .memberAccess _ he _ _ => by
    apply Places.bind (places_expression c none e he)
    intro d
    split
    · exact .pure _
    · apply Places.bind (places_list _)
      intro _
      exact .pure _
  | .await _ e, .await _ he => .bind (places_expression c none e he) fun _ => .pure _
  | .invocation _ callee arguments, .invocation _ he hs => by
    have hrest (t : Ty) : Places sort (do
        let _ ← expressions c arguments
        return Denotation.value t) :=
      .bind (places_expressions c arguments hs) fun _ => .pure _
    cases callee with
    | memberAccess _ e _ _ =>
      cases he with
      | memberAccess _ he _ _ =>
        apply Places.bind (places_expression c none e he)
        intro _
        exact .bind (places_list _) hrest
    | identifier i => exact hrest _
    | _ => exact .bind (places_expression c none _ he) fun _ => hrest _
  | .elementAccess _ e arguments, .elementAccess _ he hs => by
    apply Places.bind (places_expression c none e he)
    intro _
    apply Places.bind (places_expressions c arguments hs)
    intro _
    exact .pure _
  | .objectCreation _ type arguments? initializer?, .objectCreation _ _ hs hi => by
    unfold expression
    apply Places.bind (places_resolve c type)
    intro t
    have hrest : Places sort (do
        match initializer? with
        | none => pure ()
        | some ⟨_, es⟩ => properties c t es
        return Denotation.value t) := by
      cases initializer? with
      | none => exact .pure _
      | some i =>
        cases i with
        | mk _ es =>
          cases hi _ rfl with
          | mk _ hes => exact .bind (places_properties c t es hes) fun _ => .pure _
    cases arguments? with
    | none => exact hrest
    | some arguments => exact .bind (places_expressions c arguments (hs _ rfl)) fun _ => hrest
  | .arrayCreation _ type sizes initializer?, .arrayCreation _ _ hs hi => by
    unfold expression
    apply Places.bind (places_resolve c type)
    intro t
    apply Places.bind (places_expressions c sizes hs)
    intro _
    cases initializer? with
    | none => exact .pure _
    | some i =>
      cases i with
      | mk _ es =>
        cases hi _ rfl with
        | mk _ hes =>
          dsimp only
          split
          · apply Places.bind (places_elements c _ _ es hes)
            intro _
            exact .pure _
          · exact .pure _
  | .implicitArrayCreation _ ⟨_, es⟩, .implicitArrayCreation _ (.mk _ hes) => by
    apply Places.bind (places_expressions c es hes)
    intro _
    split
    · apply Places.bind (places_list _)
      intro _
      exact .pure _
    · exact .pure _
  | .initializer ⟨_, es⟩, .initializer (.mk _ hes) => by
    unfold expression
    split
    · apply Places.bind (places_elements c _ _ es hes)
      intro _
      exact .pure _
    · apply Places.bind (places_expressions c es hes)
      intro _
      exact .pure _
  | .query _ ⟨_, type?, i, e⟩ body, .query _ (.mk _ _ _ he) hb => by
    unfold expression
    apply Places.bind (places_expression c none e he)
    intro _
    apply Places.bind (places_rangeType c _ _)
    intro t
    apply Places.bind (places_queryBody _ body hb)
    intro _
    exact .pure _

theorem places_expressions (c : Context) :
    (es : List Expr) → (∀ e ∈ es, e.Ranges (Range.On sort)) → Places sort (expressions c es)
  | [], _ => .pure _
  | e :: es, h => by
    obtain ⟨he, hes⟩ := List.forall_mem_cons.mp h
    apply Places.bind (places_expression c none e he)
    intro _
    apply Places.bind (places_expressions c es hes)
    intro _
    exact .pure _

theorem places_elements (c : Context) (element : Ty) (rank : Nat) :
    (es : List Expr) → (∀ e ∈ es, e.Ranges (Range.On sort)) →
      Places sort (elements c element rank es)
  | [], _ => .pure _
  | e :: es, h => by
    obtain ⟨he, hes⟩ := List.forall_mem_cons.mp h
    have hrest := places_elements c element rank es hes
    apply Places.bind (places_expression c _ e he)
    intro t
    refine .ite (fun _ => hrest) fun _ => ?_
    apply Places.bind (places_assign c he _ _)
    intro _
    exact hrest

theorem places_properties (c : Context) (owner : Ty) :
    (es : List Expr) → (∀ e ∈ es, e.Ranges (Range.On sort)) →
      Places sort (properties c owner es)
  | [], _ => .pure _
  | e :: es, h => by
    obtain ⟨he, hes⟩ := List.forall_mem_cons.mp h
    have hrest := places_properties c owner es hes
    cases e with
    | assignment _ left _ right =>
      cases he with
      | assignment _ _ _ hr =>
        apply Places.bind (places_expression c none right hr)
        intro t
        split
        · apply Places.bind (places_assign c hr _ _)
          intro _
          exact hrest
        · exact hrest
    | _ => exact .bind (places_expression c none _ he) fun _ => hrest

theorem places_clauses (c : Context) :
    (qs : List QueryClause) → (∀ q ∈ qs, q.Ranges (Range.On sort)) → Places sort (clauses c qs)
  | [], _ => .pure _
  | .fromClause ⟨_, type?, i, e⟩ :: qs, h => by
    obtain ⟨hq, hqs⟩ := List.forall_mem_cons.mp h
    cases hq with
    | fromClause hq =>
      cases hq with
      | mk _ _ _ he =>
        apply Places.bind (places_expression c none e he)
        intro _
        apply Places.bind (places_rangeType c _ _)
        intro _
        exact places_clauses _ qs hqs
  | .letClause _ i e :: qs, h => by
    obtain ⟨hq, hqs⟩ := List.forall_mem_cons.mp h
    cases hq with
    | letClause _ _ he =>
      apply Places.bind (places_expression c none e he)
      intro _
      exact places_clauses _ qs hqs
  | .whereClause _ e :: qs, h => by
    obtain ⟨hq, hqs⟩ := List.forall_mem_cons.mp h
    cases hq with
    | whereClause _ he =>
      apply Places.bind (places_expression c none e he)
      intro _
      apply Places.bind (places_require c he _)
      intro _
      exact places_clauses c qs hqs
  | .orderByClause _ ks :: qs, h => by
    obtain ⟨hq, hqs⟩ := List.forall_mem_cons.mp h
    cases hq with
    | orderByClause _ hks =>
      apply Places.bind (places_sortKeys c ks hks)
      intro _
      exact places_clauses c qs hqs

theorem places_sortKeys (c : Context) :
    (ks : List SortKey) → (∀ k ∈ ks, k.Ranges (Range.On sort)) → Places sort (sortKeys c ks)
  | [], _ => .pure _
  | ⟨_, e, _⟩ :: ks, h => by
    obtain ⟨hk, hks⟩ := List.forall_mem_cons.mp h
    cases hk with
    | mk _ _ he => exact .bind (places_expression c none e he) fun _ => places_sortKeys c ks hks

theorem places_ending (c : Context) :
    (e : QueryEnding) → e.Ranges (Range.On sort) → Places sort (ending c e)
  | .select _ e, .select _ he => .bind (places_expression c none e he) fun _ => .pure _
  | .group _ e k, .group _ he hk => by
    apply Places.bind (places_expression c none e he)
    intro _
    apply Places.bind (places_expression c none k hk)
    intro _
    exact .ite (fun _ => .pure _) fun _ => places_list _
  | .missing _, _ => .pure _

theorem places_queryBody (c : Context) :
    (body : QueryBody) → body.Ranges (Range.On sort) → Places sort (queryBody c body)
  | ⟨_, qs, e, continuation?⟩, .mk _ hqs he hk => by
    unfold queryBody
    apply Places.bind (places_clauses c qs hqs)
    intro c
    apply Places.bind (places_ending c e he)
    intro t
    refine .ite (fun _ => .pure _) fun _ => ?_
    cases continuation? with
    | none => exact places_list _
    | some k =>
      cases k with
      | mk _ i body =>
        cases hk _ rfl with
        | mk _ _ hb => exact places_queryBody _ body hb

end

theorem places_initialValue (c : Context) (target : Ty) {e : Expr}
    (he : e.Ranges (Range.On sort)) : Places sort (initialValue c target e) := by
  apply Places.bind (places_expression c _ e he)
  intro t
  refine .ite (fun _ => .pure _) fun _ => ?_
  exact places_assign c he _ _

theorem places_condition (c : Context) {e : Expr} (he : e.Ranges (Range.On sort)) :
    Places sort (condition c e) :=
  .bind (places_expression c none e he) fun _ => places_require c he _

/-! ### Statements -/

theorem places_declareLabel (c : Context) {l : Identifier} (h : l.range.On sort) :
    Places sort (declareLabel c l) := by
  refine .ite (fun _ => .pure _) fun _ => ?_
  split
  · exact .pure _
  · apply Places.bind (places_report _ h.toSpan _)
    intro _
    exact .pure _

theorem range_on_of_mem_labels : (s : Stmt) → s.Ranges (Range.On sort) →
    ∀ l ∈ s.labels, l.range.On sort
  | .labeled _ l s, .labeled _ hl hs => by
    intro i hi
    rcases List.mem_cons.mp hi with rfl | hi
    · exact hl
    · exact range_on_of_mem_labels s hs i hi
  | .block _, _ | .empty _, _ | .localDeclaration .., _ | .expression .., _ | .ifElse .., _
  | .whileLoop .., _ | .doLoop .., _ | .forLoop .., _ | .returnValue .., _ | .breakLoop _, _
  | .continueLoop _, _ | .goto .., _ => by simp [Stmt.labels]

theorem places_declareLabels (c : Context) {ss : List Stmt}
    (h : ∀ s ∈ ss, s.Ranges (Range.On sort)) : Places sort (declareLabels c ss) := by
  refine .foldlM c fun c l hl => ?_
  obtain ⟨s, hs, hl⟩ := List.mem_flatMap.mp hl
  exact places_declareLabel c (range_on_of_mem_labels s (h s hs) l hl)

theorem places_embed (c : Context) {s : Stmt} (h : s.Ranges (Range.On sort)) :
    Places sort (embed c s) :=
  .ite (fun _ => .pure _) fun _ => places_declareLabels _ (by simpa using h)

theorem places_goto (c : Context) {l : Identifier} (h : l.range.On sort) :
    Places sort (goto c l) := by
  refine .ite (fun _ => .pure _) fun _ => ?_
  split
  · exact .of_diagnostics_eq fun _ => rfl
  · exact places_report _ h.toSpan _

theorem places_inferredType (c : Context) {e? : Option Expr}
    (h : ∀ e ∈ e?, e.Ranges (Range.On sort)) : Places sort (inferredType c e?) := by
  cases e? with
  | none => exact .pure _
  | some e => exact .bind (places_expression c none e (h e rfl)) fun _ => .pure _

theorem places_declarator (declared? : Option Ty) (c : Context) {d : Declarator}
    (h : d.Ranges (Range.On sort)) : Places sort (declarator declared? c d) := by
  have hrest (t : Ty) : Places sort (c.declare d.identifier t) := places_declare c h.identifier t
  unfold declarator
  cases declared? with
  | none => exact .bind (places_inferredType c h.initializer) hrest
  | some t =>
    cases he : d.initializer? with
    | none => exact hrest t
    | some e => exact .bind (places_initialValue c t (h.initializer e he)) fun _ => hrest t

theorem places_declareVariables (c : Context) {d : VariableDeclaration}
    (h : d.Ranges (Range.On sort)) : Places sort (declareVariables c d) := by
  have hrest (declared? : Option Ty) :
      Places sort (d.declarators.foldlM (declarator declared?) c) :=
    .foldlM c fun c v hv => places_declarator declared? c (h.declarators v hv)
  refine .ite (fun _ => hrest none) fun _ => ?_
  exact .bind (.map (places_resolve c d.type)) hrest

theorem places_forHeader (c : Context) {h : ForHeader} (hh : h.Ranges (Range.On sort)) :
    Places sort (forHeader c h) := by
  have hlast (c : Context) : Places sort (do let _ ← expressions c h.incrementors; return c) :=
    .bind (places_expressions c _ hh.incrementors) fun _ => .pure _
  have hrest (c : Context) : Places sort (forHeader c { h with initializer? := none }) := by
    apply Places.bind (.pure c)
    intro c
    dsimp only
    split
    next e he => exact .bind (places_condition c (hh.condition e he)) fun _ => hlast c
    · exact hlast c
  unfold forHeader
  cases hi : h.initializer? with
  | none => exact hrest c
  | some i =>
    cases hh.initializer i hi with
    | declaration hd => exact .bind (places_declareVariables c hd) hrest
    | expressions hes => exact .bind (places_expressions c _ hes) fun _ => hrest c

theorem places_returnValue (c : Context) {e? : Option Expr}
    (h : ∀ e ∈ e?, e.Ranges (Range.On sort)) : Places sort (returnValue c e?) := by
  cases e? with
  | none => exact .pure _
  | some e =>
    apply Places.bind (places_expression c none e (h e rfl))
    intro t
    split
    · exact .ite (fun _ => .pure _) fun _ => places_assign c (h e rfl) _ _
    · exact .pure _

mutual

theorem places_statement (c : Context) :
    (s : Stmt) → s.Ranges (Range.On sort) → Places sort (statement c s)
  | .block ⟨_, _, ss, _⟩, .block (.mk _ _ hss _) =>
    .bind (places_declareLabels _ hss) fun c => .bind (places_statements c ss hss) fun _ => .pure _
  | .empty _, _ => .pure _
  | .localDeclaration .., .localDeclaration _ _ hd _ => places_declareVariables c hd
  | .expression _ e _, .expression _ he _ =>
    .bind (places_expression c none e he) fun _ => .pure _
  | .ifElse _ _ s s?, .ifElse _ he hs hs? => by
    unfold statement
    apply Places.bind (places_condition c he)
    intro _
    apply Places.bind (places_embed c hs)
    intro d
    apply Places.bind (places_statement d s hs)
    intro _
    cases s? with
    | none => exact .pure _
    | some t =>
      apply Places.bind (places_embed c (hs? t rfl))
      intro d
      apply Places.bind (places_statement d t (hs? t rfl))
      intro _
      exact .pure _
  | .whileLoop _ _ s, .whileLoop _ he hs => by
    apply Places.bind (places_condition c he)
    intro _
    apply Places.bind (places_embed _ hs)
    intro d
    apply Places.bind (places_statement d s hs)
    intro _
    exact .pure _
  | .doLoop _ s _, .doLoop _ hs he => by
    apply Places.bind (places_embed _ hs)
    intro d
    apply Places.bind (places_statement d s hs)
    intro _
    apply Places.bind (places_condition c he)
    intro _
    exact .pure _
  | .forLoop _ _ s, .forLoop _ hh hs => by
    apply Places.bind (places_forHeader _ hh)
    intro _
    apply Places.bind (places_embed _ hs)
    intro d
    apply Places.bind (places_statement d s hs)
    intro _
    exact .pure _
  | .returnValue _ _, .returnValue _ he => .bind (places_returnValue c he) fun _ => .pure _
  | .breakLoop _, .breakLoop hr | .continueLoop _, .continueLoop hr =>
    .ite (fun _ => .pure _) fun _ => .bind (places_report _ hr.toSpan _) fun _ => .pure _
  | .goto _ _, .goto _ hl => .bind (places_goto c hl) fun _ => .pure _
  | .labeled _ _ s, .labeled _ _ hs => places_statement c s hs

theorem places_statements (c : Context) :
    (ss : List Stmt) → (∀ s ∈ ss, s.Ranges (Range.On sort)) → Places sort (statements c ss)
  | [], _ => .pure _
  | s :: ss, h => by
    obtain ⟨hs, hss⟩ := List.forall_mem_cons.mp h
    apply Places.bind (places_statement c s hs)
    intro d
    exact places_statements d ss hss

end

/-! ### Members -/

theorem places_field (c : Context) {f : Field} (h : f.Ranges (Range.On sort)) :
    Places sort (field c f) := by
  apply Places.bind (places_resolve c _)
  intro t
  refine Keeps.forM fun d hd => ?_
  have hv := h.declaration.declarators d hd
  split
  next e he => exact places_initialValue c t (hv.initializer e he)
  · exact Places.pure ()

theorem places_body (c : Context) (returns? : Option Ty) {ps : List Parameter}
    (hps : ∀ p ∈ ps, p.Ranges (Range.On sort)) {b? : Option Block}
    (hb : ∀ b ∈ b?, b.Ranges (Range.On sort)) : Places sort (body c returns? ps b?) := by
  refine .bind (.foldlM _ fun c p hp => ?_) fun c => ?_
  · apply Places.bind (places_resolve c _)
    intro _
    exact places_declare c (hps p hp).identifier _
  · cases b? with
    | none => exact .pure _
    | some b => exact .bind (places_statement c _ (.block (hb b rfl))) fun _ => .pure _

/-- A binding that could be cancelled but is not, and reports at offsets of one sort. -/
def PlacesAll {α : Type} (sort : Nat → Prop) (m : Cancellable α) : Prop :=
  Keeps (fun s => ∀ d ∈ s.diagnostics, d.span.On sort) (m.run none) fun r => ∃ a, r = (.ok a, none)

namespace PlacesAll

variable {α β : Type} {m : Cancellable α}

theorem pure (a : α) : PlacesAll sort (Pure.pure a : Cancellable α) := Keeps.pure ⟨a, rfl⟩

theorem bind {f : α → Cancellable β} (hm : PlacesAll sort m) (hf : ∀ a, PlacesAll sort (f a)) :
    PlacesAll sort (m >>= f) := by
  show Keeps _ (m.run none >>= fun r => ExceptT.bindCont f r.1 r.2) _
  apply Keeps.bind hm
  intro r hr
  obtain ⟨a, rfl⟩ := hr
  exact hf a

theorem lift {n : BindM α} (hn : Places sort n) : PlacesAll sort (liftM n) :=
  fun s hs => ⟨⟨_, rfl⟩, (hn s hs).2⟩

end PlacesAll

theorem places_poll : PlacesAll sort poll := fun _ hs => ⟨⟨_, rfl⟩, hs⟩

mutual

theorem places_typeDeclaration (c : Context) (container : String) :
    (d : TypeDeclaration) → d.Ranges (Range.On sort) →
      PlacesAll sort (typeDeclaration c container d)
  | ⟨_, _, _, i, ms⟩, .mk _ _ _ _ hms => by
    unfold typeDeclaration
    split
    · exact .pure _
    · exact places_classMembers _ _ ms hms

theorem places_classMember (c : Context) (owner : String) :
    (m : ClassMember) → m.Ranges (Range.On sort) → PlacesAll sort (classMember c owner m)
  | .field _, .field h => .lift (places_field c h)
  | .method m, .method h => by
    have hrest (returns? : Option Ty) :
        PlacesAll sort (do body c returns? m.parameters m.body?) :=
      .lift (places_body c _ h.parameters h.body)
    unfold classMember
    split
    · exact .bind (.lift (.map (places_resolve c _))) hrest
    · exact hrest none
  | .conversion o, .conversion h => by
    apply PlacesAll.bind (.lift (places_resolve c _))
    intro t
    exact .lift (places_body c _ h.parameters h.body)
  | .nestedType d, .nestedType h => places_typeDeclaration c owner d h
  | .incomplete _, _ => .pure _

theorem places_classMembers (c : Context) (owner : String) :
    (ms : List ClassMember) → (∀ m ∈ ms, m.Ranges (Range.On sort)) →
      PlacesAll sort (classMembers c owner ms)
  | [], _ => .pure _
  | m :: ms, h => by
    obtain ⟨hm, hms⟩ := List.forall_mem_cons.mp h
    apply PlacesAll.bind places_poll
    intro _
    apply PlacesAll.bind (places_classMember c owner m hm)
    intro _
    exact places_classMembers c owner ms hms

end

/-! ### Units -/

mutual

theorem places_member (c : Context) (container : String) (globals : ScopeChain) :
    (m : Member) → m.Ranges (Range.On sort) → PlacesAll sort (member c container globals m)
  | .namespaceMember n, .namespaceMember h => places_namespaceDeclaration c container globals n h
  | .typeMember d, .typeMember h => .bind (places_typeDeclaration c container d h) fun _ => .pure _
  | .globalStatement s, .globalStatement h =>
    .bind (.lift (places_statement _ s h)) fun _ => .pure _
  | .incomplete _, _ => .pure _

theorem places_members (c : Context) (container : String) (globals : ScopeChain) :
    (ms : List Member) → (∀ m ∈ ms, m.Ranges (Range.On sort)) →
      PlacesAll sort (members c container globals ms)
  | [], _ => .pure _
  | m :: ms, h => by
    obtain ⟨hm, hms⟩ := List.forall_mem_cons.mp h
    apply PlacesAll.bind places_poll
    intro _
    apply PlacesAll.bind (places_member c container globals m hm)
    intro globals
    exact places_members c container globals ms hms

theorem places_namespaceDeclaration (c : Context) (container : String) (globals : ScopeChain) :
    (n : NamespaceDeclaration) → n.Ranges (Range.On sort) →
      PlacesAll sort (namespaceDeclaration c container globals n)
  | ⟨_, _, _, ms⟩, .mk _ _ _ hms => places_members c _ globals ms hms

end

theorem places_unit (c : Context) {u : CompilationUnit} (h : u.Ranges (Range.On sort)) :
    PlacesAll sort (unit c u) := by
  apply PlacesAll.bind (.lift (places_declareLabels c h.globalStatements))
  intro globals
  apply PlacesAll.bind (places_members c _ _ u.members h.members)
  intro _
  exact .pure _

/-- A unit that is not cancelled is bound to its end, and what is reported stays at offsets of the
sort of those of its tree. -/
theorem bindUnit_places {u : CompilationUnit} (h : u.Ranges (Range.On sort))
    {diagnostics : Array Diagnostic} (hd : ∀ d ∈ diagnostics, d.span.On sort) :
    (bindUnit u diagnostics none).1 = .ok () ∧
      ∀ d ∈ (bindUnit u diagnostics none).2.2.state.diagnostics, d.span.On sort := by
  let ds := Declarations.ofMembers u.members
  obtain ⟨⟨a, ha⟩, hs⟩ :=
    places_unit (.of ds) h { listing := ds.listing, diagnostics } hd
  exact ⟨congrArg Prod.fst ha, hs⟩

end CSharpFront.Binding
