import CSharpFront.Proofs.Binding.LabelUses
import CSharpFront.Proofs.Binding.Owners
import CSharpFront.Proofs.Types.Worded
/-!
What binding tells. Of the labels of a text it reports just what their uses give rise to, in their
order, and notes the jumps that find their labels; and all that it reports is put in the words of the
text, if names of the text are fit for them.
-/

namespace CSharpFront

/-- Whether a message is about a label that is declared or looked for. -/
def Message.isOfLabel (m : Message) : Bool := m == .noSuchLabel || m == .duplicateLabel

/-- The arguments of a diagnostic are good texts. -/
def Diagnostic.Worded (ok : String → Prop) (d : Diagnostic) : Prop := ∀ a ∈ d.arguments, ok a

/-- The text of an identifier is good, unless it is missing. -/
def Identifier.Worded (ok : String → Prop) (i : Identifier) : Prop :=
  i.isMissing = false → ok i.text

/-! ### Types of the text -/

mutual

/-- Syntax means a type with good names if the names of the text mean such types. -/
theorem TypeSyntax.worded_meaning {ok : String → Prop} {names : NamedTypes} (h : names.Worded ok) :
    (type : TypeSyntax) → (type.meaning names).Worded ok
  | .predefined _ _ | .missing _ => trivial
  | .name i => .getD (h i.text)
  | .qualified r left right => by
    have hright := TypeSyntax.worded_meaning h right
    unfold TypeSyntax.meaning
    split
    · exact hright
    · exact hright
    next t _ ht => exact h _ t ht
  | .generic _ i arguments => by
    unfold TypeSyntax.meaning
    split
    next ts hts => exact Ty.worded_ofGenericName i.text (TypeSyntax.worded_meanings h arguments ts hts)
    · trivial
  | .nullable _ element => (TypeSyntax.worded_meaning h element).toNullable
  | .array _ element rank => (TypeSyntax.worded_meaning h element).toArray rank

theorem TypeSyntax.worded_meanings {ok : String → Prop} {names : NamedTypes}
    (h : names.Worded ok) : (types : List TypeSyntax) →
      ∀ ts, TypeSyntax.meanings names types = some ts → ∀ t ∈ ts, t.Worded ok
  | [], ts, hts => by
    obtain rfl := Option.some.inj hts
    exact List.forall_mem_nil _
  | type :: types, ts, hts => by
    unfold TypeSyntax.meanings at hts
    dsimp only at hts
    split at hts
    · cases hts
    · obtain ⟨rest, hrest, rfl⟩ := Option.map_eq_some_iff.mp hts
      exact List.forall_mem_cons.mpr ⟨TypeSyntax.worded_meaning h type,
        TypeSyntax.worded_meanings h types rest hrest⟩

end

/-- The variables in scope are of types with good names. -/
def ScopeChain.Worded (ok : String → Prop) (c : ScopeChain) : Prop :=
  ∀ name, ∀ l ∈ c.findLocal? name, l.type.Worded ok

theorem ScopeChain.Worded.shadow {ok : String → Prop} {c : ScopeChain} (h : c.Worded ok)
    (name : String) {l : Local} (hl : l.type.Worded ok) : (c.shadow name l).Worded ok := by
  intro m l' hl'
  rw [findLocal?_shadow] at hl'
  split at hl'
  · obtain rfl := Option.some.inj hl'
    exact hl
  · exact h m l' hl'

namespace Binding

/-- What a binding has told when it comes from one state to another. -/
structure Told (ok : String → Prop) (uses : List LabelUse) (s s' : State) : Prop where
  reports : ∃ ds, s'.diagnostics.toList = s.diagnostics.toList ++ ds ∧
    ds.filter (·.message.isOfLabel) = uses.flatMap LabelUse.reports ∧ ∀ d ∈ ds, d.Worded ok
  referenced : s'.referenced = (uses.filterMap LabelUse.noted?).reverse ++ s.referenced

namespace Told

variable {ok : String → Prop} {uses uses' : List LabelUse} {s s' s'' : State}

theorem refl (ok : String → Prop) (s : State) : Told ok [] s s :=
  ⟨⟨[], (List.append_nil _).symm, rfl, List.forall_mem_nil _⟩, rfl⟩

theorem trans (h : Told ok uses s s') (h' : Told ok uses' s' s'') :
    Told ok (uses ++ uses') s s'' := by
  obtain ⟨⟨ds, hds, hlabels, hworded⟩, hnoted⟩ := h
  obtain ⟨⟨ds', hds', hlabels', hworded'⟩, hnoted'⟩ := h'
  refine ⟨⟨ds ++ ds', ?_, ?_, List.forall_mem_append.mpr ⟨hworded, hworded'⟩⟩, ?_⟩
  · rw [hds', hds, List.append_assoc]
  · rw [List.filter_append, hlabels, hlabels', List.flatMap_append]
  · rw [hnoted', hnoted, List.filterMap_append, List.reverse_append, List.append_assoc]

/-- One report, with what it says of labels. -/
theorem push {d : Diagnostic} (hd : d.Worded ok) {use : List LabelUse}
    (hreports : use.flatMap LabelUse.reports = if d.message.isOfLabel then [d] else [])
    (hnoted : use.filterMap LabelUse.noted? = []) :
    Told ok use s { s with diagnostics := s.diagnostics.push d } := by
  refine ⟨⟨[d], Array.toList_push, ?_, List.forall_mem_singleton.mpr hd⟩, ?_⟩
  · rw [hreports]
    cases hd : d.message.isOfLabel <;> simp [hd]
  · rw [hnoted]
    rfl

end Told

/-- A binding that tells what some uses of labels give rise to, and gives a result with a
property. -/
def Tells (ok : String → Prop) (uses : List LabelUse) {α : Type} (m : BindM α) (post : α → Prop) :
    Prop :=
  ∀ s, post (m s).1 ∧ Told ok uses s (m s).2

/-- A binding without uses of labels. -/
abbrev Says (ok : String → Prop) {α : Type} (m : BindM α) (post : α → Prop) : Prop :=
  Tells ok [] m post

variable {ok : String → Prop}

namespace Tells

variable {α β : Type} {m : BindM α} {post : α → Prop} {after : β → Prop}
  {uses uses' : List LabelUse}

theorem pure {a : α} (h : post a) : Says ok (Pure.pure a) post := fun s => ⟨h, .refl ok s⟩

theorem bind {f : α → BindM β} (hm : Tells ok uses m post)
    (hf : ∀ a, post a → Tells ok uses' (f a) after) : Tells ok (uses ++ uses') (m >>= f) after := by
  intro s
  obtain ⟨ha, htold⟩ := hm s
  obtain ⟨hb, htold'⟩ := hf _ ha (m s).2
  exact ⟨hb, htold.trans htold'⟩

/-- A first step without uses of labels. -/
theorem next {f : α → BindM β} (hm : Says ok m post)
    (hf : ∀ a, post a → Tells ok uses (f a) after) : Tells ok uses (m >>= f) after :=
  hm.bind hf

/-- A last step without uses of labels. -/
theorem last {f : α → BindM β} (hm : Tells ok uses m post)
    (hf : ∀ a, post a → Says ok (f a) after) : Tells ok uses (m >>= f) after := by
  have hboth := hm.bind hf
  rwa [List.append_nil] at hboth

theorem imp (hm : Tells ok uses m post) {post' : α → Prop} (h : ∀ a, post a → post' a) :
    Tells ok uses m post' :=
  fun s => ⟨h _ (hm s).1, (hm s).2⟩

theorem map {f : α → β} (hm : Tells ok uses m post) (h : ∀ a, post a → after (f a)) :
    Tells ok uses (f <$> m) after :=
  hm.last fun a ha => .pure (h a ha)

theorem ite {p : Prop} [Decidable p] {n : BindM α} (hm : p → Tells ok uses m post)
    (hn : ¬ p → Tells ok uses n post) : Tells ok uses (if p then m else n) post := by
  split
  next h => exact hm h
  next h => exact hn h

end Tells

/-! ### Elementary steps -/

theorem says_report {message : Message} (hm : message.isOfLabel = false) (span : Span)
    {arguments : List String} (h : ∀ a ∈ arguments, ok a) :
    Says ok (report message span arguments) fun _ => True := by
  refine fun s => ⟨trivial, .push (d := .of message span arguments) h ?_ rfl⟩
  rw [Diagnostic.of, hm]
  rfl

theorem says_complain {d? : Option Diagnostic}
    (h : ∀ d ∈ d?, d.message.isOfLabel = false ∧ d.Worded ok) :
    Says ok (complain d?) fun _ => True := by
  cases d? with
  | none => exact .pure trivial
  | some d =>
    obtain ⟨hm, hd⟩ := h d rfl
    refine fun s => ⟨trivial, .push hd ?_ rfl⟩
    rw [hm]
    rfl

/-- What reports nothing and notes nothing. -/
theorem Says.quiet {α : Type} {m : BindM α} (hd : ∀ s, (m s).2.diagnostics = s.diagnostics)
    (hr : ∀ s, (m s).2.referenced = s.referenced) : Says ok m fun _ => True := by
  refine fun s => ⟨trivial, ⟨⟨[], ?_, rfl, List.forall_mem_nil _⟩, hr s⟩⟩
  rw [hd, List.append_nil]

theorem says_list {t : Ty} (h : t.Worded ok) : Says ok (list t) (·.Worded ok) := by
  have hquiet : Says ok (list t) fun _ => True := .quiet (fun _ => rfl) fun _ => rfl
  exact fun s => ⟨h, (hquiet s).2⟩

/-! ### Contexts -/

/-- All types that a context knows have good names. -/
structure Context.Worded (ok : String → Prop) (c : Context) : Prop where
  wording : Wording ok
  names : c.names.Worded ok
  members : c.members.Worded ok
  scopes : c.scopes.Worded ok
  owner : ∀ t ∈ c.owner?, t.Worded ok
  returns : ∀ t ∈ c.returns?, t.Worded ok

variable {c : Context} {s t : Ty}

namespace Context

theorem Worded.withScopes (h : c.Worded ok) {scopes : ScopeChain} (hs : scopes.Worded ok) :
    ({ c with scopes } : Context).Worded ok :=
  ⟨h.wording, h.names, h.members, hs, h.owner, h.returns⟩

theorem Worded.withReturns (h : c.Worded ok) {returns? : Option Ty}
    (hr : ∀ t ∈ returns?, t.Worded ok) : ({ c with returns? } : Context).Worded ok :=
  ⟨h.wording, h.names, h.members, h.scopes, h.owner, hr⟩

theorem Worded.withLoop (h : c.Worded ok) (inLoop : Bool) :
    ({ c with inLoop } : Context).Worded ok :=
  ⟨h.wording, h.names, h.members, h.scopes, h.owner, h.returns⟩

theorem Worded.push (h : c.Worded ok) : c.push.Worded ok :=
  h.withScopes fun name l hl => h.scopes name l (by rwa [ScopeChain.findLocal?_push] at hl)

theorem Worded.shadow (h : c.Worded ok) (i : Identifier) (ht : t.Worded ok) :
    (c.shadow i t).Worded ok := by
  unfold Context.shadow
  split
  · exact h
  · exact h.withScopes (h.scopes.shadow i.text ht)

theorem Worded.denote (h : c.Worded ok) (i : Identifier) : (c.denote i).Worded ok := by
  unfold Context.denote
  split
  · trivial
  split
  next v hv => exact h.scopes _ v hv
  split
  next t ht =>
    obtain ⟨owner, -, hfield⟩ := Option.bind_eq_some_iff.mp ht
    exact (h.members owner _).1 t hfield
  split
  next t ht => exact h.names _ t ht
  · trivial

theorem Worded.ownMethod (h : c.Worded ok) (name : String) :
    ((c.ownMethod? name).getD .error).Worded ok := by
  refine .getD fun t ht => ?_
  obtain ⟨owner, -, hmethod⟩ := Option.bind_eq_some_iff.mp ht
  exact (h.members owner name).2 t hmethod

end Context

/-- A type is what its syntax means. -/
theorem says_resolve (hc : c.Worded ok) (type : TypeSyntax) :
    Says ok (c.resolve type) (·.Worded ok) := by
  have hquiet : Says ok (c.resolve type) fun _ => True := .quiet (fun _ => rfl) fun _ => rfl
  refine fun s => ⟨?_, (hquiet s).2⟩
  have hfst : (c.resolve type s).1 = type.meaning c.names := fst_resolve c.names s.listing type
  rw [hfst]
  exact TypeSyntax.worded_meaning hc.names type

theorem worded_mismatch? (w : Wording ok) (hs : s.Worded ok) (ht : t.Worded ok)
    {declared : List DeclaredConversion} {span : Span} :
    ∀ d ∈ Ty.mismatch? declared span s t, d.message.isOfLabel = false ∧ d.Worded ok := by
  have hboth : ∀ a ∈ [s.display, t.display], ok a :=
    List.forall_mem_cons.mpr ⟨Ty.ok_display w hs,
      List.forall_mem_singleton.mpr (Ty.ok_display w ht)⟩
  intro d hd
  unfold Ty.mismatch? at hd
  split at hd
  · cases hd
  split at hd
  · cases hd
  · cases hd
  · cases hd
  · obtain rfl := Option.some.inj hd
    exact ⟨rfl, hboth⟩
  · obtain rfl := Option.some.inj hd
    exact ⟨rfl, hboth⟩

theorem says_assign (hc : c.Worded ok) (e : Expr) (hs : s.Worded ok) (ht : t.Worded ok) :
    Says ok (c.assign e s t) fun _ => True :=
  .ite (fun _ => .pure trivial) fun _ => says_complain (worded_mismatch? hc.wording hs ht)

theorem says_require (hc : c.Worded ok) (e : Expr) (ht : t.Worded ok) :
    Says ok (c.require e t) fun _ => True := by
  refine says_complain fun d hd => ?_
  simp only [Ty.checkCondition] at hd
  split at hd
  · cases hd
  · exact worded_mismatch? (t := .bool) hc.wording ht trivial d hd

theorem says_requireCast (hc : c.Worded ok) (span : Span) (hs : s.Worded ok) (ht : t.Worded ok) :
    Says ok (c.requireCast span s t) fun _ => True := by
  have hboth : ∀ a ∈ [s.display, t.display], ok a :=
    List.forall_mem_cons.mpr ⟨Ty.ok_display hc.wording hs,
      List.forall_mem_singleton.mpr (Ty.ok_display hc.wording ht)⟩
  exact .ite (fun _ => says_report rfl span hboth) fun _ => .pure trivial

theorem says_rangeType (hc : c.Worded ok) (type? : Option TypeSyntax) (ht : t.Worded ok) :
    Says ok (rangeType c type? t) (·.Worded ok) := by
  cases type? with
  | some type => exact says_resolve hc type
  | none => exact .pure (.getD ht.element?)

theorem worded_reach (operator : Leaf) (ht : t.Worded ok) : (reach operator t).Worded ok := by
  unfold reach
  split
  · exact ht.toNullable
  · exact ht

theorem worded_assignedField? (hc : c.Worded ok) (owner : Ty) (e : Expr) :
    ∀ t ∈ assignedField? c owner e, t.Worded ok := by
  unfold assignedField?
  split
  next i => exact (hc.members owner i.text).1
  · intro t ht
    cases ht

theorem Literal.worded_type (l : Literal) : l.type.Worded ok := by
  unfold Literal.type
  split <;> trivial

/-! ### Expressions -/

mutual

/-- An expression of which a type may be expected. -/
theorem says_expression {c : Context} (hc : c.Worded ok) (expected? : Option Ty)
    (hx : (expected?.getD .error).Worded ok) : (e : Expr) →
      Says ok (expression c expected? e) (·.Worded ok)
  | .identifier i => .pure (hc.denote i)
  | .literal l => .pure (Literal.worded_type l)
  | .thisWord _ => .pure (.getD hc.owner)
  | .predefinedType _ _ | .missing _ => .pure trivial
  | .parenthesized _ e | .postfixUnary _ e _ =>
    .next (says_expression hc none trivial e) fun _ hd => .pure hd.valueType
  | .binary _ left _ right => by
    refine .next (says_expression hc none trivial left) fun _ hd => ?_
    refine .next (says_expression hc none trivial right) fun _ _ => ?_
    exact .next (says_list (hd.valueType.ofBinary _ _)) fun _ ht => .pure ht
  | .assignment _ left _ right => by
    refine .next (says_expression hc none trivial left) fun _ hd => ?_
    refine .next (says_expression hc none trivial right) fun _ hd' => ?_
    refine .ite (fun _ => ?_) fun _ => .pure hd.valueType
    exact .next (says_assign hc _ hd'.valueType hd.valueType) fun _ _ => .pure hd.valueType
  | .conditional _ e t f => by
    refine .next (says_expression hc none trivial e) fun _ hd => ?_
    refine .next (says_require hc _ hd.valueType) fun _ _ => ?_
    refine .next (says_expression hc none trivial t) fun _ ht => ?_
    refine .next (says_expression hc none trivial f) fun _ hf => ?_
    exact .pure (ht.valueType.choice hf.valueType _)
  | .prefixUnary _ _ e =>
    .next (says_expression hc none trivial e) fun _ hd =>
      .next (says_list (hd.valueType.ofUnary _)) fun _ ht => .pure ht
  | .await _ e => .next (says_expression hc none trivial e) fun _ _ => .pure trivial
  | .cast _ type e => by
    refine .next (says_resolve hc type) fun target ht => ?_
    refine .next (says_expression hc none trivial e) fun d hd => ?_
    exact .next (says_requireCast hc _ hd.valueType ht) fun _ _ => .pure ht
  | .typeTest _ e o type => by
    refine .next (says_expression hc none trivial e) fun _ _ => ?_
    refine .next (says_resolve hc type) fun t ht => .pure ?_
    show (if o.kind = .keyword .kwIs then Ty.bool else t).Worded ok
    split
    · trivial
    · exact ht
  | .memberAccess _ e _ _ => by
    refine .next (says_expression hc none trivial e) fun d hd => ?_
    split
    · exact .pure trivial
    · refine .next (says_list ?_) fun _ ht => .pure ht
      exact worded_reach _ (hd.member hc.members _ _)
  | .invocation _ callee arguments => by
    have hrest {t : Ty} (ht : t.Worded ok) : Says ok (do
        let _ ← expressions c arguments
        return Denotation.value t) (·.Worded ok) :=
      .next (says_expressions hc arguments) fun _ _ => .pure ht
    cases callee with
    | memberAccess _ e _ _ =>
      refine .next (says_expression hc none trivial e) fun d hd => ?_
      refine .next (says_list ?_) fun t ht => hrest ht
      exact worded_reach _ (hd.member hc.members _ _)
    | identifier i => exact hrest (hc.ownMethod _)
    | _ => exact .next (says_expression hc none trivial _) fun _ _ => hrest trivial
  | .elementAccess _ e arguments => by
    refine .next (says_expression hc none trivial e) fun d hd => ?_
    exact .next (says_expressions hc arguments) fun _ _ => .pure hd.valueType.indexed
  | .objectCreation _ type none none =>
    .next (says_resolve hc type) fun _ ht => .pure ht
  | .objectCreation _ type none (some ⟨_, es⟩) => by
    refine .next (says_resolve hc type) fun t ht => ?_
    exact .next (says_properties hc t es) fun _ _ => .pure ht
  | .objectCreation _ type (some arguments) none => by
    refine .next (says_resolve hc type) fun t ht => ?_
    exact .next (says_expressions hc arguments) fun _ _ => .pure ht
  | .objectCreation _ type (some arguments) (some ⟨_, es⟩) => by
    refine .next (says_resolve hc type) fun t ht => ?_
    refine .next (says_expressions hc arguments) fun _ _ => ?_
    exact .next (says_properties hc t es) fun _ _ => .pure ht
  | .arrayCreation _ type sizes none => by
    refine .next (says_resolve hc type) fun t ht => ?_
    exact .next (says_expressions hc sizes) fun _ _ => .pure ht
  | .arrayCreation _ type sizes (some ⟨_, es⟩) => by
    unfold expression
    refine .next (says_resolve hc type) fun t ht => ?_
    refine .next (says_expressions hc sizes) fun _ _ => ?_
    dsimp only
    split
    next element rank =>
      exact .next (says_elements hc (show element.Worded ok from ht) rank es) fun _ _ => .pure ht
    · exact .pure ht
  | .implicitArrayCreation _ ⟨_, es⟩ => by
    refine .next (says_expressions hc es) fun ts hts => ?_
    split
    next t ht =>
      exact .next (says_list ((Ty.worded_best? hts t ht).toArray 1)) fun _ ht => .pure ht
    · exact .pure trivial
  | .initializer ⟨_, es⟩ => by
    unfold expression
    split
    next element rank =>
      have he : element.Worded ok := hx
      exact .next (says_elements hc he rank es) fun _ _ => .pure trivial
    · exact .next (says_expressions hc es) fun _ _ => .pure trivial
  | .query _ ⟨_, type?, i, e⟩ body => by
    refine .next (says_expression hc none trivial e) fun _ hd => ?_
    refine .next (says_rangeType hc type? hd.valueType) fun t ht => ?_
    exact .next (says_queryBody (hc.push.shadow i ht) body) fun _ ht => .pure ht

theorem says_expressions {c : Context} (hc : c.Worded ok) : (es : List Expr) →
    Says ok (expressions c es) fun ts => ∀ t ∈ ts, t.Worded ok
  | [] => .pure (List.forall_mem_nil _)
  | e :: es =>
    .next (says_expression hc none trivial e) fun _ hd =>
      .next (says_expressions hc es) fun _ hts =>
        .pure (List.forall_mem_cons.mpr ⟨hd.valueType, hts⟩)

theorem says_elements {c : Context} (hc : c.Worded ok) {element : Ty} (he : element.Worded ok)
    (rank : Nat) : (es : List Expr) → Says ok (elements c element rank es) fun _ => True
  | [] => .pure trivial
  | e :: es => by
    have htarget : (elementTarget e element rank).Worded ok := by
      unfold elementTarget
      split
      · exact he
      · exact he
    refine .next (says_expression hc (some _) htarget e) fun _ hd => ?_
    have hrest := says_elements hc he rank es
    exact .ite (fun _ => hrest) fun _ =>
      .next (says_assign hc _ hd.valueType htarget) fun _ _ => hrest

theorem says_properties {c : Context} (hc : c.Worded ok) (owner : Ty) : (es : List Expr) →
    Says ok (properties c owner es) fun _ => True
  | [] => .pure trivial
  | e :: es => by
    have hrest := says_properties hc owner es
    cases e with
    | assignment _ left _ right =>
      refine .next (says_expression hc none trivial right) fun _ hd => ?_
      split
      next target htarget =>
        exact .next (says_assign hc _ hd.valueType (worded_assignedField? hc owner left target htarget))
          fun _ _ => hrest
      · exact hrest
    | _ => exact .next (says_expression hc none trivial _) fun _ _ => hrest

theorem says_clauses {c : Context} (hc : c.Worded ok) : (qs : List QueryClause) →
    Says ok (clauses c qs) (·.Worded ok)
  | [] => .pure hc
  | .fromClause ⟨_, type?, i, e⟩ :: qs => by
    refine .next (says_expression hc none trivial e) fun _ hd => ?_
    refine .next (says_rangeType hc type? hd.valueType) fun t ht => ?_
    exact says_clauses (hc.shadow i ht) qs
  | .letClause _ i e :: qs =>
    .next (says_expression hc none trivial e) fun _ hd => says_clauses (hc.shadow i hd.valueType) qs
  | .whereClause _ e :: qs =>
    .next (says_expression hc none trivial e) fun _ hd =>
      .next (says_require hc _ hd.valueType) fun _ _ => says_clauses hc qs
  | .orderByClause _ ks :: qs =>
    .next (says_sortKeys hc ks) fun _ _ => says_clauses hc qs

theorem says_sortKeys {c : Context} (hc : c.Worded ok) : (ks : List SortKey) →
    Says ok (sortKeys c ks) fun _ => True
  | [] => .pure trivial
  | ⟨_, e, _⟩ :: ks => .next (says_expression hc none trivial e) fun _ _ => says_sortKeys hc ks

theorem says_ending {c : Context} (hc : c.Worded ok) : (q : QueryEnding) →
    Says ok (ending c q) (·.Worded ok)
  | .select _ e => .next (says_expression hc none trivial e) fun _ hd => .pure hd.valueType
  | .group _ e key => by
    refine .next (says_expression hc none trivial e) fun _ hd => ?_
    refine .next (says_expression hc none trivial key) fun _ hk => ?_
    exact .ite (fun _ => .pure trivial) fun _ => says_list ⟨hk.valueType, hd.valueType⟩
  | .missing _ => .pure trivial

theorem says_queryBody {c : Context} (hc : c.Worded ok) : (b : QueryBody) →
    Says ok (queryBody c b) (·.Worded ok)
  | ⟨_, qs, e, continuation?⟩ => by
    unfold queryBody
    refine .next (says_clauses hc qs) fun c hc => .next (says_ending hc e) fun t ht => ?_
    refine .ite (fun _ => .pure trivial) fun _ => ?_
    cases continuation? with
    | none => exact says_list ht
    | some continuation =>
      obtain ⟨_, i, body⟩ := continuation
      exact says_queryBody (hc.push.shadow i ht) body

end

end Binding

end CSharpFront
