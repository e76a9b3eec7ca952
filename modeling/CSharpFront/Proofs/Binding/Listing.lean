import CSharpFront.Proofs.Binding.Contexts
import CSharpFront.Proofs.Types.Entries
/-!
How binding lists types. Each type that is listed is built of listed ones, since every expression
names a listed type and contexts declare listed types only. So the listing is built well at any time
of a run. Where no type syntax builds on `void`, neither does what it means: `p` stands for this all
along, and every piece of syntax is asked for it where its types are resolved.
-/

namespace CSharpFront.Binding

open TypeSyntax (AllAvoid)

variable {p : Prop} {l : Listing} {c : Context}

/-- A binding that lists only what it may infer from listed types. -/
abbrev Lists (p : Prop) {α : Type} (l : Listing) (m : BindM α) (post : Listing → α → Prop) : Prop :=
  Builds p State.listing l m post

/-! ### Elementary steps -/

theorem lists_list {t : Ty} (h : l.Sound) (ht : l.Infers p t) :
    Lists p l (list t) fun l' u => u ∈ l'.types := by
  intro s hs
  have ht' := hs.infers ht
  exact ⟨ht'.gains, ht'.mem_add (hs.sound h)⟩

theorem lists_resolve (hc : c.Listed l) {type : TypeSyntax} (hv : type.Avoids p) :
    Lists p l (c.resolve type) fun l' t => t ∈ l'.types :=
  fun s hs =>
    have hresolve := builds_resolve hc.sound hc.names hc.fit type hv s.listing hs
    ⟨hresolve.1, hresolve.2.1⟩

theorem lists_report (message : Message) (span : Span) (arguments : List String) :
    Lists p l (report message span arguments) fun _ _ => True :=
  .of_listing_eq fun _ => rfl

theorem lists_complain (d? : Option Diagnostic) : Lists p l (complain d?) fun _ _ => True := by
  refine .of_listing_eq fun s => ?_
  cases d? <;> rfl

theorem lists_assign (c : Context) (e : Expr) (s t : Ty) :
    Lists p l (c.assign e s t) fun _ _ => True :=
  .ite (fun _ => .pure fun _ _ => trivial) fun _ => lists_complain _

theorem lists_require (c : Context) (e : Expr) (t : Ty) :
    Lists p l (c.require e t) fun _ _ => True :=
  lists_complain _

theorem lists_requireCast (c : Context) (span : Span) (s t : Ty) :
    Lists p l (c.requireCast span s t) fun _ _ => True :=
  .ite (fun _ => lists_report _ _ _) fun _ => .pure fun _ _ => trivial

theorem lists_declare (hc : c.Listed l) (i : Identifier) {t : Ty} (ht : t ∈ l.types) :
    Lists p l (c.declare i t) fun l' c' => c'.Listed l' := by
  refine .ite (fun _ => .pure fun _ => hc.mono) fun _ => ?_
  split
  next scopes hs =>
    obtain ⟨-, rfl⟩ := ScopeChain.declareLocal?_eq_some_iff.mp hs
    exact .pure fun _ => (hc.withScopes (hc.scopes.shadow i.text ht)).mono
  next =>
    apply Builds.bind (lists_report _ _ _)
    intro _ l' hgains _
    exact .pure fun _ => (hc.mono hgains).mono

theorem lists_rangeType (hc : c.Listed l) {type? : Option TypeSyntax}
    (hv : AllAvoid p type?.toList) {source : Ty} (hs : source ∈ l.types) :
    Lists p l (rangeType c type? source) fun l' t => t ∈ l'.types := by
  cases type? with
  | some type => exact lists_resolve hc (hv type (List.mem_singleton_self type))
  | none => exact .pure fun _ hgains => hgains.mem (hc.sound.getD_element_mem hs)

/-! ### Expressions -/

/-- A binding that gives a listed type. -/
abbrev Yields (p : Prop) (l : Listing) (m : BindM Ty) : Prop := Lists p l m fun l' t => t ∈ l'.types

/-- A binding that names a listed type. -/
abbrev Names (p : Prop) (l : Listing) (m : BindM Denotation) : Prop :=
  Lists p l m fun l' d => d.Listed l'

/-- A binding of whose result nothing is said. -/
abbrev Runs (p : Prop) {α : Type} (l : Listing) (m : BindM α) : Prop := Lists p l m fun _ _ => True

theorem names_value {t : Ty} (ht : t ∈ l.types) : Names p l (pure (.value t)) :=
  .pure fun _ hgains => hgains.mem ht

/-- What is done with the value of an expression is done where its type is listed. -/
theorem lists_valueType {m : BindM Denotation} {β : Type} {f : Denotation → BindM β}
    {post : Listing → β → Prop} (hc : c.Listed l) (hm : Names p l m)
    (hf : ∀ d l', l.Gains p l' → c.Listed l' → d.valueType ∈ l'.types → Lists p l' (f d) post) :
    Lists p l (m >>= f) post := by
  apply Builds.bind hm
  intro d l' hgains hd
  have hc' := hc.mono hgains
  exact hf d l' hgains hc' (hd.valueType hc'.sound)

theorem lists_run {α β : Type} {m : BindM α} {f : α → BindM β} {post : Listing → β → Prop}
    (hc : c.Listed l) (hm : Runs p l m)
    (hf : ∀ a l', l.Gains p l' → c.Listed l' → Lists p l' (f a) post) : Lists p l (m >>= f) post := by
  apply Builds.bind hm
  intro a l' hgains _
  exact hf a l' hgains (hc.mono hgains)

mutual

theorem names_expression {l : Listing} {c : Context} (hc : c.Listed l) (expected? : Option Ty) :
    (e : Expr) → AllAvoid p e.typeNodes → Names p l (expression c expected? e)
  | .identifier i, _ => .pure fun l' hgains => (hc.mono hgains).denote i
  | .literal lit, _ => by
    have ht : lit.type ∈ l.types := by
      unfold Literal.type
      split
      all_goals
        first
        | exact hc.sound.special_mem _
        | exact hc.sound.mem_of_first (by simp)
    exact names_value ht
  | .thisWord _, _ => by
    have hthis : c.owner?.getD .error ∈ l.types := by
      cases ho : c.owner? with
      | none => exact hc.sound.error_mem
      | some t => exact hc.owner t ho
    exact names_value hthis
  | .predefinedType _ s, _ => .pure fun l' hgains => hgains.mem (hc.sound.special_mem s)
  | .missing _, _ => .pure fun _ _ => trivial
  | .parenthesized _ e, hv => by
    apply lists_valueType hc (names_expression hc none e hv)
    intro d l' _ _ hd
    exact names_value hd
  | .binary _ left o right, hv => by
    obtain ⟨hleft, hright⟩ := List.forall_mem_append.mp hv
    apply lists_valueType hc (names_expression hc none left hleft)
    intro s l₁ _ hc₁ hs
    apply lists_valueType hc₁ (names_expression hc₁ none right hright)
    intro t l₂ hgains₂ hc₂ ht
    apply Builds.bind (lists_list hc₂.sound (Ty.infers_ofBinary hc₂.sound o.kind (hgains₂.mem hs)))
    intro u l₃ _ hu
    exact names_value hu
  | .assignment _ left o right, hv => by
    obtain ⟨hleft, hright⟩ := List.forall_mem_append.mp hv
    apply lists_valueType hc (names_expression hc none left hleft)
    intro s l₁ _ hc₁ hs
    apply lists_valueType hc₁ (names_expression hc₁ none right hright)
    intro t l₂ hgains₂ hc₂ ht
    have hs₂ := hgains₂.mem hs
    refine .ite (fun _ => ?_) fun _ => names_value hs₂
    apply lists_run hc₂ (lists_assign c right _ _)
    intro _ l₃ hgains₃ _
    exact names_value (hgains₃.mem hs₂)
  | .conditional _ e whenTrue whenFalse, hv => by
    obtain ⟨he, hv⟩ := List.forall_mem_append.mp hv
    obtain ⟨htrue, hfalse⟩ := List.forall_mem_append.mp hv
    apply lists_valueType hc (names_expression hc none e he)
    intro _ l₁ _ hc₁ _
    apply lists_run hc₁ (lists_require c e _)
    intro _ l₂ _ hc₂
    apply lists_valueType hc₂ (names_expression hc₂ none whenTrue htrue)
    intro s l₃ _ hc₃ hs
    apply lists_valueType hc₃ (names_expression hc₃ none whenFalse hfalse)
    intro t l₄ hgains₄ hc₄ ht
    exact names_value (Ty.choice_mem hc₄.sound _ (hgains₄.mem hs) ht)
  | .prefixUnary _ o e, hv => by
    apply lists_valueType hc (names_expression hc none e hv)
    intro t l₁ _ hc₁ ht
    apply Builds.bind (lists_list hc₁.sound (Ty.infers_ofUnary hc₁.sound o.kind ht))
    intro u l₂ _ hu
    exact names_value hu
  | .postfixUnary _ e _, hv => by
    apply lists_valueType hc (names_expression hc none e hv)
    intro t l₁ _ _ ht
    exact names_value ht
  | .cast r type e, hv => by
    obtain ⟨htype, he⟩ := List.forall_mem_cons.mp hv
    apply Builds.bind (lists_resolve hc htype)
    intro t l₁ hgains₁ ht
    have hc₁ := hc.mono hgains₁
    apply lists_valueType hc₁ (names_expression hc₁ none e he)
    intro s l₂ hgains₂ hc₂ _
    apply lists_run hc₂ (lists_requireCast c r.toSpan _ _)
    intro _ l₃ hgains₃ _
    exact names_value (hgains₃.mem (hgains₂.mem ht))
  | .typeTest _ e o type, hv => by
    obtain ⟨he, htype⟩ := List.forall_mem_append.mp hv
    apply lists_valueType hc (names_expression hc none e he)
    intro _ l₁ _ hc₁ _
    apply Builds.bind (lists_resolve hc₁ (htype type (List.mem_singleton_self type)))
    intro t l₂ hgains₂ ht
    refine names_value ?_
    split
    · exact (hc₁.mono hgains₂).sound.special_mem .bool
    · exact ht
  | .memberAccess _ e o name, hv => by
    apply Builds.bind (names_expression hc none e hv)
    intro d l₁ hgains₁ hd
    have hc₁ := hc.mono hgains₁
    split
    · exact .pure fun _ _ => trivial
    · have hmember :=
        Denotation.inferredWithNull_member (p := p) hd hc₁.sound hc₁.members name.text false
      apply Builds.bind (lists_list hc₁.sound (infers_reach o hmember))
      intro t l₂ _ ht
      exact names_value ht
  | .invocation _ callee arguments, hv => by
    obtain ⟨hcallee, harguments⟩ := List.forall_mem_append.mp hv
    have hrest : ∀ (t : Ty) (l' : Listing), c.Listed l' → t ∈ l'.types → Names p l' (do
        let _ ← expressions c arguments
        return Denotation.value t) := by
      intro t l' hc' ht
      apply Builds.bind (yields_expressions hc' arguments harguments)
      intro _ l'' hgains _
      exact names_value (hgains.mem ht)
    cases callee with
    | memberAccess _ e o name =>
      apply Builds.bind (names_expression hc none e hcallee)
      intro d l₁ hgains₁ hd
      have hc₁ := hc.mono hgains₁
      have hmember :=
        Denotation.inferredWithNull_member (p := p) hd hc₁.sound hc₁.members name.text true
      apply Builds.bind (lists_list hc₁.sound (infers_reach o hmember))
      intro t l₂ hgains₂ ht
      exact hrest t l₂ (hc₁.mono hgains₂) ht
    | identifier i => exact hrest _ l hc (hc.ownMethod i.text)
    | _ =>
      apply lists_valueType hc (names_expression hc none _ hcallee)
      intro _ l₁ _ hc₁ _
      exact hrest _ l₁ hc₁ hc₁.sound.error_mem
  | .elementAccess _ e arguments, hv => by
    obtain ⟨he, harguments⟩ := List.forall_mem_append.mp hv
    apply lists_valueType hc (names_expression hc none e he)
    intro t l₁ _ hc₁ ht
    apply Builds.bind (yields_expressions hc₁ arguments harguments)
    intro _ l₂ hgains₂ _
    exact names_value (Ty.indexed_mem (hc₁.mono hgains₂).sound (hgains₂.mem ht))
  | .objectCreation _ type arguments? initializer?, hv => by
    obtain ⟨htype, hv⟩ := List.forall_mem_cons.mp hv
    obtain ⟨harguments, hinitializer⟩ := List.forall_mem_append.mp hv
    unfold expression
    apply Builds.bind (lists_resolve hc htype)
    intro t l₁ hgains₁ ht
    have hrest : ∀ l', c.Listed l' → t ∈ l'.types → Names p l' (do
        match initializer? with
        | none => pure ()
        | some ⟨_, es⟩ => properties c t es
        return Denotation.value t) := by
      intro l' hc' ht'
      cases initializer? with
      | none => exact names_value ht'
      | some i =>
        cases i with
        | mk _ es =>
          apply Builds.bind (runs_properties hc' t es hinitializer)
          intro _ l'' hgains _
          exact names_value (hgains.mem ht')
    have hc₁ := hc.mono hgains₁
    cases arguments? with
    | none => exact hrest l₁ hc₁ ht
    | some arguments =>
      apply Builds.bind (yields_expressions hc₁ arguments harguments)
      intro _ l₂ hgains₂ _
      exact hrest l₂ (hc₁.mono hgains₂) (hgains₂.mem ht)
  | .arrayCreation _ type sizes initializer?, hv => by
    obtain ⟨htype, hv⟩ := List.forall_mem_cons.mp hv
    obtain ⟨hsizes, hinitializer⟩ := List.forall_mem_append.mp hv
    unfold expression
    apply Builds.bind (lists_resolve hc htype)
    intro t l₁ hgains₁ ht
    have hc₁ := hc.mono hgains₁
    apply Builds.bind (yields_expressions hc₁ sizes hsizes)
    intro _ l₂ hgains₂ _
    have ht₂ := hgains₂.mem ht
    cases initializer? with
    | none => exact names_value ht₂
    | some i =>
      cases i with
      | mk _ es =>
        dsimp only
        split
        · apply Builds.bind (runs_elements (hc₁.mono hgains₂) _ _ es hinitializer)
          intro _ l₃ hgains₃ _
          exact names_value (hgains₃.mem ht₂)
        · exact names_value ht₂
  | .implicitArrayCreation _ ⟨_, es⟩, hv => by
    apply Builds.bind (yields_expressions hc es hv)
    intro ts l₁ hgains₁ hts
    have hs := hgains₁.sound hc.sound
    split
    next t ht =>
      apply Builds.bind (lists_list hs (.elements (hts t (Ty.best?_mem ht)) (Ty.best?_ne_null ht)))
      intro u l₂ _ hu
      exact names_value hu
    next => exact names_value hs.error_mem
  | .initializer ⟨_, es⟩, hv => by
    unfold expression
    split
    · apply Builds.bind (runs_elements hc _ _ es hv)
      intro _ l₁ hgains₁ _
      exact names_value (hgains₁.mem hc.sound.error_mem)
    · apply Builds.bind (yields_expressions hc es hv)
      intro _ l₁ hgains₁ _
      exact names_value (hgains₁.mem hc.sound.error_mem)
  | .await _ e, hv => by
    apply lists_valueType hc (names_expression hc none e hv)
    intro t l₁ _ hc₁ _
    exact names_value hc₁.sound.error_mem
  | .query _ ⟨_, type?, i, e⟩ body, hv => by
    obtain ⟨hv, hbody⟩ := List.forall_mem_append.mp hv
    obtain ⟨htype, he⟩ := List.forall_mem_append.mp hv
    unfold expression
    apply lists_valueType hc (names_expression hc none e he)
    intro s l₁ _ hc₁ hs
    apply Builds.bind (lists_rangeType hc₁ htype hs)
    intro t l₂ hgains₂ ht
    have hc₂ := (hc₁.mono hgains₂).push.shadow i ht
    apply Builds.bind (yields_queryBody hc₂ body hbody)
    intro u l₃ _ hu
    exact names_value hu

theorem yields_expressions {l : Listing} {c : Context} (hc : c.Listed l) :
    (es : List Expr) → AllAvoid p (Expr.allTypeNodes es) →
      Lists p l (expressions c es) fun l' ts => ∀ t ∈ ts, t ∈ l'.types
  | [], _ => .pure fun _ _ => by simp
  | e :: es, hv => by
    obtain ⟨he, hes⟩ := List.forall_mem_append.mp hv
    apply lists_valueType hc (names_expression hc none e he)
    intro d l₁ _ hc₁ ht
    apply Builds.bind (yields_expressions hc₁ es hes)
    intro ts l₂ hgains₂ hts
    refine .pure fun l₃ hgains₃ u hu => ?_
    rcases List.mem_cons.mp hu with rfl | hu
    · exact hgains₃.mem (hgains₂.mem ht)
    · exact hgains₃.mem (hts u hu)

theorem runs_elements {l : Listing} {c : Context} (hc : c.Listed l) (element : Ty) (rank : Nat) :
    (es : List Expr) → AllAvoid p (Expr.allTypeNodes es) → Runs p l (elements c element rank es)
  | [], _ => .pure fun _ _ => trivial
  | e :: es, hv => by
    obtain ⟨he, hes⟩ := List.forall_mem_append.mp hv
    apply lists_valueType hc (names_expression hc _ e he)
    intro d l₁ _ hc₁ _
    have hrest := runs_elements hc₁ element rank es hes
    refine .ite (fun _ => hrest) fun _ => ?_
    apply lists_run hc₁ (lists_assign c e _ _)
    intro _ l₂ _ hc₂
    exact runs_elements hc₂ element rank es hes

theorem runs_properties {l : Listing} {c : Context} (hc : c.Listed l) (owner : Ty) :
    (es : List Expr) → AllAvoid p (Expr.allTypeNodes es) → Runs p l (properties c owner es)
  | [], _ => .pure fun _ _ => trivial
  | e :: es, hv => by
    obtain ⟨he, hes⟩ := List.forall_mem_append.mp hv
    cases e with
    | assignment _ left _ right =>
      apply lists_valueType hc (names_expression hc none right (List.forall_mem_append.mp he).2)
      intro t l₁ _ hc₁ _
      split
      · apply lists_run hc₁ (lists_assign c right _ _)
        intro _ l₂ _ hc₂
        exact runs_properties hc₂ owner es hes
      · exact runs_properties hc₁ owner es hes
    | _ =>
      apply lists_valueType hc (names_expression hc none _ he)
      intro _ l₁ _ hc₁ _
      exact runs_properties hc₁ owner es hes

theorem lists_clauses {l : Listing} {c : Context} (hc : c.Listed l) :
    (qs : List QueryClause) → AllAvoid p (QueryClause.allTypeNodes qs) →
      Lists p l (clauses c qs) fun l' c' => c'.Listed l'
  | [], _ => .pure fun _ => hc.mono
  | .fromClause ⟨_, type?, i, e⟩ :: qs, hv => by
    obtain ⟨hv, hqs⟩ := List.forall_mem_append.mp hv
    obtain ⟨htype, he⟩ := List.forall_mem_append.mp hv
    apply lists_valueType hc (names_expression hc none e he)
    intro s l₁ _ hc₁ hs
    apply Builds.bind (lists_rangeType hc₁ htype hs)
    intro t l₂ hgains₂ ht
    exact lists_clauses ((hc₁.mono hgains₂).shadow i ht) qs hqs
  | .letClause _ i e :: qs, hv => by
    obtain ⟨he, hqs⟩ := List.forall_mem_append.mp hv
    apply lists_valueType hc (names_expression hc none e he)
    intro s l₁ _ hc₁ hs
    exact lists_clauses (hc₁.shadow i hs) qs hqs
  | .whereClause _ e :: qs, hv => by
    obtain ⟨he, hqs⟩ := List.forall_mem_append.mp hv
    apply lists_valueType hc (names_expression hc none e he)
    intro s l₁ _ hc₁ hs
    apply lists_run hc₁ (lists_require c e _)
    intro _ l₂ _ hc₂
    exact lists_clauses hc₂ qs hqs
  | .orderByClause _ keys :: qs, hv => by
    obtain ⟨hkeys, hqs⟩ := List.forall_mem_append.mp hv
    apply lists_run hc (runs_sortKeys hc keys hkeys)
    intro _ l₁ _ hc₁
    exact lists_clauses hc₁ qs hqs

theorem runs_sortKeys {l : Listing} {c : Context} (hc : c.Listed l) :
    (keys : List SortKey) → AllAvoid p (SortKey.allTypeNodes keys) → Runs p l (sortKeys c keys)
  | [], _ => .pure fun _ _ => trivial
  | ⟨_, e, _⟩ :: keys, hv => by
    obtain ⟨he, hkeys⟩ := List.forall_mem_append.mp hv
    apply lists_valueType hc (names_expression hc none e he)
    intro _ l₁ _ hc₁ _
    exact runs_sortKeys hc₁ keys hkeys

theorem yields_ending {l : Listing} {c : Context} (hc : c.Listed l) :
    (e : QueryEnding) → AllAvoid p e.typeNodes → Yields p l (ending c e)
  | .select _ e, hv => by
    apply lists_valueType hc (names_expression hc none e hv)
    intro d l₁ _ _ hd
    exact .pure fun _ hgains => hgains.mem hd
  | .group _ e k, hv => by
    obtain ⟨hve, hvk⟩ := List.forall_mem_append.mp hv
    apply lists_valueType hc (names_expression hc none e hve)
    intro element l₁ _ hc₁ he
    apply lists_valueType hc₁ (names_expression hc₁ none k hvk)
    intro key l₂ hgains₂ hc₂ hk
    refine .ite (fun _ => .pure fun _ hgains => hgains.mem hc₂.sound.error_mem) fun hne => ?_
    simp only [Bool.or_eq_true, not_or, Bool.not_eq_true] at hne
    exact lists_list hc₂.sound (.groups hk (hgains₂.mem he) hne.2 hne.1)
  | .missing _, _ => .pure fun _ hgains => hgains.mem hc.sound.error_mem

theorem yields_queryBody {l : Listing} {c : Context} (hc : c.Listed l) :
    (body : QueryBody) → AllAvoid p body.typeNodes → Yields p l (queryBody c body)
  | ⟨_, qs, e, continuation?⟩, hv => by
    obtain ⟨hqs, hv⟩ := List.forall_mem_append.mp hv
    obtain ⟨he, hcontinuation⟩ := List.forall_mem_append.mp hv
    unfold queryBody
    apply Builds.bind (lists_clauses hc qs hqs)
    intro c₁ l₁ _ hc₁
    apply Builds.bind (yields_ending hc₁ e he)
    intro t l₂ hgains₂ ht
    have hc₂ := hc₁.mono hgains₂
    refine .ite (fun _ => .pure fun _ hgains => hgains.mem hc₂.sound.error_mem) fun hne => ?_
    simp only [Bool.or_eq_true, decide_eq_true_eq, not_or, Bool.not_eq_true] at hne
    cases continuation? with
    | none => exact lists_list hc₂.sound (.results ht hne.1 hne.2)
    | some k =>
      cases k with
      | mk _ i body => exact yields_queryBody (hc₂.push.shadow i ht) body hcontinuation

end

theorem runs_initialValue (hc : c.Listed l) (target : Ty) {e : Expr} (hv : AllAvoid p e.typeNodes) :
    Runs p l (initialValue c target e) := by
  apply lists_valueType hc (names_expression hc _ e hv)
  intro _ l₁ _ _ _
  exact .ite (fun _ => .pure fun _ _ => trivial) fun _ => lists_assign c e _ _

theorem runs_condition (hc : c.Listed l) {e : Expr} (hv : AllAvoid p e.typeNodes) :
    Runs p l (condition c e) := by
  apply lists_valueType hc (names_expression hc none e hv)
  intro _ l₁ _ _ _
  exact lists_require c e _

/-! ### Statements -/

/-- A binding that gives a context in which all is listed. -/
abbrev Prepares (p : Prop) (l : Listing) (m : BindM Context) : Prop :=
  Lists p l m fun l' c => c.Listed l'

theorem prepares_pure (hc : c.Listed l) : Prepares p l (pure c) := .pure fun _ => hc.mono

/-- A context is as good after whatever is done in it. -/
theorem prepares_after {α : Type} {m : BindM α} (hc : c.Listed l) (hm : Runs p l m) :
    Prepares p l (do let _ ← m; return c) := by
  apply lists_run hc hm
  intro _ l₁ _ hc₁
  exact prepares_pure hc₁

theorem runs_of_prepares {m : BindM Context} (hm : Prepares p l m) : Runs p l m :=
  hm.imp fun _ _ _ _ => trivial

theorem prepares_foldlM {α : Type} {f : Context → α → BindM Context} {as : List α}
    (hf : ∀ c l', l.Gains p l' → c.Listed l' → ∀ a ∈ as, Prepares p l' (f c a)) (hc : c.Listed l) :
    Prepares p l (as.foldlM f c) :=
  .foldlM (fun hc hgains => hc.mono hgains) (fun c a ha l' hgains hc => hf c l' hgains hc a ha) c hc

theorem prepares_declareLabel (hc : c.Listed l) (label : Identifier) :
    Prepares p l (declareLabel c label) := by
  refine .ite (fun _ => prepares_pure hc) fun _ => ?_
  split
  next scopes hs =>
    have hlocals : scopes.findLocal? = c.scopes.findLocal? := by
      unfold ScopeChain.declareLabel? at hs
      split at hs
      · cases hs
      · obtain rfl := Option.some.inj hs
        rfl
    exact prepares_pure (hc.withScopes fun n v hv => hc.scopes n v (hlocals ▸ hv))
  next => exact prepares_after hc (lists_report _ _ _)

theorem prepares_declareLabels (hc : c.Listed l) (ss : List Stmt) :
    Prepares p l (declareLabels c ss) :=
  prepares_foldlM (fun _ _ _ hc label _ => prepares_declareLabel hc label) hc

theorem prepares_embed (hc : c.Listed l) (s : Stmt) : Prepares p l (embed c s) :=
  .ite (fun _ => prepares_pure hc) fun _ => prepares_declareLabels hc.push _

theorem runs_goto (c : Context) (label : Identifier) : Runs p l (goto c label) := by
  refine .ite (fun _ => .pure fun _ _ => trivial) fun _ => ?_
  split
  · exact .of_listing_eq fun _ => rfl
  · exact lists_report _ _ _

theorem yields_inferredType (hc : c.Listed l) {e? : Option Expr}
    (hv : AllAvoid p (e?.elim [] Expr.typeNodes)) : Yields p l (inferredType c e?) := by
  cases e? with
  | none => exact .pure fun _ hgains => hgains.mem hc.sound.error_mem
  | some e =>
    apply lists_valueType hc (names_expression hc none e hv)
    intro d l₁ _ hc₁ hd
    refine .pure fun l₂ hgains₂ => ?_
    split
    · exact hgains₂.mem hc₁.sound.error_mem
    · exact hgains₂.mem hd

theorem prepares_declarator {declared? : Option Ty} (hc : c.Listed l)
    (ht : ∀ t, declared? = some t → t ∈ l.types) (d : Declarator) (hv : AllAvoid p d.typeNodes) :
    Prepares p l (declarator declared? c d) := by
  unfold declarator
  unfold Declarator.typeNodes at hv
  cases declared? with
  | none =>
    apply Builds.bind (yields_inferredType hc hv)
    intro t l₁ hgains₁ ht
    exact lists_declare (hc.mono hgains₁) d.identifier ht
  | some t =>
    cases he : d.initializer? with
    | none => exact lists_declare hc d.identifier (ht t rfl)
    | some e =>
      rw [he] at hv
      apply lists_run hc (runs_initialValue hc t hv)
      intro _ l₁ hgains₁ hc₁
      exact lists_declare hc₁ d.identifier (hgains₁.mem (ht t rfl))

theorem prepares_declareVariables (hc : c.Listed l) {d : VariableDeclaration}
    (hv : AllAvoid p d.typeNodes) : Prepares p l (declareVariables c d) := by
  obtain ⟨htype, hdeclarators⟩ := List.forall_mem_cons.mp hv
  have hrest : ∀ (declared? : Option Ty) (l' : Listing), c.Listed l' →
      (∀ t, declared? = some t → t ∈ l'.types) →
        Prepares p l' (d.declarators.foldlM (declarator declared?) c) := by
    intro declared? l' hc' ht
    refine prepares_foldlM (fun c l'' hgains hc v hmem => ?_) hc'
    refine prepares_declarator hc (fun t h => hgains.mem (ht t h)) v fun type htype => ?_
    exact hdeclarators type (List.mem_flatMap_of_mem hmem htype)
  refine .ite (fun _ => hrest none l hc fun t ht => by cases ht) fun _ => ?_
  have hdeclared : Lists p l (some <$> c.resolve d.type) fun l' t? =>
      ∀ t, t? = some t → t ∈ l'.types := by
    refine (lists_resolve hc htype).map fun t l' _ ht u hu => ?_
    obtain rfl := Option.some.inj hu
    exact ht
  apply Builds.bind hdeclared
  intro t? l₁ hgains₁ ht
  exact hrest t? l₁ (hc.mono hgains₁) ht

theorem prepares_forHeader (hc : c.Listed l) {h : ForHeader} (hv : AllAvoid p h.typeNodes) :
    Prepares p l (forHeader c h) := by
  obtain ⟨hinitializer, hv⟩ := List.forall_mem_append.mp hv
  obtain ⟨hcondition, hincrementors⟩ := List.forall_mem_append.mp hv
  have hlast : ∀ (c : Context) (l' : Listing), c.Listed l' →
      Prepares p l' (do let _ ← expressions c h.incrementors; return c) := by
    intro c l' hc
    exact prepares_after hc ((yields_expressions hc _ hincrementors).imp fun _ _ _ _ => trivial)
  have hrest : ∀ (c : Context) (l' : Listing), c.Listed l' →
      Prepares p l' (forHeader c { h with initializer? := none }) := by
    intro c l' hc
    apply Builds.bind (prepares_pure hc)
    intro c l₁ _ hc
    dsimp only
    split
    next e he =>
      rw [he] at hcondition
      apply lists_run hc (runs_condition hc hcondition)
      intro _ l₂ _ hc₂
      exact hlast c l₂ hc₂
    next => exact hlast c l₁ hc
  unfold forHeader
  cases hi : h.initializer? with
  | none => exact hrest c l hc
  | some i =>
    rw [hi] at hinitializer
    cases i with
    | declaration d =>
      apply Builds.bind (prepares_declareVariables hc hinitializer)
      intro c l₁ _ hc₁
      exact hrest c l₁ hc₁
    | expressions es =>
      apply Builds.bind (yields_expressions hc es hinitializer)
      intro _ l₁ hgains₁ _
      exact hrest c l₁ (hc.mono hgains₁)

theorem runs_returnValue (hc : c.Listed l) {e? : Option Expr}
    (hv : AllAvoid p (e?.elim [] Expr.typeNodes)) : Runs p l (returnValue c e?) := by
  cases e? with
  | none => exact .pure fun _ _ => trivial
  | some e =>
    apply lists_valueType hc (names_expression hc none e hv)
    intro _ l₁ _ _ _
    split
    · exact .ite (fun _ => .pure fun _ _ => trivial) fun _ => lists_assign c e _ _
    · exact .pure fun _ _ => trivial

mutual

theorem prepares_statement {l : Listing} {c : Context} (hc : c.Listed l) :
    (s : Stmt) → AllAvoid p s.typeNodes → Prepares p l (statement c s)
  | .block ⟨_, _, ss, _⟩, hv => by
    apply Builds.bind (prepares_declareLabels hc.push ss)
    intro d l₁ hgains₁ hd
    exact prepares_after (hc.mono hgains₁) (runs_of_prepares (prepares_statements hd ss hv))
  | .empty _, _ => prepares_pure hc
  | .localDeclaration _ _ d _, hv => prepares_declareVariables hc hv
  | .expression _ e _, hv => by
    apply lists_valueType hc (names_expression hc none e hv)
    intro _ l₁ _ hc₁ _
    exact prepares_pure hc₁
  | .ifElse _ e s s?, hv => by
    obtain ⟨he, hv⟩ := List.forall_mem_append.mp hv
    obtain ⟨hs, hs?⟩ := List.forall_mem_append.mp hv
    unfold statement
    apply lists_run hc (runs_condition hc he)
    intro _ l₁ _ hc₁
    apply Builds.bind (prepares_embed hc₁ s)
    intro d l₂ hgains₂ hd
    apply Builds.bind (prepares_statement hd s hs)
    intro _ l₃ hgains₃ _
    have hc₃ := (hc₁.mono hgains₂).mono hgains₃
    cases s? with
    | none => exact prepares_pure hc₃
    | some t =>
      apply Builds.bind (prepares_embed hc₃ t)
      intro d l₄ hgains₄ hd
      exact prepares_after (hc₃.mono hgains₄) (runs_of_prepares (prepares_statement hd t hs?))
  | .whileLoop _ e s, hv => by
    obtain ⟨he, hs⟩ := List.forall_mem_append.mp hv
    apply lists_run hc (runs_condition hc he)
    intro _ l₁ _ hc₁
    apply Builds.bind (prepares_embed (hc₁.withLoop true) s)
    intro d l₂ hgains₂ hd
    exact prepares_after (hc₁.mono hgains₂) (runs_of_prepares (prepares_statement hd s hs))
  | .doLoop _ s e, hv => by
    obtain ⟨hs, he⟩ := List.forall_mem_append.mp hv
    apply Builds.bind (prepares_embed (hc.withLoop true) s)
    intro d l₁ hgains₁ hd
    apply Builds.bind (prepares_statement hd s hs)
    intro _ l₂ hgains₂ _
    have hc₂ := (hc.mono hgains₁).mono hgains₂
    exact prepares_after hc₂ (runs_condition hc₂ he)
  | .forLoop _ h s, hv => by
    obtain ⟨hheader, hs⟩ := List.forall_mem_append.mp hv
    apply Builds.bind (prepares_forHeader hc.push hheader)
    intro inner l₁ hgains₁ hinner
    apply Builds.bind (prepares_embed (hinner.withLoop true) s)
    intro d l₂ hgains₂ hd
    exact prepares_after ((hc.mono hgains₁).mono hgains₂)
      (runs_of_prepares (prepares_statement hd s hs))
  | .returnValue _ e?, hv => prepares_after hc (runs_returnValue hc hv)
  | .breakLoop _, _ | .continueLoop _, _ =>
    .ite (fun _ => prepares_pure hc) fun _ => prepares_after hc (lists_report _ _ _)
  | .goto _ label, _ => prepares_after hc (runs_goto c label)
  | .labeled _ _ s, hv => prepares_statement hc s hv

theorem prepares_statements {l : Listing} {c : Context} (hc : c.Listed l) :
    (ss : List Stmt) → AllAvoid p (Stmt.allTypeNodes ss) → Prepares p l (statements c ss)
  | [], _ => prepares_pure hc
  | s :: ss, hv => by
    obtain ⟨hs, hss⟩ := List.forall_mem_append.mp hv
    apply Builds.bind (prepares_statement hc s hs)
    intro d l₁ _ hd
    exact prepares_statements hd ss hss

end

/-! ### Members -/

theorem runs_field (hc : c.Listed l) {f : Field} (hv : AllAvoid p f.declaration.typeNodes) :
    Runs p l (field c f) := by
  obtain ⟨htype, hdeclarators⟩ := List.forall_mem_cons.mp hv
  apply Builds.bind (lists_resolve hc htype)
  intro t l₁ hgains₁ _
  refine Builds.forM fun d hd => ?_
  split
  next e he =>
    refine runs_initialValue (hc.mono hgains₁) t fun type htype => ?_
    refine hdeclarators type (List.mem_flatMap_of_mem hd ?_)
    rwa [Declarator.typeNodes, he]
  next => exact .pure fun _ _ => trivial

theorem runs_body (hc : c.Listed l) (returns? : Option Ty) {ps : List Parameter}
    {b? : Option Block} (hps : AllAvoid p (Parameter.allTypeNodes ps))
    (hb : AllAvoid p (b?.elim [] Block.typeNodes)) : Runs p l (body c returns? ps b?) := by
  have hparameters : Prepares p l (ps.foldlM
      (fun c p => do c.declare p.identifier (← c.resolve p.type)) { c with returns? }) := by
    refine prepares_foldlM (fun c l' _ hc x hx => ?_) (hc.withReturns returns?)
    apply Builds.bind (lists_resolve hc (hps x.type (List.mem_map_of_mem hx)))
    intro t l₁ hgains₁ ht
    exact lists_declare (hc.mono hgains₁) x.identifier ht
  apply Builds.bind hparameters
  intro c l₁ _ hc₁
  cases b? with
  | none => exact .pure fun _ _ => trivial
  | some b =>
    apply lists_run hc₁ (runs_of_prepares (prepares_statement hc₁ (.block b) hb))
    intro _ l₂ _ _
    exact .pure fun _ _ => trivial

/-- A binding that may be cancelled. However often it may ask, it lists only what it may infer
from listed types, and where it is not cancelled its result has a property. -/
def ListsAll (p : Prop) {α : Type} (l : Listing) (m : Cancellable α)
    (post : Listing → α → Prop) : Prop :=
  ∀ polls, Lists p l (m.run polls) fun l' r => ∀ a, r.1 = .ok a → post l' a

namespace ListsAll

variable {α β : Type} {m : Cancellable α} {post : Listing → α → Prop}

theorem pure {a : α} (h : ∀ l', l.Gains p l' → post l' a) : ListsAll p l (Pure.pure a) post := by
  intro polls
  refine Builds.pure fun l' hgains b hb => ?_
  obtain rfl := Except.ok.inj hb
  exact h l' hgains

theorem bind {f : α → Cancellable β} {after : Listing → β → Prop} (hm : ListsAll p l m post)
    (hf : ∀ a l', l.Gains p l' → post l' a → ListsAll p l' (f a) after) :
    ListsAll p l (m >>= f) after := by
  intro polls
  show Lists p l (m.run polls >>= fun r => ExceptT.bindCont f r.1 r.2) _
  apply Builds.bind (hm polls)
  intro r l' hgains hr
  obtain ⟨result, rest⟩ := r
  cases result with
  | error e => exact Builds.pure fun _ _ b hb => by cases hb
  | ok a => exact hf a l' hgains (hr a rfl) rest

theorem lift {n : BindM α} (hn : Lists p l n post) : ListsAll p l (liftM n) post := by
  intro polls s hs
  obtain ⟨hgains, hpost⟩ := hn s hs
  refine ⟨hgains, fun a ha => ?_⟩
  obtain rfl := Except.ok.inj ha
  exact hpost

end ListsAll

theorem listsAll_poll : ListsAll p l poll fun _ _ => True := by
  intro polls
  refine (Builds.of_listing_eq fun s => ?_).imp fun _ _ _ _ _ _ => trivial
  match polls with
  | none | some 0 | some (_ + 1) => rfl

mutual

theorem listsAll_typeDeclaration {l : Listing} {c : Context} (hc : c.Listed l)
    (container : String) :
    (d : TypeDeclaration) → AllAvoid p d.typeNodes →
      ListsAll p l (typeDeclaration c container d) fun _ _ => True
  | ⟨_, _, _, i, ms⟩, hv => by
    unfold typeDeclaration
    split
    · exact .pure fun _ _ => trivial
    · have howner : ({ c with owner? := c.names.find? (qualify container i.text) } :
          Context).Listed l :=
        ⟨hc.sound, hc.names, hc.fit, hc.members, hc.scopes, fun t ht => hc.names _ t ht⟩
      exact listsAll_classMembers howner _ ms hv

theorem listsAll_classMember {l : Listing} {c : Context} (hc : c.Listed l) (owner : String) :
    (m : ClassMember) → AllAvoid p m.typeNodes →
      ListsAll p l (classMember c owner m) fun _ _ => True
  | .field f, hv => .lift (runs_field hc hv)
  | .method m, hv => by
    obtain ⟨hreturn, hv⟩ := List.forall_mem_append.mp hv
    obtain ⟨hps, hb⟩ := List.forall_mem_append.mp hv
    have hrest : ∀ (returns? : Option Ty) (l' : Listing), c.Listed l' →
        ListsAll p l' (do body c returns? m.parameters m.body?) fun _ _ => True :=
      fun returns? l' hc' => .lift (runs_body hc' _ hps hb)
    unfold classMember
    split
    next type htype =>
      have hreturn : type.Avoids p := hreturn type (Option.mem_toList.mpr htype)
      have hreturns : ListsAll p l (liftM (some <$> c.resolve type)) fun _ _ => True :=
        .lift ((lists_resolve hc hreturn).map fun _ _ _ _ => trivial)
      apply ListsAll.bind hreturns
      intro returns? l₁ hgains₁ _
      exact hrest returns? l₁ (hc.mono hgains₁)
    next => exact hrest none l hc
  | .conversion o, hv => by
    obtain ⟨htype, hv⟩ := List.forall_mem_cons.mp hv
    obtain ⟨hps, hb⟩ := List.forall_mem_append.mp hv
    apply ListsAll.bind (.lift (lists_resolve hc htype))
    intro t l₁ hgains₁ _
    exact .lift (runs_body (hc.mono hgains₁) _ hps hb)
  | .nestedType d, hv => listsAll_typeDeclaration hc owner d hv
  | .incomplete _, _ => .pure fun _ _ => trivial

theorem listsAll_classMembers {l : Listing} {c : Context} (hc : c.Listed l) (owner : String) :
    (ms : List ClassMember) → AllAvoid p (ClassMember.allTypeNodes ms) →
      ListsAll p l (classMembers c owner ms) fun _ _ => True
  | [], _ => .pure fun _ _ => trivial
  | m :: ms, hv => by
    obtain ⟨hm, hms⟩ := List.forall_mem_append.mp hv
    apply ListsAll.bind listsAll_poll
    intro _ l₁ hgains₁ _
    have hc₁ := hc.mono hgains₁
    apply ListsAll.bind (listsAll_classMember hc₁ owner m hm)
    intro _ l₂ hgains₂ _
    exact listsAll_classMembers (hc₁.mono hgains₂) owner ms hms

end

/-! ### Units -/

/-- A binding that gives scopes in which the types of all variables are listed. -/
abbrev Scopes (p : Prop) (l : Listing) (m : Cancellable ScopeChain) : Prop :=
  ListsAll p l m fun l' scopes => scopes.Listed l'

mutual

theorem scopes_member {l : Listing} {c : Context} {globals : ScopeChain} (hc : c.Listed l)
    (hg : globals.Listed l) (container : String) :
    (m : Member) → AllAvoid p m.typeNodes → Scopes p l (member c container globals m)
  | .namespaceMember n, hv => scopes_namespaceDeclaration hc hg container n hv
  | .typeMember d, hv => by
    apply ListsAll.bind (listsAll_typeDeclaration hc container d hv)
    intro _ l₁ hgains₁ _
    exact .pure fun _ hgains => (hg.mono hgains₁).mono hgains
  | .globalStatement s, hv => by
    apply ListsAll.bind (.lift (prepares_statement (hc.withScopes hg) s hv))
    intro d l₁ _ hd
    exact .pure fun _ hgains => hd.scopes.mono hgains
  | .incomplete _, _ => .pure fun _ hgains => hg.mono hgains

theorem scopes_members {l : Listing} {c : Context} {globals : ScopeChain} (hc : c.Listed l)
    (hg : globals.Listed l) (container : String) :
    (ms : List Member) → AllAvoid p (Member.allTypeNodes ms) →
      Scopes p l (members c container globals ms)
  | [], _ => .pure fun _ hgains => hg.mono hgains
  | m :: ms, hv => by
    obtain ⟨hm, hms⟩ := List.forall_mem_append.mp hv
    apply ListsAll.bind listsAll_poll
    intro _ l₁ hgains₁ _
    have hc₁ := hc.mono hgains₁
    apply ListsAll.bind (scopes_member hc₁ (hg.mono hgains₁) container m hm)
    intro globals l₂ hgains₂ hg₂
    exact scopes_members (hc₁.mono hgains₂) hg₂ container ms hms

theorem scopes_namespaceDeclaration {l : Listing} {c : Context} {globals : ScopeChain}
    (hc : c.Listed l) (hg : globals.Listed l) (container : String) :
    (n : NamespaceDeclaration) → AllAvoid p n.typeNodes →
      Scopes p l (namespaceDeclaration c container globals n)
  | ⟨_, _, _, ms⟩, hv => by
    obtain ⟨-, hv⟩ := List.forall_mem_cons.mp hv
    exact scopes_members hc hg _ ms (List.forall_mem_append.mp hv).2

end

theorem listsAll_unit (hc : c.Listed l) (u : CompilationUnit)
    (hv : AllAvoid p (Member.allTypeNodes u.members)) : ListsAll p l (unit c u) fun _ _ => True := by
  apply ListsAll.bind (.lift (prepares_declareLabels hc _))
  intro d l₁ hgains₁ hd
  apply ListsAll.bind (scopes_members (hc.mono hgains₁) hd.scopes "" u.members hv)
  intro _ l₂ _ _
  exact .pure fun _ _ => trivial

/-- What the bodies of a unit add to the listing of its declarations. -/
theorem gains_bodies (u : CompilationUnit) (hv : AllAvoid p (Member.allTypeNodes u.members))
    (diagnostics : Array Diagnostic) (polls : Polls) :
    (Declarations.ofMembers u.members).listing.Gains p
      (bindUnit u diagnostics polls).2.2.listing := by
  have hc := Context.listed_of (Declarations.listed_of_allAvoid hv)
  let listing := (Declarations.ofMembers u.members).listing
  exact (listsAll_unit hc u hv polls { listing, diagnostics } .refl).1

/-- Wherever binding a unit ends, its listing is what was inferred from the first types, and where
`p` holds no syntax that builds on `void` was resolved for it. -/
theorem gains_bindUnit (u : CompilationUnit) (hv : AllAvoid p (Member.allTypeNodes u.members))
    (diagnostics : Array Diagnostic) (polls : Polls) :
    Listing.Gains p {} (bindUnit u diagnostics polls).2.2.listing :=
  (Declarations.listed_of_allAvoid hv).gains.trans (gains_bodies u hv diagnostics polls)

/-- Wherever binding a unit ends, its listing grew by types that are built of listed ones. -/
theorem grows_bindUnit (u : CompilationUnit) (diagnostics : Array Diagnostic) (polls : Polls) :
    Listing.Grows {} (bindUnit u diagnostics polls).2.2.listing :=
  (gains_bindUnit u (TypeSyntax.allAvoid_false _) diagnostics polls).grows

/-- A table grows at its end only, so that its beginnings are what it was before. -/
theorem sound_take (hgrows : Listing.Grows {} l) (n : Nat) :
    (⟨l.types.take (({} : Listing).size + n)⟩ : Listing).Sound := by
  have hsound := hgrows.sound Listing.sound_first
  refine hsound.of_isPrefix ?_ (List.take_prefix _ _)
  obtain ⟨rest, hrest⟩ := hgrows.isPrefix
  have htake : l.types.take (({} : Listing).size + n) = ({} : Listing).types ++ rest.take n := by
    rw [← hrest, Listing.size, List.take_length_add_append]
  exact ⟨rest.take n, htake.symm⟩

/-- At any time of the binding of a unit, whether it comes to its end or is cancelled, each entry of
the table of types stands there once and mentions earlier ones only. To display a type or to find a
conversion by following its entries needs no more steps than there are places before it. -/
theorem bindUnit_interned (u : CompilationUnit) (diagnostics : Array Diagnostic) (polls : Polls)
    (n : Nat) :
    let last := (bindUnit u diagnostics polls).2.2.listing
    let l : Listing := ⟨last.types.take (({} : Listing).size + n)⟩
    Listing.Grows {} last ∧ l.Interned ∧
      (∀ i, l.displayWithin (i + 1) i = some (l.typeAt i).display) ∧
      ∀ i j, l.conversionWithin (i + j + 1) i j =
        some ((l.typeAt i).standardConversion (l.typeAt j)) := by
  intro last l
  have hgrows := grows_bindUnit u diagnostics polls
  have hsound : l.Sound := sound_take hgrows n
  exact ⟨hgrows, hsound.interned, fun i => hsound.displayWithin_eq (Nat.lt_succ_self i),
    fun i j => hsound.conversionWithin_eq (Nat.lt_succ_self _)⟩

end CSharpFront.Binding
