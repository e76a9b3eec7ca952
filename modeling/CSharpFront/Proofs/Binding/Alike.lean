import CSharpFront.Proofs.Binding.Owners
/-!
Contexts that see the same. A name can mean the same thing in two tables of declarations whatever
the order in which these were made. What binding reports depends on nothing else, and neither on the
types that are listed already nor on what was reported before. Of expressions, statements and types
in contexts that see the same, the same is reported, and the same jumps are noted.
-/

/-! ## Contexts -/

namespace CSharpFront

/-! ### Conversions in another order -/

namespace Ty

variable {declared declared' : List DeclaredConversion}

/-- Of the conversions that are declared it matters only which there are. -/
theorem conversion_congr (h : ∀ x, x ∈ declared ↔ x ∈ declared') (s t : Ty) :
    s.conversion declared t = s.conversion declared' t := by
  have hany (p : DeclaredConversion → Bool) : declared.any p = declared'.any p := by
    rw [Bool.eq_iff_iff, List.any_eq_true, List.any_eq_true]
    simp only [h]
  rw [conversion, conversion, hany, hany]

theorem mismatch?_congr (h : ∀ x, x ∈ declared ↔ x ∈ declared') (span : Span) (s t : Ty) :
    mismatch? declared span s t = mismatch? declared' span s t := by
  rw [mismatch?, mismatch?, conversion_congr h]

theorem choice_congr (h : ∀ x, x ∈ declared ↔ x ∈ declared') (s t : Ty) :
    choice declared s t = choice declared' s t := by
  rw [choice, choice, conversion_congr h, conversion_congr h]

theorem best?_congr (h : ∀ x, x ∈ declared ↔ x ∈ declared') (ts : List Ty) :
    best? declared ts = best? declared' ts := by
  simp only [best?, conversion_congr h]

end Ty

/-! ### Names in another order -/

mutual

/-- Of the names it matters only what each of them means. -/
theorem TypeSyntax.meaning_congr {names names' : NamedTypes}
    (h : ∀ n, names.find? n = names'.find? n) : (type : TypeSyntax) →
    type.meaning names = type.meaning names'
  | .predefined _ _ | .missing _ => rfl
  | .name i => by rw [meaning, meaning, h]
  | .qualified r left right => by
    have hright := meaning_congr h right
    unfold meaning
    rw [h, hright]
  | .generic _ i arguments => by rw [meaning, meaning, meanings_congr h arguments]
  | .nullable _ element => by rw [meaning, meaning, meaning_congr h element]
  | .array _ element rank => by rw [meaning, meaning, meaning_congr h element]

theorem TypeSyntax.meanings_congr {names names' : NamedTypes}
    (h : ∀ n, names.find? n = names'.find? n) : (types : List TypeSyntax) →
    TypeSyntax.meanings names types = TypeSyntax.meanings names' types
  | [] => rfl
  | type :: types => by
    rw [meanings, meanings, meaning_congr h type, meanings_congr h types]

end

/-- Members that differ in their order at most. -/
def Members.Alike (ms ms' : Members) : Prop :=
  ∀ isMethod owner name, ms.member? isMethod owner name = ms'.member? isMethod owner name

namespace Members.Alike

variable {ms ms' : Members}

theorem field? (h : ms.Alike ms') (owner : Ty) (name : String) :
    ms.field? owner name = ms'.field? owner name :=
  h false owner name

theorem method? (h : ms.Alike ms') (owner : Ty) (name : String) :
    ms.method? owner name = ms'.method? owner name :=
  h true owner name

theorem member (h : ms.Alike ms') (d : Denotation) (name : String) (isCall : Bool) :
    d.member ms name isCall = d.member ms' name isCall := by
  simp only [ Denotation.member, h.field?, h.method?]

end Members.Alike

namespace Binding

/-! ### What a binding does -/

/-- What a binding does, whatever was before it: it has a result, and makes reports and notes jumps
after those that were made before. -/
structure Does {α : Type} (m : BindM α) (a : α) (reports : List Diagnostic) (jumps : List Nat) :
    Prop where
  result : ∀ s, (m s).1 = a
  diagnostics : ∀ s, (m s).2.diagnostics.toList = s.diagnostics.toList ++ reports
  referenced : ∀ s, (m s).2.referenced = jumps ++ s.referenced

/-- Two bindings that do the same, with results in a relation. -/
def Agree {α β : Type} (rel : α → β → Prop) (m : BindM α) (n : BindM β) : Prop :=
  ∃ a b reports jumps, rel a b ∧ Does m a reports jumps ∧ Does n b reports jumps

variable {α β γ δ : Type} {rel : α → β → Prop} {after : γ → δ → Prop} {m : BindM α} {n : BindM β}

namespace Does

theorem pure (a : α) : Does (Pure.pure a) a [] [] :=
  ⟨fun _ => rfl, fun s => (List.append_nil s.diagnostics.toList).symm, fun _ => rfl⟩

theorem bind {a : α} {b : β} {f : α → BindM β} {reports reports' : List Diagnostic}
    {jumps jumps' : List Nat} (hm : Does m a reports jumps) (hf : Does (f a) b reports' jumps') :
    Does (m >>= f) b (reports ++ reports') (jumps' ++ jumps) := by
  have hrun (s : State) : (m >>= f) s = f a (m s).2 := by
    show f (m s).1 (m s).2 = _
    rw [hm.result]
  refine ⟨fun s => ?_, fun s => ?_, fun s => ?_⟩
  · rw [hrun, hf.result]
  · rw [hrun, hf.diagnostics, hm.diagnostics, List.append_assoc]
  · rw [hrun, hf.referenced, hm.referenced, List.append_assoc]

theorem report (message : Message) (span : Span) (arguments : List String) :
    Does (report message span arguments) () [.of message span arguments] [] :=
  ⟨fun _ => rfl, fun _ => Array.toList_push, fun _ => rfl⟩

end Does

namespace Agree

theorem pure {a : α} {b : β} (h : rel a b) : Agree rel (Pure.pure a) (Pure.pure b) :=
  ⟨a, b, [], [], h, .pure a, .pure b⟩

theorem bind {f : α → BindM γ} {g : β → BindM δ} (hm : Agree rel m n)
    (hf : ∀ a b, rel a b → Agree after (f a) (g b)) : Agree after (m >>= f) (n >>= g) := by
  obtain ⟨a, b, reports, jumps, hab, hma, hnb⟩ := hm
  obtain ⟨c, d, reports', jumps', hcd, hfc, hgd⟩ := hf a b hab
  exact ⟨c, d, _, _, hcd, hma.bind hfc, hnb.bind hgd⟩

/-- Two steps with one result. -/
theorem same {m n : BindM α} {f : α → BindM γ} {g : α → BindM δ} (hm : Agree Eq m n)
    (hf : ∀ a, Agree after (f a) (g a)) : Agree after (m >>= f) (n >>= g) :=
  .bind hm fun a _ h => h ▸ hf a

theorem map {f : α → γ} {m n : BindM α} (hm : Agree Eq m n) : Agree Eq (f <$> m) (f <$> n) :=
  .same hm fun _ => .pure rfl

theorem ite {c : Prop} [Decidable c] {m' : BindM α} {n' : BindM β} (hm : Agree rel m n)
    (hn : Agree rel m' n') : Agree rel (if c then m else m') (if c then n else n') := by
  split
  · exact hm
  · exact hn

theorem foldlM {f : γ → α → BindM γ} {g : δ → α → BindM δ} (as : List α) {c : γ} {d : δ}
    (hcd : after c d) (hf : ∀ c d, after c d → ∀ a, Agree after (f c a) (g d a)) :
    Agree after (as.foldlM f c) (as.foldlM g d) := by
  induction as generalizing c d with
  | nil => exact .pure hcd
  | cons a as ih =>
    rw [List.foldlM_cons, List.foldlM_cons]
    exact .bind (hf c d hcd a) fun _ _ => ih

theorem forM {f g : α → BindM Unit} (as : List α) (hf : ∀ a, Agree Eq (f a) (g a)) :
    Agree Eq (as.forM f) (as.forM g) := by
  induction as with
  | nil => exact .pure rfl
  | cons a as ih => exact .same (hf a) fun _ => ih

end Agree

/-! ### Contexts -/

/-- Contexts in which every name means the same. -/
structure Context.Alike (c c' : Context) : Prop where
  names : ∀ n, c.names.find? n = c'.names.find? n
  members : c.members.Alike c'.members
  conversions : ∀ x, x ∈ c.conversions ↔ x ∈ c'.conversions
  scopes : c.scopes = c'.scopes
  owner : c.owner? = c'.owner?
  returns : c.returns? = c'.returns?
  inLoop : c.inLoop = c'.inLoop

namespace Context.Alike

variable {c c' : Context}

theorem withScopes (hc : c.Alike c') (scopes : ScopeChain) :
    Context.Alike { c with scopes } { c' with scopes } :=
  { hc with scopes := rfl }

theorem push (hc : c.Alike c') : c.push.Alike c'.push :=
  { hc with scopes := congrArg ScopeChain.push hc.scopes }

theorem inside (hc : c.Alike c') {t? t?' : Option Ty} (h : t? = t?') :
    Context.Alike { c with owner? := t? } { c' with owner? := t?' } :=
  { hc with owner := h }

theorem returning (hc : c.Alike c') (returns? : Option Ty) :
    Context.Alike { c with returns? } { c' with returns? } :=
  { hc with returns := rfl }

theorem intoLoop (hc : c.Alike c') :
    Context.Alike { c with inLoop := true } { c' with inLoop := true } :=
  { hc with inLoop := rfl }

theorem shadow (hc : c.Alike c') (i : Identifier) (t : Ty) :
    (c.shadow i t).Alike (c'.shadow i t) := by
  unfold Context.shadow
  rw [hc.scopes]
  split
  · exact hc
  · exact hc.withScopes _

theorem ownMethod? (hc : c.Alike c') (name : String) : c.ownMethod? name = c'.ownMethod? name := by
  simp only [Context.ownMethod?, hc.owner, hc.members.method?]

theorem denote (hc : c.Alike c') (i : Identifier) : c.denote i = c'.denote i := by
  simp only [Context.denote, Context.ownField?, hc.scopes, hc.owner, hc.members.field?, hc.names]

theorem assignedField? (hc : c.Alike c') (owner : Ty) (e : Expr) :
    Binding.assignedField? c owner e = Binding.assignedField? c' owner e := by
  cases e with
  | identifier i => exact hc.members.field? owner i.text
  | _ => rfl

end Context.Alike

/-! ### Elementary steps -/

variable {c c' : Context}

theorem agree_report (message : Message) (span : Span) (arguments : List String) :
    Agree Eq (report message span arguments) (report message span arguments) :=
  ⟨(), (), _, _, rfl, .report _ _ _, .report _ _ _⟩

theorem agree_complain (d? : Option Diagnostic) : Agree Eq (complain d?) (complain d?) := by
  cases d? with
  | none => exact .pure rfl
  | some d =>
    have hdoes : Does (complain (some d)) () [d] [] :=
      ⟨fun _ => rfl, fun _ => Array.toList_push, fun _ => rfl⟩
    exact ⟨(), (), _, _, rfl, hdoes, hdoes⟩

theorem does_list (t : Ty) : Does (list t) t [] [] :=
  ⟨fun _ => rfl, fun s => (List.append_nil s.diagnostics.toList).symm, fun _ => rfl⟩

theorem agree_list (t : Ty) : Agree Eq (list t) (list t) :=
  ⟨t, t, _, _, rfl, does_list t, does_list t⟩

/-- Type syntax means the same whatever is listed. -/
theorem does_resolve (c : Context) (type : TypeSyntax) :
    Does (c.resolve type) (type.meaning c.names) [] [] :=
  ⟨fun s => fst_resolve c.names s.listing type,
    fun s => (List.append_nil s.diagnostics.toList).symm, fun _ => rfl⟩

theorem agree_resolve (hc : c.Alike c') (type : TypeSyntax) :
    Agree Eq (c.resolve type) (c'.resolve type) :=
  ⟨_, _, _, _, type.meaning_congr hc.names, does_resolve c type, does_resolve c' type⟩

theorem agree_declare (hc : c.Alike c') (i : Identifier) (t : Ty) :
    Agree Context.Alike (c.declare i t) (c'.declare i t) := by
  unfold Context.declare
  rw [hc.scopes]
  refine .ite (.pure hc) ?_
  cases c'.scopes.declareLocal? i.text ⟨t, i.span⟩ with
  | none => exact .same (agree_report ..) fun _ => .pure hc
  | some scopes => exact .pure (hc.withScopes scopes)

theorem agree_assign (hc : c.Alike c') (e : Expr) (s t : Ty) :
    Agree Eq (c.assign e s t) (c'.assign e s t) := by
  unfold Context.assign
  rw [Ty.mismatch?_congr hc.conversions]
  exact .ite (.pure rfl) (agree_complain _)

theorem agree_require (hc : c.Alike c') (e : Expr) (t : Ty) :
    Agree Eq (c.require e t) (c'.require e t) := by
  simp only [Context.require, Ty.checkCondition, Ty.mismatch?_congr hc.conversions]
  exact agree_complain _

theorem agree_requireCast (hc : c.Alike c') (span : Span) (s t : Ty) :
    Agree Eq (c.requireCast span s t) (c'.requireCast span s t) := by
  unfold Context.requireCast
  rw [Ty.conversion_congr hc.conversions]
  exact .ite (agree_report ..) (.pure rfl)

theorem agree_rangeType (hc : c.Alike c') (type? : Option TypeSyntax) (source : Ty) :
    Agree Eq (rangeType c type? source) (rangeType c' type? source) := by
  cases type? with
  | none => exact .pure rfl
  | some type => exact agree_resolve hc type

end Binding

end CSharpFront

/-! ## Bodies -/

namespace CSharpFront.Binding

variable {c c' : Context}

/-! ### Expressions -/

mutual

theorem agree_expression {c c' : Context} (hc : c.Alike c') (expected? : Option Ty) :
    (e : Expr) → Agree Eq (expression c expected? e) (expression c' expected? e)
  | .identifier i => .pure (hc.denote i)
  | .literal _ | .predefinedType _ _ | .missing _ => .pure rfl
  | .thisWord _ => by
    unfold expression
    rw [hc.owner]
    exact .pure rfl
  | .parenthesized _ e => .same (agree_expression hc none e) fun _ => .pure rfl
  | .binary _ left _ right => by
    unfold expression
    apply Agree.same (agree_expression hc none left)
    intro _
    apply Agree.same (agree_expression hc none right)
    intro _
    exact .same (agree_list _) fun _ => .pure rfl
  | .assignment _ left _ right => by
    unfold expression
    apply Agree.same (agree_expression hc none left)
    intro _
    apply Agree.same (agree_expression hc none right)
    intro _
    exact .ite (.same (agree_assign hc right _ _) fun _ => .pure rfl) (.pure rfl)
  | .conditional _ e t f => by
    unfold expression
    apply Agree.same (agree_expression hc none e)
    intro _
    apply Agree.same (agree_require hc e _)
    intro _
    apply Agree.same (agree_expression hc none t)
    intro _
    apply Agree.same (agree_expression hc none f)
    intro _
    exact .pure (congrArg Denotation.value (Ty.choice_congr hc.conversions _ _))
  | .prefixUnary _ _ e => by
    unfold expression
    apply Agree.same (agree_expression hc none e)
    intro _
    exact .same (agree_list _) fun _ => .pure rfl
  | .postfixUnary _ e _ => .same (agree_expression hc none e) fun _ => .pure rfl
  | .cast _ type e => by
    unfold expression
    apply Agree.same (agree_resolve hc type)
    intro _
    apply Agree.same (agree_expression hc none e)
    intro _
    exact .same (agree_requireCast hc _ _ _) fun _ => .pure rfl
  | .typeTest _ e _ type => by
    unfold expression
    apply Agree.same (agree_expression hc none e)
    intro _
    exact .same (agree_resolve hc type) fun _ => .pure rfl
  | .memberAccess _ e _ _ => by
    unfold expression
    apply Agree.same (agree_expression hc none e)
    intro _
    split
    · exact .pure rfl
    · rw [hc.members.member]
      exact .same (agree_list _) fun _ => .pure rfl
  | .await _ e => .same (agree_expression hc none e) fun _ => .pure rfl
  | .invocation _ callee arguments => by
    have hrest {t t' : Ty} (ht : t = t') : Agree Eq (do
        let _ ← expressions c arguments
        return Denotation.value t) (do
        let _ ← expressions c' arguments
        return Denotation.value t') :=
      .same (agree_expressions hc arguments) fun _ => .pure (congrArg _ ht)
    have hcallee := agree_expression hc none callee
    cases callee with
    | memberAccess _ e _ _ =>
      unfold expression
      apply Agree.same (agree_expression hc none e)
      intro _
      rw [hc.members.member]
      exact .same (agree_list _) fun _ => hrest rfl
    | identifier i => exact hrest (by rw [hc.ownMethod?])
    | _ => exact .same hcallee fun _ => hrest rfl
  | .elementAccess _ e arguments => by
    unfold expression
    apply Agree.same (agree_expression hc none e)
    intro _
    exact .same (agree_expressions hc arguments) fun _ => .pure rfl
  | .objectCreation _ type arguments? initializer? => by
    unfold expression
    apply Agree.same (agree_resolve hc type)
    intro t
    have hrest : Agree Eq (do
        match initializer? with
        | none => pure ()
        | some ⟨_, es⟩ => properties c t es
        return Denotation.value t) (do
        match initializer? with
        | none => pure ()
        | some ⟨_, es⟩ => properties c' t es
        return Denotation.value t) := by
      match initializer? with
      | none => exact .pure rfl
      | some ⟨_, es⟩ => exact .same (agree_properties hc t es) fun _ => .pure rfl
    match arguments? with
    | none => exact hrest
    | some arguments => exact .same (agree_expressions hc arguments) fun _ => hrest
  | .arrayCreation _ type sizes initializer? => by
    unfold expression
    apply Agree.same (agree_resolve hc type)
    intro t
    apply Agree.same (agree_expressions hc sizes)
    intro _
    match initializer? with
    | none => exact .pure rfl
    | some ⟨_, es⟩ =>
      dsimp only
      split
      · exact .same (agree_elements hc _ _ es) fun _ => .pure rfl
      · exact .pure rfl
  | .implicitArrayCreation _ ⟨_, es⟩ => by
    unfold expression
    apply Agree.same (agree_expressions hc es)
    intro _
    rw [Ty.best?_congr hc.conversions]
    split
    · exact .same (agree_list _) fun _ => .pure rfl
    · exact .pure rfl
  | .initializer ⟨_, es⟩ => by
    unfold expression
    split
    · exact .same (agree_elements hc _ _ es) fun _ => .pure rfl
    · exact .same (agree_expressions hc es) fun _ => .pure rfl
  | .query _ ⟨_, type?, i, e⟩ body => by
    unfold expression
    apply Agree.same (agree_expression hc none e)
    intro _
    apply Agree.same (agree_rangeType hc type? _)
    intro t
    exact .same (agree_queryBody (hc.push.shadow i t) body) fun _ => .pure rfl
termination_by structural x => x

theorem agree_expressions {c c' : Context} (hc : c.Alike c') :
    (es : List Expr) → Agree Eq (expressions c es) (expressions c' es)
  | [] => .pure rfl
  | e :: es => by
    unfold expressions
    apply Agree.same (agree_expression hc none e)
    intro _
    exact .same (agree_expressions hc es) fun _ => .pure rfl
termination_by structural x => x

theorem agree_elements {c c' : Context} (hc : c.Alike c') (element : Ty) (rank : Nat) :
    (es : List Expr) → Agree Eq (elements c element rank es) (elements c' element rank es)
  | [] => .pure rfl
  | e :: es => by
    have hrest := agree_elements hc element rank es
    unfold elements
    apply Agree.same (agree_expression hc _ e)
    intro _
    exact .ite hrest (.same (agree_assign hc e _ _) fun _ => hrest)
termination_by structural x => x

theorem agree_properties {c c' : Context} (hc : c.Alike c') (owner : Ty) :
    (es : List Expr) → Agree Eq (properties c owner es) (properties c' owner es)
  | [] => .pure rfl
  | e :: es => by
    have hrest := agree_properties hc owner es
    have hvalue := agree_expression hc none e
    cases e with
    | assignment _ left _ right =>
      unfold properties
      apply Agree.same (agree_expression hc none right)
      intro _
      rw [hc.assignedField? owner left]
      split
      · exact .same (agree_assign hc right _ _) fun _ => hrest
      · exact hrest
    | _ => exact .same hvalue fun _ => hrest
termination_by structural x => x

theorem agree_clauses {c c' : Context} (hc : c.Alike c') :
    (qs : List QueryClause) → Agree Context.Alike (clauses c qs) (clauses c' qs)
  | [] => .pure hc
  | .fromClause ⟨_, type?, i, e⟩ :: qs => by
    unfold clauses
    apply Agree.same (agree_expression hc none e)
    intro _
    apply Agree.same (agree_rangeType hc type? _)
    intro t
    exact agree_clauses (hc.shadow i t) qs
  | .letClause _ i e :: qs => by
    unfold clauses
    apply Agree.same (agree_expression hc none e)
    intro _
    exact agree_clauses (hc.shadow i _) qs
  | .whereClause _ e :: qs => by
    unfold clauses
    apply Agree.same (agree_expression hc none e)
    intro _
    exact .same (agree_require hc e _) fun _ => agree_clauses hc qs
  | .orderByClause _ keys :: qs => by
    unfold clauses
    exact .same (agree_sortKeys hc keys) fun _ => agree_clauses hc qs
termination_by structural x => x

theorem agree_sortKeys {c c' : Context} (hc : c.Alike c') :
    (ks : List SortKey) → Agree Eq (sortKeys c ks) (sortKeys c' ks)
  | [] => .pure rfl
  | ⟨_, e, _⟩ :: ks => .same (agree_expression hc none e) fun _ => agree_sortKeys hc ks
termination_by structural x => x

theorem agree_ending {c c' : Context} (hc : c.Alike c') :
    (q : QueryEnding) → Agree Eq (ending c q) (ending c' q)
  | .select _ e => .same (agree_expression hc none e) fun _ => .pure rfl
  | .group _ e k => by
    unfold ending
    apply Agree.same (agree_expression hc none e)
    intro _
    apply Agree.same (agree_expression hc none k)
    intro _
    exact .ite (.pure rfl) (agree_list _)
  | .missing _ => .pure rfl
termination_by structural x => x

theorem agree_queryBody {c c' : Context} (hc : c.Alike c') :
    (b : QueryBody) → Agree Eq (queryBody c b) (queryBody c' b)
  | ⟨_, qs, e, continuation?⟩ => by
    unfold queryBody
    apply Agree.bind (agree_clauses hc qs)
    intro d d' hd
    apply Agree.same (agree_ending hd e)
    intro t
    refine .ite (.pure rfl) ?_
    match continuation? with
    | none => exact agree_list _
    | some ⟨_, i, body⟩ => exact agree_queryBody (hd.push.shadow i t) body
termination_by structural x => x

end

/-! ### Types of expressions -/

theorem Context.Alike.refl (c : Context) : c.Alike c :=
  ⟨fun _ => rfl, fun _ _ _ => rfl, fun _ => .rfl, rfl, rfl, rfl, rfl⟩

/-- The type of an expression of which nothing is expected. -/
def Context.typeOf (c : Context) (e : Expr) : Ty := (expression c none e {}).1.valueType

/-- What an expression names depends on what the context declares, and on nothing that was bound
before. -/
theorem fst_expression (c : Context) (expected? : Option Ty) (e : Expr) (s s' : State) :
    (expression c expected? e s).1 = (expression c expected? e s').1 := by
  obtain ⟨d, _, _, _, -, hdoes, -⟩ := agree_expression (.refl c) expected? e
  rw [hdoes.result s, hdoes.result s']

theorem valueType_expression (c : Context) (e : Expr) (s : State) :
    (expression c none e s).1.valueType = c.typeOf e := by
  rw [Context.typeOf, fst_expression c none e s {}]

theorem fst_expressions (c : Context) (es : List Expr) (s : State) :
    (expressions c es s).1 = es.map c.typeOf := by
  induction es generalizing s with
  | nil => rfl
  | cons e es ih =>
    calc (expressions c (e :: es) s).1
        = (expression c none e s).1.valueType ::
            (expressions c es (expression c none e s).2).1 := rfl
      _ = c.typeOf e :: es.map c.typeOf := by rw [valueType_expression, ih]

/-- Whatever an array or a list is accessed with, the access is of the type of what it holds. -/
theorem fst_elementAccess (c : Context) (expected? : Option Ty) (r : Range) (e : Expr)
    (arguments : List Expr) (s : State) :
    (expression c expected? (.elementAccess r e arguments) s).1 =
      .value (c.typeOf e).indexed := by
  rw [← valueType_expression c e s]
  rfl

theorem agree_initialValue (hc : c.Alike c') (target : Ty) (e : Expr) :
    Agree Eq (initialValue c target e) (initialValue c' target e) := by
  unfold initialValue
  apply Agree.same (agree_expression hc _ e)
  intro _
  exact .ite (.pure rfl) (agree_assign hc e _ _)

theorem agree_condition (hc : c.Alike c') (e : Expr) :
    Agree Eq (condition c e) (condition c' e) :=
  .same (agree_expression hc none e) fun _ => agree_require hc e _

/-! ### Labels and variables -/

theorem agree_declareLabel (hc : c.Alike c') (i : Identifier) :
    Agree Context.Alike (declareLabel c i) (declareLabel c' i) := by
  unfold declareLabel
  rw [hc.scopes]
  refine .ite (.pure hc) ?_
  cases c'.scopes.declareLabel? i.text i.range.start with
  | none => exact .same (agree_report ..) fun _ => .pure hc
  | some scopes => exact .pure (hc.withScopes scopes)

theorem agree_declareLabels (hc : c.Alike c') (ss : List Stmt) :
    Agree Context.Alike (declareLabels c ss) (declareLabels c' ss) :=
  .foldlM _ hc fun _ _ hd i => agree_declareLabel hd i

theorem agree_embed (hc : c.Alike c') (s : Stmt) :
    Agree Context.Alike (embed c s) (embed c' s) :=
  .ite (.pure hc) (agree_declareLabels hc.push [s])

theorem agree_goto (hc : c.Alike c') (i : Identifier) : Agree Eq (goto c i) (goto c' i) := by
  unfold goto
  rw [hc.scopes]
  refine .ite (.pure rfl) ?_
  cases c'.scopes.findLabel? i.text with
  | none => exact agree_report ..
  | some place =>
    have hdoes : Does (modify fun s : State => { s with referenced := place :: s.referenced }) ()
        [] [place] :=
      ⟨fun _ => rfl, fun s => (List.append_nil s.diagnostics.toList).symm, fun _ => rfl⟩
    exact ⟨(), (), _, _, rfl, hdoes, hdoes⟩

theorem agree_inferredType (hc : c.Alike c') (e? : Option Expr) :
    Agree Eq (inferredType c e?) (inferredType c' e?) := by
  cases e? with
  | none => exact .pure rfl
  | some e => exact .same (agree_expression hc none e) fun _ => .pure rfl

theorem agree_declarator (hc : c.Alike c') (declared? : Option Ty) (d : Declarator) :
    Agree Context.Alike (declarator declared? c d) (declarator declared? c' d) := by
  have hrest (t : Ty) :
      Agree Context.Alike (c.declare d.identifier t) (c'.declare d.identifier t) :=
    agree_declare hc d.identifier t
  unfold declarator
  match declared?, d.initializer? with
  | none, e? => exact .same (agree_inferredType hc e?) hrest
  | some t, none => exact hrest t
  | some t, some e => exact .same (agree_initialValue hc t e) fun _ => hrest t

theorem agree_declareVariables (hc : c.Alike c') (d : VariableDeclaration) :
    Agree Context.Alike (declareVariables c d) (declareVariables c' d) := by
  have hrest (declared? : Option Ty) : Agree Context.Alike
      (d.declarators.foldlM (declarator declared?) c)
      (d.declarators.foldlM (declarator declared?) c') :=
    .foldlM _ hc fun _ _ hd => agree_declarator hd declared?
  exact .ite (hrest none) (.same (.map (agree_resolve hc d.type)) hrest)

/-! ### Statements -/

theorem agree_forHeader (hc : c.Alike c') (h : ForHeader) :
    Agree Context.Alike (forHeader c h) (forHeader c' h) := by
  have hlast {c c' : Context} (hc : c.Alike c') : Agree Context.Alike
      (do let _ ← expressions c h.incrementors; return c)
      (do let _ ← expressions c' h.incrementors; return c') :=
    .same (agree_expressions hc _) fun _ => .pure hc
  have hrest {c c' : Context} (hc : c.Alike c') : Agree Context.Alike
      (forHeader c { h with initializer? := none })
      (forHeader c' { h with initializer? := none }) := by
    apply Agree.bind (.pure hc)
    intro d d' hd
    match h.condition? with
    | none => exact hlast hd
    | some e => exact .same (agree_condition hd e) fun _ => hlast hd
  unfold forHeader
  match h.initializer? with
  | none => exact hrest hc
  | some (.declaration d) => exact .bind (agree_declareVariables hc d) fun _ _ => hrest
  | some (.expressions es) => exact .same (agree_expressions hc es) fun _ => hrest hc

theorem agree_returnValue (hc : c.Alike c') (e? : Option Expr) :
    Agree Eq (returnValue c e?) (returnValue c' e?) := by
  cases e? with
  | none => exact .pure rfl
  | some e =>
    apply Agree.same (agree_expression hc none e)
    intro _
    rw [hc.returns]
    split
    · exact .ite (.pure rfl) (agree_assign hc e _ _)
    · exact .pure rfl

mutual

theorem agree_statement {c c' : Context} (hc : c.Alike c') :
    (s : Stmt) → Agree Context.Alike (statement c s) (statement c' s)
  | .block ⟨_, _, ss, _⟩ => by
    unfold statement
    apply Agree.bind (agree_declareLabels hc.push ss)
    intro d d' hd
    exact .bind (agree_statements hd ss) fun _ _ _ => .pure hc
  | .empty _ => .pure hc
  | .localDeclaration _ _ d _ => agree_declareVariables hc d
  | .expression _ e _ => .same (agree_expression hc none e) fun _ => .pure hc
  | .ifElse _ e s s? => by
    unfold statement
    apply Agree.same (agree_condition hc e)
    intro _
    apply Agree.bind (agree_embed hc s)
    intro d d' hd
    apply Agree.bind (agree_statement hd s)
    intro _ _ _
    match s? with
    | none => exact .pure hc
    | some t =>
      apply Agree.bind (agree_embed hc t)
      intro d d' hd
      exact .bind (agree_statement hd t) fun _ _ _ => .pure hc
  | .whileLoop _ e s => by
    unfold statement
    apply Agree.same (agree_condition hc e)
    intro _
    apply Agree.bind (agree_embed hc.intoLoop s)
    intro d d' hd
    exact .bind (agree_statement hd s) fun _ _ _ => .pure hc
  | .doLoop _ s e => by
    unfold statement
    apply Agree.bind (agree_embed hc.intoLoop s)
    intro d d' hd
    apply Agree.bind (agree_statement hd s)
    intro _ _ _
    exact .same (agree_condition hc e) fun _ => .pure hc
  | .forLoop _ h s => by
    unfold statement
    apply Agree.bind (agree_forHeader hc.push h)
    intro d d' hd
    apply Agree.bind (agree_embed hd.intoLoop s)
    intro d d' hd
    exact .bind (agree_statement hd s) fun _ _ _ => .pure hc
  | .returnValue _ e? => .same (agree_returnValue hc e?) fun _ => .pure hc
  | .breakLoop _ | .continueLoop _ => by
    unfold statement
    rw [hc.inLoop]
    exact .ite (.pure hc) (.same (agree_report ..) fun _ => .pure hc)
  | .goto _ l => .same (agree_goto hc l) fun _ => .pure hc
  | .labeled _ _ s => by
    unfold statement
    exact agree_statement hc s
termination_by structural x => x

theorem agree_statements {c c' : Context} (hc : c.Alike c') :
    (ss : List Stmt) → Agree Context.Alike (statements c ss) (statements c' ss)
  | [] => .pure hc
  | s :: ss => by
    unfold statements
    apply Agree.bind (agree_statement hc s)
    intro d d' hd
    exact agree_statements hd ss
termination_by structural x => x

end

/-! ### Types -/

theorem agree_field (hc : c.Alike c') (f : Field) : Agree Eq (field c f) (field c' f) := by
  apply Agree.same (agree_resolve hc f.declaration.type)
  intro t
  refine .forM f.declaration.declarators fun d => ?_
  match d.initializer? with
  | none => exact .pure rfl
  | some e => exact agree_initialValue hc t e

theorem agree_body (hc : c.Alike c') (returns? : Option Ty) (ps : List Parameter)
    (b? : Option Block) : Agree Eq (body c returns? ps b?) (body c' returns? ps b?) := by
  refine .bind (.foldlM ps (hc.returning returns?) fun d d' hd p => ?_) fun d d' hd => ?_
  · exact .same (agree_resolve hd p.type) fun t => agree_declare hd p.identifier t
  · match b? with
    | none => exact .pure rfl
    | some b => exact .bind (agree_statement hd (.block b)) fun _ _ _ => .pure rfl

/-- What a binding does that is never cancelled, and then another. -/
theorem Does.bindAll {α β : Type} {m : Cancellable α} {f : α → Cancellable β} {a : α} {b : β}
    {reports reports' : List Diagnostic} {jumps jumps' : List Nat}
    (hm : Does (m.run none) (.ok a, none) reports jumps)
    (hf : Does ((f a).run none) (.ok b, none) reports' jumps') :
    Does ((m >>= f).run none) (.ok b, none) (reports ++ reports') (jumps' ++ jumps) := by
  show Does (m.run none >>= fun r => ExceptT.bindCont f r.1 r.2) _ _ _
  exact hm.bind hf

/-- Two bindings that do the same if they are never cancelled. -/
def AgreeAll {α : Type} (m n : Cancellable α) : Prop :=
  ∃ a reports jumps,
    Does (m.run none) (.ok a, none) reports jumps ∧ Does (n.run none) (.ok a, none) reports jumps

namespace AgreeAll

variable {α β : Type} {m n : Cancellable α}

theorem pure (a : α) : AgreeAll (Pure.pure a) (Pure.pure a) := ⟨a, [], [], .pure _, .pure _⟩

theorem bind {f g : α → Cancellable β} (hm : AgreeAll m n) (hf : ∀ a, AgreeAll (f a) (g a)) :
    AgreeAll (m >>= f) (n >>= g) := by
  obtain ⟨a, reports, jumps, hma, hna⟩ := hm
  obtain ⟨b, reports', jumps', hfb, hgb⟩ := hf a
  exact ⟨b, _, _, hma.bindAll hfb, hna.bindAll hgb⟩

theorem lift {m n : BindM α} (h : Agree Eq m n) : AgreeAll (liftM m) (liftM n) := by
  obtain ⟨a, _, reports, jumps, rfl, hm, hn⟩ := h
  have hrun {m : BindM α} (hm : Does m a reports jumps) :
      Does ((liftM m : Cancellable α).run none) (.ok a, none) (reports ++ []) ([] ++ jumps) :=
    hm.bind (f := fun a => Pure.pure (Except.ok a, none)) (.pure _)
  exact ⟨a, _, _, hrun hm, hrun hn⟩

end AgreeAll

theorem agreeAll_poll : AgreeAll poll poll := ⟨(), [], [], .pure _, .pure _⟩

mutual

theorem agreeAll_typeDeclaration {c c' : Context} (hc : c.Alike c') (container : String) :
    (d : TypeDeclaration) →
      AgreeAll (typeDeclaration c container d) (typeDeclaration c' container d)
  | ⟨_, _, _, i, ms⟩ => by
    unfold typeDeclaration
    split
    · exact .pure ()
    · exact agreeAll_classMembers (hc.inside (hc.names _)) _ ms
termination_by structural x => x

theorem agreeAll_classMember {c c' : Context} (hc : c.Alike c') (owner : String) :
    (m : ClassMember) → AgreeAll (classMember c owner m) (classMember c' owner m)
  | .field f => .lift (agree_field hc f)
  | .method m => by
    have hrest (returns? : Option Ty) : AgreeAll (do body c returns? m.parameters m.body?)
        (do body c' returns? m.parameters m.body?) :=
      .lift (agree_body hc returns? m.parameters m.body?)
    unfold classMember
    match m.returnType? with
    | none => exact hrest none
    | some type => exact .bind (.lift (.map (agree_resolve hc type))) hrest
  | .conversion o =>
    .bind (.lift (agree_resolve hc o.type)) fun _ => .lift (agree_body hc _ o.parameters o.body?)
  | .nestedType d => by
    unfold classMember
    exact agreeAll_typeDeclaration hc owner d
  | .incomplete _ => .pure ()
termination_by structural x => x

theorem agreeAll_classMembers {c c' : Context} (hc : c.Alike c') (owner : String) :
    (ms : List ClassMember) → AgreeAll (classMembers c owner ms) (classMembers c' owner ms)
  | [] => .pure ()
  | m :: ms => by
    unfold classMembers
    apply AgreeAll.bind agreeAll_poll
    intro _
    apply AgreeAll.bind (agreeAll_classMember hc owner m)
    intro _
    exact agreeAll_classMembers hc owner ms
termination_by structural x => x

end

end CSharpFront.Binding
