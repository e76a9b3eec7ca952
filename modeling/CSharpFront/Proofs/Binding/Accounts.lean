import CSharpFront.Binding.Unit
import CSharpFront.Proofs.Binding.Owners
import CSharpFront.Proofs.Syntax.Marks
/-!
An account of what binding does to two things: how often it refuses a cast at one place, and to
which labels it notes a jump. Of the casts in a tree, those that are surely looked at and surely
refused are a least number of reports, and all casts are a greatest number.
-/

namespace CSharpFront

/-! ### Casts that are surely looked at, and refused -/

namespace Cast

/-- Whether a cast takes a literal to a predefined type to which no conversion leads. -/
def isRefused (conversions : List DeclaredConversion) (k : Cast) : Bool :=
  match k.type, k.operand with
  | .predefined _ s, .literal l => l.type.conversion conversions (.special s) == .none
  | _, _ => false

def span (k : Cast) : Span := k.range.toSpan

end Cast

/-- The parts of a tree at which binding always looks. The braces of a new array are among them if
its type is that of an array, where types of the text have names. -/
def Reach.surely (names : NamedTypes) : Reach where
  braces type := match type.meaning names with | .array _ _ => true | _ => false
  continuation := false
  property := false
  nameless := false

namespace Binding

/-- How often it has been reported at a place that no conversion leads from one type to another. -/
def refusals (ds : Array Diagnostic) (span : Span) : Nat :=
  ds.toList.countP fun d => d.message = .noConversion ∧ d.span = span

def State.refusals (s : State) (span : Span) : Nat := Binding.refusals s.diagnostics span

/-- The place of which an account is kept, with what all contexts have in common. -/
structure Setting where
  names : NamedTypes
  conversions : List DeclaredConversion
  span : Span

namespace Setting

variable (k : Setting)

/-- How many casts at the place are surely refused. -/
def least (casts : Reach → List Cast) : Nat :=
  (casts (.surely k.names)).countP fun x => x.isRefused k.conversions ∧ x.span = k.span

/-- How many casts there are at the place. -/
def most (casts : Reach → List Cast) : Nat :=
  (casts .everywhere).countP fun x => x.span = k.span

end Setting

/-- A context of the text of which an account is kept. -/
structure Context.In (k : Setting) (c : Context) : Prop where
  names : c.names = k.names
  conversions : c.conversions = k.conversions

/-- A binding that refuses casts among some and notes jumps to the labels at some places. -/
def Accounts (k : Setting) (casts : Reach → List Cast) (noted : List Nat) {α : Type} (m : BindM α)
    (post : α → Prop) : Prop :=
  ∀ s, post (m s).1 ∧
    (s.refusals k.span + k.least casts ≤ (m s).2.refusals k.span ∧
      (m s).2.refusals k.span ≤ s.refusals k.span + k.most casts) ∧
    ∀ place, place ∈ (m s).2.referenced ↔ place ∈ noted ∨ place ∈ s.referenced

/-- A binding that neither refuses a cast nor notes a jump. -/
abbrev Quiet (k : Setting) {α : Type} (m : BindM α) (post : α → Prop) : Prop :=
  Accounts k (fun _ => []) [] m post

variable {k : Setting} {c : Context}

namespace Accounts

variable {α β : Type} {m : BindM α} {post : α → Prop} {after : β → Prop}
  {casts casts' : Reach → List Cast} {noted noted' : List Nat}

theorem pure {a : α} (h : post a) : Quiet k (Pure.pure a) post := by
  refine fun s => ⟨h, ⟨Nat.le_refl _, Nat.le_refl _⟩, fun place => ?_⟩
  show place ∈ s.referenced ↔ _
  simp

theorem bind {f : α → BindM β} (hm : Accounts k casts noted m post)
    (hf : ∀ a, post a → Accounts k casts' noted' (f a) after) :
    Accounts k (fun r => casts r ++ casts' r) (noted ++ noted') (m >>= f) after := by
  intro s
  obtain ⟨ha, ⟨hleast, hmost⟩, hnoted⟩ := hm s
  obtain ⟨hb, ⟨hleast', hmost'⟩, hnoted'⟩ := hf _ ha (m s).2
  refine ⟨hb, ⟨?_, ?_⟩, fun place => (hnoted' place).trans ?_⟩
  · refine Nat.le_trans ?_ hleast'
    simp only [Setting.least, List.countP_append] at hleast ⊢
    omega
  · refine Nat.le_trans hmost' ?_
    simp only [Setting.most, List.countP_append] at hmost ⊢
    omega
  · rw [hnoted, List.mem_append]
    exact or_left_comm.trans or_assoc.symm

/-- A first step that notes no jump. -/
theorem seq {f : α → BindM β} (hm : Accounts k casts [] m post)
    (hf : ∀ a, post a → Accounts k casts' noted (f a) after) :
    Accounts k (fun r => casts r ++ casts' r) noted (m >>= f) after :=
  hm.bind hf

/-- A first step without anything to account for. -/
theorem next {f : α → BindM β} (hm : Quiet k m post)
    (hf : ∀ a, post a → Accounts k casts noted (f a) after) :
    Accounts k casts noted (m >>= f) after :=
  hm.bind hf

theorem congr (hm : Accounts k casts noted m post) (hc : ∀ r, (casts r).Perm (casts' r))
    (hn : noted = noted') : Accounts k casts' noted' m post := by
  intro s
  obtain ⟨ha, ⟨hleast, hmost⟩, hnoted⟩ := hm s
  refine ⟨ha, ⟨?_, ?_⟩, hn ▸ hnoted⟩
  · rwa [Setting.least, ← (hc _).countP_eq]
  · rwa [Setting.most, ← (hc _).countP_eq]

/-- The same places in another order. -/
theorem notes (hm : Accounts k casts noted m post)
    (hn : ∀ place, place ∈ noted ↔ place ∈ noted') : Accounts k casts noted' m post :=
  fun s => ⟨(hm s).1, (hm s).2.1, fun place => ((hm s).2.2 place).trans (or_congr_left (hn place))⟩

/-- A last step without anything to account for. -/
theorem last {f : α → BindM β} (hm : Accounts k casts noted m post)
    (hf : ∀ a, post a → Quiet k (f a) after) : Accounts k casts noted (m >>= f) after :=
  (hm.bind hf).congr (fun _ => .of_eq (List.append_nil _)) (List.append_nil _)

theorem imp (hm : Accounts k casts noted m post) {post' : α → Prop}
    (h : ∀ a, post a → post' a) : Accounts k casts noted m post' :=
  fun s => ⟨h _ (hm s).1, (hm s).2⟩

theorem map {f : α → β} (hm : Accounts k casts noted m post) (h : ∀ a, post a → after (f a)) :
    Accounts k casts noted (f <$> m) after :=
  hm.last fun a ha => .pure (h a ha)

/-- Casts that may not be looked at are passed over. -/
theorem without (h : casts' (.surely k.names) = []) (hm : Accounts k casts noted m post) :
    Accounts k (fun r => casts' r ++ casts r) noted m post := by
  intro s
  obtain ⟨ha, ⟨hleast, hmost⟩, hnoted⟩ := hm s
  refine ⟨ha, ⟨?_, ?_⟩, hnoted⟩
  · rwa [Setting.least, h]
  · simp only [Setting.most, List.countP_append] at hmost ⊢
    omega

/-- Casts that may not be looked at may be passed over. -/
theorem skip (h : casts (.surely k.names) = []) (hm : Quiet k m post) :
    Accounts k casts [] m post :=
  (without h hm).congr (fun _ => .of_eq (List.append_nil _)) rfl

/-- Casts are looked at that need not be. -/
theorem maybe {b : Reach → Bool} (h : b .everywhere = true)
    (hm : Accounts k casts noted m post) :
    Accounts k (fun r => if b r then casts r else []) noted m post := by
  intro s
  obtain ⟨ha, ⟨hleast, hmost⟩, hnoted⟩ := hm s
  refine ⟨ha, ⟨?_, ?_⟩, hnoted⟩
  · unfold Setting.least
    dsimp only
    split
    · exact hleast
    · exact Nat.le_trans (Nat.add_le_add_left (Nat.zero_le _) _) hleast
  · rwa [Setting.most, if_pos h]

theorem ite {p : Prop} [Decidable p] {n : BindM α} (hm : p → Accounts k casts noted m post)
    (hn : ¬ p → Accounts k casts noted n post) :
    Accounts k casts noted (if p then m else n) post := by
  split
  next h => exact hm h
  next h => exact hn h

/-- What refuses nothing and notes nothing. -/
theorem quiet (hr : ∀ s, (m s).2.refusals k.span = s.refusals k.span)
    (hn : ∀ s, (m s).2.referenced = s.referenced) : Quiet k m fun _ => True := by
  refine fun s => ⟨trivial, ⟨Nat.le_of_eq (hr s).symm, Nat.le_of_eq (hr s)⟩, fun place => ?_⟩
  rw [hn]
  simp

end Accounts

/-! ### Elementary steps -/

theorem refusals_push {s : State} {span : Span} {d : Diagnostic}
    (hd : d.message ≠ .noConversion) :
    State.refusals { s with diagnostics := s.diagnostics.push d } span = s.refusals span := by
  simp [State.refusals, Binding.refusals, hd]

theorem quiet_report {message : Message} (hm : message ≠ .noConversion) (span : Span)
    (arguments : List String) : Quiet k (report message span arguments) fun _ => True :=
  .quiet (fun _ => refusals_push hm) fun _ => rfl

theorem quiet_complain {d? : Option Diagnostic} (h : ∀ d ∈ d?, d.message ≠ .noConversion) :
    Quiet k (complain d?) fun _ => True := by
  cases d? with
  | none => exact .pure trivial
  | some d => exact .quiet (fun _ => refusals_push (h d rfl)) fun _ => rfl

theorem quiet_list (t : Ty) : Quiet k (list t) fun _ => True :=
  .quiet (fun _ => rfl) fun _ => rfl

/-- A type is what its syntax means. -/
theorem quiet_resolve (hc : c.In k) (type : TypeSyntax) :
    Quiet k (c.resolve type) (· = type.meaning k.names) := by
  refine fun s => ⟨?_, ⟨Nat.le_refl _, Nat.le_refl _⟩, fun place => ?_⟩
  · rw [← hc.names]
    exact fst_resolve c.names s.listing type
  · show place ∈ s.referenced ↔ _
    simp

/-- Contexts with the same labels in sight. -/
structure Context.Like (c c' : Context) : Prop where
  names : c'.names = c.names
  conversions : c'.conversions = c.conversions
  labels : ∀ name, c'.scopes.findLabel? name = c.scopes.findLabel? name

namespace Context

theorem Like.refl (c : Context) : c.Like c := ⟨rfl, rfl, fun _ => rfl⟩

theorem Like.trans {c' c'' : Context} (h : c.Like c') (h' : c'.Like c'') : c.Like c'' :=
  ⟨h'.names.trans h.names, h'.conversions.trans h.conversions,
    fun name => (h'.labels name).trans (h.labels name)⟩

theorem In.like {c' : Context} (hc : c.In k) (h : c.Like c') : c'.In k :=
  ⟨h.names.trans hc.names, h.conversions.trans hc.conversions⟩

theorem In.push (hc : c.In k) : c.push.In k := ⟨hc.names, hc.conversions⟩

theorem In.shadow (hc : c.In k) (i : Identifier) (t : Ty) : (c.shadow i t).In k := by
  unfold Context.shadow
  split
  · exact hc
  · exact ⟨hc.names, hc.conversions⟩

end Context

theorem quiet_declare (c : Context) (i : Identifier) (t : Ty) :
    Quiet k (c.declare i t) (c.Like ·) := by
  refine .ite (fun _ => .pure (.refl c)) fun _ => ?_
  split
  next scopes hs =>
    obtain ⟨-, rfl⟩ := ScopeChain.declareLocal?_eq_some_iff.mp hs
    exact .pure ⟨rfl, rfl, fun name => ScopeChain.findLabel?_shadow ..⟩
  · exact .next (quiet_report (by decide) _ _) fun _ _ => .pure (.refl c)

theorem message_of_mem_mismatch? {declared : List DeclaredConversion} {span : Span}
    {source target : Ty} :
    ∀ d ∈ Ty.mismatch? declared span source target, d.message ≠ .noConversion := by
  intro d hd
  unfold Ty.mismatch? at hd
  split at hd
  · simp at hd
  split at hd
  · simp at hd
  · simp at hd
  · simp at hd
  · obtain rfl := Option.some.inj hd
    simp [Diagnostic.of]
  · obtain rfl := Option.some.inj hd
    simp [Diagnostic.of]

theorem quiet_assign (c : Context) (e : Expr) (s t : Ty) :
    Quiet k (c.assign e s t) fun _ => True :=
  .ite (fun _ => .pure trivial) fun _ => quiet_complain message_of_mem_mismatch?

theorem quiet_require (c : Context) (e : Expr) (t : Ty) :
    Quiet k (c.require e t) fun _ => True := by
  refine quiet_complain fun d hd => ?_
  simp only [Ty.checkCondition] at hd
  split at hd
  · simp at hd
  · exact message_of_mem_mismatch? d hd

theorem quiet_rangeType (hc : c.In k) (type? : Option TypeSyntax) (source : Ty) :
    Quiet k (rangeType c type? source) fun _ => True := by
  cases type? with
  | some type => exact (quiet_resolve hc type).imp fun _ _ => trivial
  | none => exact .pure trivial

theorem Literal.isError_type (l : Literal) : l.type.isError = false := by
  unfold Literal.type
  split <;> rfl

/-- A literal has the type of its spelling; nothing is said of other expressions. -/
def Typed : Expr → Ty → Prop
  | .literal l, t => t = l.type
  | _, _ => True

/-- A cast that is refused is reported at its own place. -/
theorem accounts_refused (x : Cast) (arguments : List String) :
    Accounts k (fun _ => [x]) [] (report .noConversion x.span arguments) fun _ => True := by
  intro s
  have hreport : (report .noConversion x.span arguments s).2.refusals k.span =
      s.refusals k.span + if x.span = k.span then 1 else 0 := by
    show State.refusals { s with
      diagnostics := s.diagnostics.push (.of .noConversion x.span arguments) } k.span = _
    simp [State.refusals, Binding.refusals, Diagnostic.of, List.countP_singleton]
  refine ⟨trivial, ?_, fun place => ?_⟩
  · rw [hreport]
    by_cases hspan : x.span = k.span <;> simp [Setting.least, Setting.most, hspan]
    split <;> omega
  · show place ∈ s.referenced ↔ _
    simp

/-- A cast that is not refused for sure need not be. -/
theorem accounts_spared {x : Cast} (h : x.isRefused k.conversions = false) :
    Accounts k (fun _ => [x]) [] (pure ()) fun _ => True := by
  refine fun s => ⟨trivial, ⟨?_, Nat.le_add_right _ _⟩, fun place => ?_⟩
  · show s.refusals k.span + k.least (fun _ => [x]) ≤ s.refusals k.span
    simp [Setting.least, h]
  · show place ∈ s.referenced ↔ _
    simp

/-- A cast is refused at its own place, at most once, and surely if it is of a literal. -/
theorem accounts_requireCast (hc : c.In k) (range : Range) (type : TypeSyntax) (e : Expr)
    {source : Ty} (hs : Typed e source) :
    Accounts k (fun _ => [⟨range, type, e⟩]) []
      (c.requireCast range.toSpan source (type.meaning k.names)) fun _ => True := by
  let x : Cast := ⟨range, type, e⟩
  refine .ite (fun _ => accounts_refused x _) fun hspared => accounts_spared ?_
  rw [hc.conversions] at hspared
  unfold Cast.isRefused
  split
  next s l htype hoperand =>
    obtain rfl : type = .predefined _ s := htype
    obtain rfl : e = .literal l := hoperand
    rw [show source = l.type from hs, Literal.isError_type] at hspared
    simpa [TypeSyntax.meaning, Ty.isError] using hspared
  · rfl

/-! ### Expressions -/

mutual

theorem accounts_expression {c : Context} (hc : c.In k) (expected? : Option Ty) : (e : Expr) →
    Accounts k (e.casts ·) [] (expression c expected? e) fun d => Typed e d.valueType
  | .literal l => .pure rfl
  | .identifier _ | .thisWord _ | .predefinedType _ _ | .missing _ => .pure trivial
  | .parenthesized _ e => .last (accounts_expression hc none e) fun _ _ => .pure trivial
  | .binary _ left _ right => by
    refine .seq (accounts_expression hc none left) fun _ _ => ?_
    refine .last (accounts_expression hc none right) fun _ _ => ?_
    exact .next (quiet_list _) fun _ _ => .pure trivial
  | .assignment _ left _ right => by
    refine .seq (accounts_expression hc none left) fun _ _ => ?_
    refine .last (accounts_expression hc none right) fun _ _ => ?_
    exact .ite (fun _ => .next (quiet_assign c _ _ _) fun _ _ => .pure trivial) fun _ => .pure trivial
  | .conditional _ e t f => by
    refine .seq (accounts_expression hc none e) fun _ _ => .next (quiet_require c _ _) fun _ _ => ?_
    refine .seq (accounts_expression hc none t) fun _ _ => ?_
    exact .last (accounts_expression hc none f) fun _ _ => .pure trivial
  | .prefixUnary _ _ e =>
    .last (accounts_expression hc none e) fun _ _ => .next (quiet_list _) fun _ _ => .pure trivial
  | .postfixUnary _ e _ | .await _ e =>
    .last (accounts_expression hc none e) fun _ _ => .pure trivial
  | .cast range type e => by
    have hboth : Accounts k (fun r => e.casts r ++ [⟨range, type, e⟩]) []
        (expression c expected? (.cast range type e))
        fun d => Typed (.cast range type e) d.valueType := by
      refine .next (quiet_resolve hc type) fun target ht => ?_
      subst ht
      refine .seq (accounts_expression hc none e) fun d hd => ?_
      exact .last (accounts_requireCast hc range type e hd) fun _ _ => .pure trivial
    exact hboth.congr (fun r => List.perm_append_singleton _ _) rfl
  | .typeTest _ e _ type =>
    .last (accounts_expression hc none e) fun _ _ =>
      .next (quiet_resolve hc type) fun _ _ => .pure trivial
  | .memberAccess _ e _ _ => by
    refine .last (accounts_expression hc none e) fun d _ => ?_
    split
    · exact .pure trivial
    · exact .next (quiet_list _) fun _ _ => .pure trivial
  | .invocation range callee arguments => by
    have hrest (t : Ty) : Accounts k (Expr.allCasts · arguments) [] (do
        let _ ← expressions c arguments
        return Denotation.value t) fun d => Typed (.invocation range callee arguments) d.valueType :=
      .last (accounts_expressions hc arguments) fun _ _ => .pure trivial
    cases callee with
    | memberAccess _ e _ _ =>
      refine .seq (accounts_expression hc none e) fun _ _ => ?_
      exact .next (quiet_list _) fun t _ => hrest t
    | identifier i => exact hrest _
    | _ => exact .seq (accounts_expression hc none _) fun _ _ => hrest _
  | .elementAccess _ e arguments => by
    refine .seq (accounts_expression hc none e) fun _ _ => ?_
    exact .last (accounts_expressions hc arguments) fun _ _ => .pure trivial
  | .objectCreation _ type none none =>
    .next (quiet_resolve hc type) fun _ _ => .pure trivial
  | .objectCreation _ type none (some ⟨_, es⟩) => by
    refine .next (quiet_resolve hc type) fun t _ => ?_
    exact .last (accounts_properties hc t es) fun _ _ => .pure trivial
  | .objectCreation _ type (some arguments) none => by
    refine .next (quiet_resolve hc type) fun t _ => ?_
    exact .seq (accounts_expressions hc arguments) fun _ _ => .pure trivial
  | .objectCreation _ type (some arguments) (some ⟨_, es⟩) => by
    refine .next (quiet_resolve hc type) fun t _ => ?_
    refine .seq (accounts_expressions hc arguments) fun _ _ => ?_
    exact .last (accounts_properties hc t es) fun _ _ => .pure trivial
  | .arrayCreation _ type sizes none => by
    refine .next (quiet_resolve hc type) fun t _ => ?_
    exact .seq (accounts_expressions hc sizes) fun _ _ => .pure trivial
  | .arrayCreation _ type sizes (some ⟨_, es⟩) => by
    unfold expression
    refine .next (quiet_resolve hc type) fun t ht => ?_
    refine .seq (accounts_expressions hc sizes) fun _ _ => ?_
    dsimp only
    split
    · refine .maybe rfl ?_
      exact .last (accounts_elements hc _ _ es) fun _ _ => .pure trivial
    · refine .skip ?_ (.pure trivial)
      simp [Reach.surely, ← ht]
  | .implicitArrayCreation _ ⟨_, es⟩ => by
    refine .last (accounts_expressions hc es) fun _ _ => ?_
    split
    · exact .next (quiet_list _) fun _ _ => .pure trivial
    · exact .pure trivial
  | .initializer ⟨_, es⟩ => by
    unfold expression
    split
    · exact .last (accounts_elements hc _ _ es) fun _ _ => .pure trivial
    · exact .last (accounts_expressions hc es) fun _ _ => .pure trivial
  | .query _ ⟨_, type?, i, e⟩ body => by
    refine .seq (accounts_expression hc none e) fun _ _ => ?_
    refine .next (quiet_rangeType hc type? _) fun t _ => ?_
    exact .last (accounts_queryBody (hc.push.shadow i t) body) fun _ _ => .pure trivial

theorem accounts_expressions {c : Context} (hc : c.In k) : (es : List Expr) →
    Accounts k (Expr.allCasts · es) [] (expressions c es) fun _ => True
  | [] => .pure trivial
  | e :: es =>
    .seq (accounts_expression hc none e) fun _ _ =>
      .last (accounts_expressions hc es) fun _ _ => .pure trivial

theorem accounts_elements {c : Context} (hc : c.In k) (element : Ty) (rank : Nat) : (es : List Expr) →
    Accounts k (Expr.allCasts · es) [] (elements c element rank es) fun _ => True
  | [] => .pure trivial
  | e :: es => by
    refine .seq (accounts_expression hc _ e) fun _ _ => ?_
    have hrest := accounts_elements hc element rank es
    exact .ite (fun _ => hrest) fun _ => .next (quiet_assign c _ _ _) fun _ _ => hrest

theorem accounts_properties {c : Context} (hc : c.In k) (owner : Ty) : (es : List Expr) →
    Accounts k (Expr.propertyCasts · es) [] (properties c owner es) fun _ => True
  | [] => .pure trivial
  | e :: es => by
    have hrest := accounts_properties hc owner es
    cases e with
    | assignment _ left _ right =>
      refine .without rfl (.seq (accounts_expression hc none right) fun _ _ => ?_)
      split
      · exact .next (quiet_assign c _ _ _) fun _ _ => hrest
      · exact hrest
    | _ => exact .seq (accounts_expression hc none _) fun _ _ => hrest

theorem accounts_clauses {c : Context} (hc : c.In k) : (qs : List QueryClause) →
    Accounts k (QueryClause.allCasts · qs) [] (clauses c qs) (·.In k)
  | [] => .pure hc
  | .fromClause ⟨_, type?, i, e⟩ :: qs => by
    refine .seq (accounts_expression hc none e) fun _ _ => ?_
    refine .next (quiet_rangeType hc type? _) fun t _ => ?_
    exact accounts_clauses (hc.shadow i t) qs
  | .letClause _ i e :: qs =>
    .seq (accounts_expression hc none e) fun _ _ => accounts_clauses (hc.shadow i _) qs
  | .whereClause _ e :: qs =>
    .seq (accounts_expression hc none e) fun _ _ =>
      .next (quiet_require c _ _) fun _ _ => accounts_clauses hc qs
  | .orderByClause _ ks :: qs =>
    .seq (accounts_sortKeys hc ks) fun _ _ => accounts_clauses hc qs

theorem accounts_sortKeys {c : Context} (hc : c.In k) : (ks : List SortKey) →
    Accounts k (SortKey.allCasts · ks) [] (sortKeys c ks) fun _ => True
  | [] => .pure trivial
  | ⟨_, e, _⟩ :: ks => .seq (accounts_expression hc none e) fun _ _ => accounts_sortKeys hc ks

theorem accounts_ending {c : Context} (hc : c.In k) : (q : QueryEnding) →
    Accounts k (q.casts ·) [] (ending c q) fun _ => True
  | .select _ e => .last (accounts_expression hc none e) fun _ _ => .pure trivial
  | .group _ e key => by
    refine .seq (accounts_expression hc none e) fun _ _ => ?_
    refine .last (accounts_expression hc none key) fun _ _ => ?_
    exact .ite (fun _ => .pure trivial) fun _ => quiet_list _
  | .missing _ => .pure trivial

theorem accounts_queryBody {c : Context} (hc : c.In k) : (b : QueryBody) →
    Accounts k (b.casts ·) [] (queryBody c b) fun _ => True
  | ⟨_, qs, e, continuation?⟩ => by
    unfold queryBody QueryBody.casts
    refine .seq (accounts_clauses hc qs) fun c hc => .seq (accounts_ending hc e) fun t _ => ?_
    cases continuation? with
    | none => exact .ite (fun _ => .pure trivial) fun _ => quiet_list _
    | some continuation =>
      obtain ⟨_, i, body⟩ := continuation
      refine .ite (fun _ => .skip rfl (.pure trivial)) fun _ => ?_
      exact .maybe rfl (accounts_queryBody (hc.push.shadow i t) body)

end

end Binding

end CSharpFront
