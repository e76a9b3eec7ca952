import CSharpFront.Binding.Unit
import CSharpFront.Proofs.Binding.TellsStatements
/-!
Binding with one scope that is current. Here blocks, parts of statements, loops and queries enter
their scopes and leave them again, as they do the loops that they count. It does what binding does
where each construct is handed what it can see, and leaves where it stands as it was, but for the
variables of a declaration.
-/

namespace CSharpFront

/-- The chain with more variables in its innermost scope, the last first. -/
def ScopeChain.adding (c : ScopeChain) (ls : List (String × Local)) : ScopeChain :=
  { c with inner := { c.inner with locals := ls ++ c.inner.locals } }

theorem ScopeChain.adding_adding (c : ScopeChain) (ls ls' : List (String × Local)) :
    (c.adding ls).adding ls' = c.adding (ls' ++ ls) := by
  simp only [adding, List.append_assoc]

namespace Binding

/-- Where binding stands in a body. -/
@[ext] structure Frame where
  /-- The current scope with those around it. -/
  scopes? : Option ScopeChain
  loopDepth : Nat

namespace Frame

def push (f : Frame) : Frame := { f with scopes? := some (f.scopes?.elim {} (·.push)) }

def pop (f : Frame) : Frame := { f with scopes? := f.scopes?.bind (·.pop?) }

/-- What can be seen where binding stands. -/
def context (f : Frame) (c : Context) : Context :=
  { c with scopes := f.scopes?.getD {}, inLoop := f.loopDepth != 0 }

end Frame

/-- Binding that moves about. -/
abbrev FrameM := StateT Frame BindM

namespace InPlace

variable {α : Type}

/-! ### Moves -/

def inScope (m : FrameM α) : FrameM α := do
  modify Frame.push
  let a ← m
  modify Frame.pop
  return a

def inLoop (m : FrameM Unit) : FrameM Unit := do
  modify fun f => { f with loopDepth := f.loopDepth + 1 }
  m
  modify fun f => { f with loopDepth := f.loopDepth - 1 }

/-- What can be seen now. -/
def see (c : Context) : FrameM Context := return (← get).context c

/-- Puts a range variable into the current scope. -/
def shadow (i : Identifier) (t : Ty) : FrameM Unit :=
  unless i.isMissing do
    modify fun f => { f with scopes? := f.scopes?.map (·.shadow i.text ⟨t, i.span⟩) }

/-- Puts a variable into the current scope, which must not have one of that name. -/
def declare (i : Identifier) (t : Ty) : FrameM Unit :=
  unless i.isMissing do
    let f ← get
    match f.scopes? with
    | none => pure ()
    | some scopes =>
      match scopes.declareLocal? i.text ⟨t, i.span⟩ with
      | some scopes => set { f with scopes? := some scopes }
      | none => Binding.report .duplicateLocal i.span [i.text]

/-- Puts a label into the current scope, which must not have one of that name. -/
def declareLabel (l : Identifier) : FrameM Unit :=
  unless l.isMissing do
    let f ← get
    match f.scopes? with
    | none => pure ()
    | some scopes =>
      match scopes.declareLabel? l.text l.range.start with
      | some scopes => set { f with scopes? := some scopes }
      | none => Binding.report .duplicateLabel l.span [l.text]

def declareLabels (ss : List Stmt) : FrameM Unit := (ss.flatMap Stmt.labels).forM declareLabel

/-! ### Expressions -/

mutual

def expression (c : Context) (expected? : Option Ty) : Expr → FrameM Denotation
  | .identifier i => return (← see c).denote i
  | .literal l => return .value l.type
  | .thisWord _ => return .value (c.owner?.getD .error)
  | .predefinedType _ s => return .type (.special s)
  | .parenthesized _ e => return .value (← expression c none e).valueType
  | .binary _ left o right => do
    let s := (← expression c none left).valueType
    let t := (← expression c none right).valueType
    return .value (← list (.ofBinary o.kind s t))
  | .assignment _ left o right => do
    let s := (← expression c none left).valueType
    let t := (← expression c none right).valueType
    if o.kind = .punct .equals then c.assign right t s
    return .value s
  | .conditional _ condition whenTrue whenFalse => do
    c.require condition (← expression c none condition).valueType
    let s := (← expression c none whenTrue).valueType
    let t := (← expression c none whenFalse).valueType
    return .value (.choice c.conversions s t)
  | .prefixUnary _ o e => do
    let t := (← expression c none e).valueType
    return .value (← list (.ofUnary o.kind t))
  | .postfixUnary _ e _ => return .value (← expression c none e).valueType
  | .cast r type e => do
    let target ← c.resolve type
    let source := (← expression c none e).valueType
    c.requireCast r.toSpan source target
    return .value target
  | .typeTest _ e o type => do
    let _ ← expression c none e
    let t ← c.resolve type
    return .value (if o.kind = .keyword .kwIs then .bool else t)
  | .memberAccess _ e o name => do
    match ← expression c none e with
    | .unknown => return .unknown
    | d => return .value (← list (reach o (d.member c.members name.text false)))
  | .invocation _ callee arguments => do
    let t ←
      match callee with
      | .memberAccess _ e o name => do
        let d ← expression c none e
        list (reach o (d.member c.members name.text true))
      | .identifier i => pure ((c.ownMethod? i.text).getD .error)
      | e => do
        let _ ← expression c none e
        pure .error
    let _ ← expressions c arguments
    return .value t
  | .elementAccess _ e arguments => do
    let t := (← expression c none e).valueType
    let _ ← expressions c arguments
    return .value t.indexed
  | .objectCreation _ type arguments? initializer? => do
    let t ← c.resolve type
    match arguments? with
    | none => pure ()
    | some arguments => let _ ← expressions c arguments
    match initializer? with
    | none => pure ()
    | some ⟨_, es⟩ => properties c t es
    return .value t
  | .arrayCreation _ type sizes initializer? => do
    let t ← c.resolve type
    let _ ← expressions c sizes
    match initializer? with
    | none => pure ()
    | some ⟨_, es⟩ =>
      match t with
      | .array element rank => elements c element rank es
      | _ => pure ()
    return .value t
  | .implicitArrayCreation _ ⟨_, es⟩ => do
    let ts ← expressions c es
    match Ty.best? c.conversions ts with
    | some t => return .value (← list (t.toArray 1))
    | none => return .value .error
  | .initializer ⟨_, es⟩ => do
    match expected? with
    | some (.array element rank) => elements c element rank es
    | _ => let _ ← expressions c es
    return .value .error
  | .await _ e => do
    let _ ← expression c none e
    return .value .error
  | .query _ ⟨_, type?, i, e⟩ body => do
    let source := (← expression c none e).valueType
    let t ← rangeType c type? source
    return .value (← inScope do
      shadow i t
      queryBody c body)
  | .missing _ => return .unknown

def expressions (c : Context) : List Expr → FrameM (List Ty)
  | [] => return []
  | e :: es => do
    let t := (← expression c none e).valueType
    return t :: (← expressions c es)

def elements (c : Context) (element : Ty) (rank : Nat) : List Expr → FrameM Unit
  | [] => pure ()
  | e :: es => do
    let target := elementTarget e element rank
    let t := (← expression c (some target) e).valueType
    unless e.isInitializer do c.assign e t target
    elements c element rank es

def properties (c : Context) (owner : Ty) : List Expr → FrameM Unit
  | [] => pure ()
  | e :: es => do
    match e with
    | .assignment _ left _ right => do
      let t := (← expression c none right).valueType
      match assignedField? c owner left with
      | some target => c.assign right t target
      | none => pure ()
    | e => let _ ← expression c none e
    properties c owner es

def clauses (c : Context) : List QueryClause → FrameM Unit
  | [] => pure ()
  | q :: qs => do
    match q with
    | .fromClause ⟨_, type?, i, e⟩ => do
      let source := (← expression c none e).valueType
      shadow i (← rangeType c type? source)
    | .letClause _ i e => do
      shadow i (← expression c none e).valueType
    | .whereClause _ e => do
      c.require e (← expression c none e).valueType
    | .orderByClause _ keys => sortKeys c keys
    clauses c qs

def sortKeys (c : Context) : List SortKey → FrameM Unit
  | [] => pure ()
  | ⟨_, e, _⟩ :: keys => do
    let _ ← expression c none e
    sortKeys c keys

def ending (c : Context) : QueryEnding → FrameM Ty
  | .select _ e => return (← expression c none e).valueType
  | .group _ e k => do
    let element := (← expression c none e).valueType
    let key := (← expression c none k).valueType
    if element.isError || key.isError then return .error
    list (.grouping key element)
  | .missing _ => return .error

def queryBody (c : Context) : QueryBody → FrameM Ty
  | ⟨_, qs, e, continuation?⟩ => do
    clauses c qs
    let t ← ending c e
    if t.isError || t = .void then return .error
    match continuation? with
    | none => list (.sequence t)
    | some ⟨_, i, body⟩ => inScope do
      shadow i t
      queryBody c body

end

def initialValue (c : Context) (target : Ty) (e : Expr) : FrameM Unit := do
  let t := (← expression c (some target) e).valueType
  unless e.isInitializer do c.assign e t target

def condition (c : Context) (e : Expr) : FrameM Unit := do
  c.require e (← expression c none e).valueType

/-! ### Statements -/

def inferredType (c : Context) : Option Expr → FrameM Ty
  | some e => do
    let t := (← expression c none e).valueType
    return if t = .null ∨ t = .void then .error else t
  | none => return .error

def declarator (c : Context) (declared? : Option Ty) (d : Declarator) : FrameM Unit := do
  let t ←
    match declared?, d.initializer? with
    | some t, some e => do
      initialValue c t e
      pure t
    | some t, none => pure t
    | none, e? => inferredType c e?
  declare d.identifier t

def declareVariables (c : Context) (d : VariableDeclaration) : FrameM Unit := do
  let declared? ← if d.type.isVar then pure none else some <$> (c.resolve d.type : BindM Ty)
  d.declarators.forM (declarator c declared?)

def forHeader (c : Context) (h : ForHeader) : FrameM Unit := do
  match h.initializer? with
  | some (.declaration d) => declareVariables c d
  | some (.expressions es) => let _ ← expressions c es
  | none => pure ()
  match h.condition? with
  | some e => condition c e
  | none => pure ()
  let _ ← expressions c h.incrementors

def returnValue (c : Context) : Option Expr → FrameM Unit
  | none => pure ()
  | some e => do
    let t := (← expression c none e).valueType
    match c.returns? with
    | some target => unless target = .void do c.assign e t target
    | none => pure ()

/-- A statement that is part of another, which sees to its scope by itself if it is a block. -/
def embedded (s : Stmt) (m : FrameM Unit) : FrameM Unit :=
  if s.isBlock then m
  else inScope do
    declareLabels [s]
    m

mutual

def statement (c : Context) : Stmt → FrameM Unit
  | .block ⟨_, _, ss, _⟩ => inScope do
    declareLabels ss
    statements c ss
  | .empty _ => pure ()
  | .localDeclaration _ _ d _ => declareVariables c d
  | .expression _ e _ => do let _ ← expression c none e
  | .ifElse _ e s s? => do
    condition c e
    embedded s (statement c s)
    match s? with
    | some s => embedded s (statement c s)
    | none => pure ()
  | .whileLoop _ e s => do
    condition c e
    inLoop (embedded s (statement c s))
  | .doLoop _ s e => do
    inLoop (embedded s (statement c s))
    condition c e
  | .forLoop _ h s => inScope do
    forHeader c h
    inLoop (embedded s (statement c s))
  | .returnValue _ e? => returnValue c e?
  | .breakLoop r | .continueLoop r => do
    if (← get).loopDepth = 0 then Binding.report .noEnclosingLoop r.toSpan
  | .goto _ l => do goto (← see c) l
  | .labeled _ _ s => statement c s

def statements (c : Context) : List Stmt → FrameM Unit
  | [] => pure ()
  | s :: ss => do
    statement c s
    statements c ss

end

/-- Binds a body in a scope of its own, outside of any loop, and then stands nowhere. -/
def body (c : Context) (returns? : Option Ty) (parameters : List Parameter)
    (block? : Option Block) : FrameM Unit := do
  set (⟨some {}, 0⟩ : Frame)
  parameters.forM fun p => do declare p.identifier (← c.resolve p.type)
  match block? with
  | some b => statement { c with returns? } (.block b)
  | none => pure ()
  modify fun f => { f with scopes? := none }

end InPlace

end Binding

/-! ### What is reported of variables -/

/-- A parameter or a variable that is declared, after others in the same scope. -/
structure LocalDeclaration where
  identifier : Identifier
  earlier : List Identifier

namespace LocalDeclaration

/-- Whether the name has been declared before. -/
def isRepeated (d : LocalDeclaration) : Bool :=
  !d.identifier.isMissing && (Identifier.first? d.earlier d.identifier.text).isSome

/-- The report on a name that has been declared before. -/
def report (d : LocalDeclaration) : Diagnostic :=
  .of .duplicateLocal d.identifier.span [d.identifier.text]

end LocalDeclaration

namespace Binding

/-- Of variables that are declared twice it has been reported just what some declarations give rise
to. -/
def Redeclared (ds : List LocalDeclaration) (s s' : State) : Prop :=
  ∃ new, s'.diagnostics.toList = s.diagnostics.toList ++ new ∧
    new.filter (·.message = .duplicateLocal) =
      (ds.filter LocalDeclaration.isRepeated).map LocalDeclaration.report

namespace Redeclared

variable {ds ds' : List LocalDeclaration} {s s' s'' : State}

theorem refl (s : State) : Redeclared [] s s := ⟨[], (List.append_nil _).symm, rfl⟩

theorem trans (h : Redeclared ds s s') (h' : Redeclared ds' s' s'') :
    Redeclared (ds ++ ds') s s'' := by
  obtain ⟨new, hnew, hds⟩ := h
  obtain ⟨new', hnew', hds'⟩ := h'
  refine ⟨new ++ new', ?_, ?_⟩
  · rw [hnew', hnew, List.append_assoc]
  · rw [List.filter_append, hds, hds', List.filter_append, List.map_append]

end Redeclared

/-- A binding that says nothing of variables that are declared twice. -/
def Discreet {β : Type} (n : BindM β) : Prop := ∀ s, Redeclared [] s (n s).2

theorem Discreet.next {β γ : Type} {n : BindM β} {l : β → BindM γ} (hn : Discreet n)
    (hl : ∀ b, Discreet (l b)) : Discreet (n >>= l) :=
  fun s => (hn s).trans (hl (n s).1 (n s).2)

/-- Binding that moves about from a frame, and binding that is handed what it can see, which do the
same to the state. What they give and where the first one comes to are in a relation. -/
def Follows {α β : Type} (f : Frame) (ds : List LocalDeclaration) (m : FrameM α) (n : BindM β)
    (post : α → Frame → β → Prop) : Prop :=
  ∀ s, (m f s).2 = (n s).2 ∧ post (m f s).1.1 (m f s).1.2 (n s).1 ∧ Redeclared ds s (n s).2

/-- The same result is given, and binding stands where it stood. -/
abbrev Stays {α : Type} (f : Frame) (m : FrameM α) (n : BindM α) : Prop :=
  Follows f [] m n fun a f' b => a = b ∧ f' = f

section

variable {α β γ δ : Type} {f : Frame} {ds ds' : List LocalDeclaration} {m : FrameM α} {n : BindM β}
  {post : α → Frame → β → Prop} {after : γ → Frame → δ → Prop}

namespace Follows

theorem pure {a : α} {b : β} (h : post a f b) : Follows f [] (Pure.pure a) (Pure.pure b) post :=
  fun s => ⟨rfl, h, .refl s⟩

theorem bind {k : α → FrameM γ} {l : β → BindM δ} (hm : Follows f ds m n post)
    (hk : ∀ a f' b, post a f' b → Follows f' ds' (k a) (l b) after) :
    Follows f (ds ++ ds') (m >>= k) (n >>= l) after := by
  intro s
  obtain ⟨hrun, hpost, hds⟩ := hm s
  obtain ⟨hrun', hafter, hds'⟩ := hk _ _ _ hpost (n s).2
  have hstep : (m >>= k) f s = k (m f s).1.1 (m f s).1.2 (n s).2 :=
    congrArg (k (m f s).1.1 (m f s).1.2) hrun
  rw [hstep]
  exact ⟨hrun', hafter, hds.trans hds'⟩

theorem imp (hm : Follows f ds m n post) {post' : α → Frame → β → Prop}
    (h : ∀ a f' b, post a f' b → post' a f' b) : Follows f ds m n post' :=
  fun s => ⟨(hm s).1, h _ _ _ (hm s).2.1, (hm s).2.2⟩

/-- A step that has nothing to do with scopes. -/
theorem lift {n : BindM α} (h : Discreet n) : Stays f (liftM n) n :=
  fun s => ⟨rfl, ⟨rfl, rfl⟩, h s⟩

/-- In the end binding moves elsewhere. -/
theorem moving {g : Frame → Frame} {post' : PUnit → Frame → β → Prop} (hm : Follows f ds m n post)
    (h : ∀ a f' b, post a f' b → post' ⟨⟩ (g f') b) :
    Follows f ds (m >>= fun _ => modify g) n post' :=
  fun s => ⟨(hm s).1, h _ _ _ (hm s).2.1, (hm s).2.2⟩

/-- Where binding stands is known. -/
theorem get {k : Frame → FrameM α} (h : Follows f ds (k f) n post) :
    Follows f ds (MonadState.get >>= k) n post := h

theorem see {c : Context} {k : Context → FrameM α} (h : Follows f ds (k (f.context c)) n post) :
    Follows f ds (InPlace.see c >>= k) n post := h

/-- From somewhere else. -/
theorem setting {f' : Frame} {k : PUnit → FrameM α} (h : Follows f' ds (k ⟨⟩) n post) :
    Follows f ds (MonadStateOf.set f' >>= k) n post := h

theorem set {f' : Frame} {b : β} {post : PUnit → Frame → β → Prop} (h : post ⟨⟩ f' b) :
    Follows f [] (MonadStateOf.set f') (Pure.pure b) post :=
  fun s => ⟨rfl, h, .refl s⟩

theorem ite {p : Prop} [Decidable p] {m' : FrameM α} {n' : BindM β}
    (hm : p → Follows f ds m n post) (hn : ¬ p → Follows f ds m' n' post) :
    Follows f ds (if p then m else m') (if p then n else n') post := by
  split
  next h => exact hm h
  next h => exact hn h

/-- Only what is given on one side is made into something else. -/
theorem returns (hm : Follows f ds m n post) {l : β → δ} {post' : α → Frame → δ → Prop}
    (h : ∀ a f' b, post a f' b → post' a f' (l b)) :
    Follows f ds m (n >>= fun b => Pure.pure (l b)) post' :=
  fun s => ⟨(hm s).1, h _ _ _ (hm s).2.1, (hm s).2.2⟩

/-- A first step that stays. -/
theorem next {m : FrameM α} {n : BindM α} {k : α → FrameM γ} {l : α → BindM δ}
    (hm : Stays f m n) (hk : ∀ a, Follows f ds (k a) (l a) after) :
    Follows f ds (m >>= k) (n >>= l) after := by
  refine .bind hm ?_
  rintro a _ _ ⟨rfl, rfl⟩
  exact hk a

/-- A last step that stays, or at least reports nothing. -/
theorem last {k : α → FrameM γ} {l : β → BindM δ} (hm : Follows f ds m n post)
    (hk : ∀ a f' b, post a f' b → Follows f' [] (k a) (l b) after) :
    Follows f ds (m >>= k) (n >>= l) after := by
  have hboth := hm.bind hk
  rwa [List.append_nil] at hboth

theorem stay (a : α) : Stays f (Pure.pure a) (Pure.pure a) := .pure ⟨rfl, rfl⟩

end Follows

end

/-! ### Elementary steps -/

theorem discreet_of_eq {α : Type} {n : BindM α} (h : ∀ s, (n s).2.diagnostics = s.diagnostics) :
    Discreet n :=
  fun s => ⟨[], by rw [h, List.append_nil], rfl⟩

theorem discreet_report {message : Message} (hm : message ≠ .duplicateLocal) (span : Span)
    (arguments : List String) : Discreet (report message span arguments) :=
  fun _ => ⟨[.of message span arguments], Array.toList_push, by simp [Diagnostic.of, hm]⟩

theorem discreet_complain {d? : Option Diagnostic} (h : ∀ d ∈ d?, d.message ≠ .duplicateLocal) :
    Discreet (complain d?) := by
  cases d? with
  | none => exact .refl
  | some d => exact fun _ => ⟨[d], Array.toList_push, by simp [h d rfl]⟩

theorem discreet_list (t : Ty) : Discreet (list t) := discreet_of_eq fun _ => rfl

theorem discreet_resolve (c : Context) (type : TypeSyntax) : Discreet (c.resolve type) :=
  discreet_of_eq fun _ => rfl

theorem message_mismatch? {declared : List DeclaredConversion} {span : Span} {s t : Ty} :
    ∀ d ∈ Ty.mismatch? declared span s t, d.message ≠ .duplicateLocal := by
  intro d hd
  unfold Ty.mismatch? at hd
  split at hd
  · cases hd
  split at hd
  · cases hd
  · cases hd
  · cases hd
  all_goals
    obtain rfl := Option.some.inj hd
    exact nofun

theorem discreet_assign (c : Context) (e : Expr) (s t : Ty) : Discreet (c.assign e s t) := by
  unfold Context.assign
  split
  · exact .refl
  · exact discreet_complain message_mismatch?

theorem discreet_require (c : Context) (e : Expr) (t : Ty) : Discreet (c.require e t) := by
  refine discreet_complain fun d hd => ?_
  simp only [Ty.checkCondition] at hd
  split at hd
  · cases hd
  · exact message_mismatch? d hd

theorem discreet_requireCast (c : Context) (span : Span) (s t : Ty) :
    Discreet (c.requireCast span s t) := by
  unfold Context.requireCast
  split
  · exact discreet_report (by decide) span _
  · exact .refl

theorem discreet_rangeType (c : Context) (type? : Option TypeSyntax) (source : Ty) :
    Discreet (rangeType c type? source) := by
  cases type? with
  | none => exact .refl
  | some type => exact discreet_resolve c type

/-! ### Scopes -/

section

variable {α β : Type} {chain : ScopeChain} {depth : Nat} {ds : List LocalDeclaration}
  {m : FrameM α} {n : BindM β} {post : α → Frame → β → Prop} {c : Context}

/-- A scope that is entered and left again, whatever has been declared in it. -/
theorem Follows.inScope {rel : α → β → Prop}
    (h : Follows ⟨some chain.push, depth⟩ ds m n fun a f b =>
      rel a b ∧ ∃ inner, f = ⟨some ⟨inner, chain.toList⟩, depth⟩) :
    Follows ⟨some chain, depth⟩ ds (InPlace.inScope m) n fun a f b =>
      rel a b ∧ f = ⟨some chain, depth⟩ := by
  intro s
  obtain ⟨hrun, ⟨hrel, inner, hf⟩, hds⟩ := h s
  exact ⟨hrun, ⟨hrel, congrArg Frame.pop hf⟩, hds⟩

/-- The variable that a range variable makes. -/
def InPlace.ranged (i : Identifier) (t : Ty) : List (String × Local) :=
  if i.isMissing then [] else [(i.text, ⟨t, i.span⟩)]

theorem Frame.context_shadow (i : Identifier) (t : Ty) :
    (Frame.context ⟨some chain, depth⟩ c).shadow i t =
      Frame.context ⟨some (chain.adding (InPlace.ranged i t)), depth⟩ c := by
  unfold Context.shadow InPlace.ranged
  split <;> rfl

theorem Follows.shadow {i : Identifier} {t : Ty} {m : FrameM α}
    (h : Follows ⟨some (chain.adding (InPlace.ranged i t)), depth⟩ ds m n post) :
    Follows ⟨some chain, depth⟩ ds (InPlace.shadow i t >>= fun _ => m) n post := by
  unfold InPlace.ranged at h
  unfold InPlace.shadow
  split at h
  next hi => rwa [if_pos hi]
  next hi => rwa [if_neg hi]

/-- A scope with a range variable. -/
theorem Follows.inRangeScope {i : Identifier} {t : Ty} {m : FrameM α} {n : Context → BindM α}
    (h : Follows ⟨some (chain.push.adding (InPlace.ranged i t)), depth⟩ [] m
      (n (Frame.context ⟨some (chain.push.adding (InPlace.ranged i t)), depth⟩ c)) fun a f b =>
        a = b ∧ ∃ added,
          f = ⟨some ((chain.push.adding (InPlace.ranged i t)).adding added), depth⟩) :
    Stays ⟨some chain, depth⟩ (InPlace.inScope do
      InPlace.shadow i t
      m) (n ((Frame.context ⟨some chain, depth⟩ c).push.shadow i t)) := by
  rw [← Frame.context_shadow] at h
  exact .inScope (.shadow (h.imp fun _ _ _ ⟨hab, _, hf⟩ => ⟨hab, _, hf⟩))

/-- The current scope has some more variables. -/
def Grows (c : Context) (chain : ScopeChain) (depth : Nat) (f : Frame) (c' : Context) : Prop :=
  ∃ added, f = ⟨some (chain.adding added), depth⟩ ∧ c' = f.context c

theorem Follows.shadowing {i : Identifier} {t : Ty} {m : FrameM Unit} {n : Context → BindM Context}
    (h : Follows ⟨some (chain.adding (InPlace.ranged i t)), depth⟩ [] m
      (n (Frame.context ⟨some (chain.adding (InPlace.ranged i t)), depth⟩ c)) fun _ =>
        Grows c (chain.adding (InPlace.ranged i t)) depth) :
    Follows ⟨some chain, depth⟩ [] (InPlace.shadow i t >>= fun _ => m)
      (n ((Frame.context ⟨some chain, depth⟩ c).shadow i t)) fun _ => Grows c chain depth := by
  rw [Frame.context_shadow]
  refine .shadow (h.imp ?_)
  rintro _ _ _ ⟨added, rfl, rfl⟩
  exact ⟨added ++ InPlace.ranged i t, by rw [ScopeChain.adding_adding], rfl⟩

end

/-! ### Expressions -/

mutual

theorem stays_expression {c : Context} (chain : ScopeChain) (depth : Nat) (expected? : Option Ty) :
    (e : Expr) → Stays ⟨some chain, depth⟩ (InPlace.expression c expected? e)
      (expression (Frame.context ⟨some chain, depth⟩ c) expected? e)
  | .identifier _ | .literal _ | .thisWord _ | .predefinedType _ _ | .missing _ => .stay _
  | .parenthesized _ e | .postfixUnary _ e _ | .await _ e =>
    .next (stays_expression chain depth none e) fun _ => .stay _
  | .binary _ left _ right => by
    refine .next (stays_expression chain depth none left) fun _ => ?_
    refine .next (stays_expression chain depth none right) fun _ => ?_
    exact .next (.lift (discreet_list _)) fun _ => .stay _
  | .assignment _ left _ right => by
    refine .next (stays_expression chain depth none left) fun _ => ?_
    refine .next (stays_expression chain depth none right) fun _ => ?_
    exact .ite (fun _ => .next (.lift (discreet_assign c _ _ _)) fun _ => .stay _) fun _ => .stay _
  | .conditional _ e t f => by
    refine .next (stays_expression chain depth none e) fun _ => ?_
    refine .next (.lift (discreet_require c _ _)) fun _ => ?_
    refine .next (stays_expression chain depth none t) fun _ => ?_
    exact .next (stays_expression chain depth none f) fun _ => .stay _
  | .prefixUnary _ _ e =>
    .next (stays_expression chain depth none e) fun _ =>
      .next (.lift (discreet_list _)) fun _ => .stay _
  | .cast _ type e => by
    refine .next (.lift (discreet_resolve _ type)) fun _ => ?_
    refine .next (stays_expression chain depth none e) fun _ => ?_
    exact .next (.lift (discreet_requireCast c _ _ _)) fun _ => .stay _
  | .typeTest _ e _ type => by
    refine .next (stays_expression chain depth none e) fun _ => ?_
    exact .next (.lift (discreet_resolve _ type)) fun _ => .stay _
  | .memberAccess _ e _ _ => by
    refine .next (stays_expression chain depth none e) fun d => ?_
    cases d with
    | unknown => exact .stay _
    | value | type => exact .next (.lift (discreet_list _)) fun _ => .stay _
  | .invocation _ callee arguments => by
    have hrest (t : Ty) : Stays ⟨some chain, depth⟩
        (do
          let _ ← InPlace.expressions c arguments
          return Denotation.value t)
        (do
          let _ ← expressions (Frame.context ⟨some chain, depth⟩ c) arguments
          return Denotation.value t) :=
      .next (stays_expressions chain depth arguments) fun _ => .stay _
    cases callee with
    | memberAccess _ e _ _ =>
      refine .next (stays_expression chain depth none e) fun _ => ?_
      exact .next (.lift (discreet_list _)) hrest
    | identifier _ => exact hrest _
    | _ => exact .next (stays_expression chain depth none _) fun _ => hrest _
  | .elementAccess _ e arguments => by
    refine .next (stays_expression chain depth none e) fun _ => ?_
    exact .next (stays_expressions chain depth arguments) fun _ => .stay _
  | .objectCreation _ type none none =>
    .next (.lift (discreet_resolve _ type)) fun _ => .stay _
  | .objectCreation _ type none (some ⟨_, es⟩) => by
    refine .next (.lift (discreet_resolve _ type)) fun t => ?_
    exact .next (stays_properties chain depth t es) fun _ => .stay _
  | .objectCreation _ type (some arguments) none => by
    refine .next (.lift (discreet_resolve _ type)) fun _ => ?_
    exact .next (stays_expressions chain depth arguments) fun _ => .stay _
  | .objectCreation _ type (some arguments) (some ⟨_, es⟩) => by
    refine .next (.lift (discreet_resolve _ type)) fun t => ?_
    refine .next (stays_expressions chain depth arguments) fun _ => ?_
    exact .next (stays_properties chain depth t es) fun _ => .stay _
  | .arrayCreation _ type sizes none => by
    refine .next (.lift (discreet_resolve _ type)) fun _ => ?_
    exact .next (stays_expressions chain depth sizes) fun _ => .stay _
  | .arrayCreation _ type sizes (some ⟨_, es⟩) => by
    refine .next (.lift (discreet_resolve _ type)) fun t => ?_
    refine .next (stays_expressions chain depth sizes) fun _ => ?_
    cases t with
    | array element rank =>
      exact .next (stays_elements chain depth element rank es) fun _ => .stay _
    | _ => exact .stay _
  | .implicitArrayCreation _ ⟨_, es⟩ => by
    refine .next (stays_expressions chain depth es) fun ts => ?_
    dsimp only [Frame.context]
    cases Ty.best? c.conversions ts with
    | none => exact .stay _
    | some t => exact .next (.lift (discreet_list _)) fun _ => .stay _
  | .initializer ⟨_, es⟩ => by
    have hrest : Stays ⟨some chain, depth⟩
        (do
          let _ ← InPlace.expressions c es
          return Denotation.value .error)
        (do
          let _ ← expressions (Frame.context ⟨some chain, depth⟩ c) es
          return Denotation.value .error) :=
      .next (stays_expressions chain depth es) fun _ => .stay _
    cases expected? with
    | none => exact hrest
    | some t =>
      cases t with
      | array element rank =>
        exact .next (stays_elements chain depth element rank es) fun _ => .stay _
      | _ => exact hrest
  | .query _ ⟨_, type?, i, e⟩ body => by
    refine .next (stays_expression chain depth none e) fun _ => ?_
    refine .next (.lift (discreet_rangeType _ type? _)) fun t => ?_
    exact .next (.inRangeScope (n := (queryBody · body)) (follows_queryBody _ depth body)) fun _ =>
      .stay _

theorem stays_expressions {c : Context} (chain : ScopeChain) (depth : Nat) : (es : List Expr) →
    Stays ⟨some chain, depth⟩ (InPlace.expressions c es)
      (expressions (Frame.context ⟨some chain, depth⟩ c) es)
  | [] => .stay _
  | e :: es =>
    .next (stays_expression chain depth none e) fun _ =>
      .next (stays_expressions chain depth es) fun _ => .stay _

theorem stays_elements {c : Context} (chain : ScopeChain) (depth : Nat) (element : Ty)
    (rank : Nat) : (es : List Expr) →
      Stays ⟨some chain, depth⟩ (InPlace.elements c element rank es)
        (elements (Frame.context ⟨some chain, depth⟩ c) element rank es)
  | [] => .stay _
  | e :: es => by
    refine .next (stays_expression chain depth (some _) e) fun _ => ?_
    have hrest := stays_elements (c := c) chain depth element rank es
    exact .ite (fun _ => hrest) fun _ => .next (.lift (discreet_assign c _ _ _)) fun _ => hrest

theorem stays_properties {c : Context} (chain : ScopeChain) (depth : Nat) (owner : Ty) :
    (es : List Expr) → Stays ⟨some chain, depth⟩ (InPlace.properties c owner es)
      (properties (Frame.context ⟨some chain, depth⟩ c) owner es)
  | [] => .stay _
  | e :: es => by
    have hrest := stays_properties (c := c) chain depth owner es
    cases e with
    | assignment _ left _ right =>
      refine .next (stays_expression chain depth none right) fun _ => ?_
      cases left with
      | identifier i =>
        dsimp only [Frame.context, assignedField?]
        cases c.members.field? owner i.text with
        | none => exact hrest
        | some target => exact .next (.lift (discreet_assign c _ _ _)) fun _ => hrest
      | _ => exact hrest
    | _ => exact .next (stays_expression chain depth none _) fun _ => hrest

theorem follows_clauses {c : Context} (chain : ScopeChain) (depth : Nat) :
    (qs : List QueryClause) → Follows ⟨some chain, depth⟩ [] (InPlace.clauses c qs)
      (clauses (Frame.context ⟨some chain, depth⟩ c) qs) fun _ => Grows c chain depth
  | [] => .pure ⟨[], rfl, rfl⟩
  | .fromClause ⟨_, type?, i, e⟩ :: qs => by
    refine .next (stays_expression chain depth none e) fun _ => ?_
    refine .next (.lift (discreet_rangeType _ type? _)) fun t => ?_
    exact .shadowing (n := (clauses · qs)) (follows_clauses _ depth qs)
  | .letClause _ i e :: qs =>
    .next (stays_expression chain depth none e) fun _ =>
      .shadowing (n := (clauses · qs)) (follows_clauses _ depth qs)
  | .whereClause _ e :: qs => by
    refine .next (stays_expression chain depth none e) fun _ => ?_
    exact .next (.lift (discreet_require c _ _)) fun _ => follows_clauses chain depth qs
  | .orderByClause _ ks :: qs =>
    .next (stays_sortKeys chain depth ks) fun _ => follows_clauses chain depth qs

theorem stays_sortKeys {c : Context} (chain : ScopeChain) (depth : Nat) : (ks : List SortKey) →
    Stays ⟨some chain, depth⟩ (InPlace.sortKeys c ks)
      (sortKeys (Frame.context ⟨some chain, depth⟩ c) ks)
  | [] => .stay _
  | ⟨_, e, _⟩ :: ks =>
    .next (stays_expression chain depth none e) fun _ => stays_sortKeys chain depth ks

theorem stays_ending {c : Context} (chain : ScopeChain) (depth : Nat) : (q : QueryEnding) →
    Stays ⟨some chain, depth⟩ (InPlace.ending c q)
      (ending (Frame.context ⟨some chain, depth⟩ c) q)
  | .select _ e => .next (stays_expression chain depth none e) fun _ => .stay _
  | .group _ e key => by
    refine .next (stays_expression chain depth none e) fun _ => ?_
    refine .next (stays_expression chain depth none key) fun _ => ?_
    exact .ite (fun _ => .stay _) fun _ => .lift (discreet_list _)
  | .missing _ => .stay _

theorem follows_queryBody {c : Context} (chain : ScopeChain) (depth : Nat) : (b : QueryBody) →
    Follows ⟨some chain, depth⟩ [] (InPlace.queryBody c b)
      (queryBody (Frame.context ⟨some chain, depth⟩ c) b) fun t f t' =>
        t = t' ∧ ∃ added, f = ⟨some (chain.adding added), depth⟩
  | ⟨_, qs, e, continuation?⟩ => by
    unfold queryBody InPlace.queryBody
    refine .bind (follows_clauses chain depth qs) ?_
    rintro _ _ _ ⟨added, rfl, rfl⟩
    refine .next (stays_ending (chain.adding added) depth e) fun t => ?_
    refine .ite (fun _ => .pure ⟨rfl, added, rfl⟩) fun _ => ?_
    cases continuation? with
    | none => exact (Follows.lift (discreet_list _)).imp fun _ _ _ h => ⟨h.1, added, h.2⟩
    | some continuation =>
      obtain ⟨_, i, body⟩ := continuation
      have hbody : Stays ⟨some (chain.adding added), depth⟩ (InPlace.inScope do
          InPlace.shadow i t
          InPlace.queryBody c body)
          (queryBody ((Frame.context ⟨some (chain.adding added), depth⟩ c).push.shadow i t) body) :=
        .inRangeScope (n := (queryBody · body)) (follows_queryBody _ depth body)
      exact hbody.imp fun _ _ _ h => ⟨h.1, added, h.2⟩

end

end Binding

end CSharpFront
