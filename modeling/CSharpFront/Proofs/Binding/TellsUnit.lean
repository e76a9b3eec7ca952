import CSharpFront.Proofs.Binding.TellsStatements
/-!
What the binding of a whole unit tells. It goes on as long as it is not cancelled, and only then
something comes of all uses of labels.
-/

namespace CSharpFront

variable {ok : String → Prop}

/-! ### The names of declarations -/

def Block.names? : Option Block → List Identifier
  | some b => (Stmt.block b).names
  | none => []

mutual

/-- The parameters, variables and labels of the bodies in a type. -/
def TypeDeclaration.names : TypeDeclaration → List Identifier
  | ⟨_, _, _, _, members⟩ => ClassMember.allNames members

def ClassMember.names : ClassMember → List Identifier
  | .method m => m.parameters.map (·.identifier) ++ Block.names? m.body?
  | .conversion o => o.parameters.map (·.identifier) ++ Block.names? o.body?
  | .nestedType d => d.names
  | .field _ | .incomplete _ => []

def ClassMember.allNames : List ClassMember → List Identifier
  | [] => []
  | m :: ms => m.names ++ ClassMember.allNames ms

end

mutual

def Member.names : Member → List Identifier
  | .namespaceMember n => n.names
  | .typeMember d => d.names
  | .globalStatement s => s.names
  | .incomplete _ => []

def Member.allNames : List Member → List Identifier
  | [] => []
  | m :: ms => m.names ++ Member.allNames ms

def NamespaceDeclaration.names : NamespaceDeclaration → List Identifier
  | ⟨_, _, _, members⟩ => Member.allNames members

end

/-- The names of statements that stand among members are among those of the members. -/
theorem Member.allNames_globalStatements (u : CompilationUnit) :
    Stmt.allNames u.globalStatements ⊆ Member.allNames u.members := by
  unfold CompilationUnit.globalStatements
  induction u.members with
  | nil => exact List.nil_subset _
  | cons m ms ih =>
    rw [Member.allNames]
    cases m with
    | globalStatement s =>
      exact List.append_subset.mpr ⟨List.subset_append_left _ _,
        List.subset_append_of_subset_right _ ih⟩
    | namespaceMember | typeMember | incomplete =>
      exact List.subset_append_of_subset_right _ ih

/-- The types of fields and methods are what their syntax means. -/
theorem ClassMember.worded_of_mem_declares {names : NamedTypes} (h : names.Worded ok)
    (m : ClassMember) (isMethod : Bool) :
    ∀ p ∈ m.declares names isMethod, p.2.Worded ok := by
  unfold ClassMember.declares
  split
  · split
    · exact List.forall_mem_nil _
    · exact List.forall_mem_map.mpr fun _ _ => TypeSyntax.worded_meaning h _
  · split
    · split
      · exact List.forall_mem_nil _
      · exact List.forall_mem_singleton.mpr (TypeSyntax.worded_meaning h _)
    · exact List.forall_mem_nil _
  all_goals exact List.forall_mem_nil _

namespace Declarations

/-- Where names mean types with good names, so do those of fields and methods. -/
theorem worded_members {members : List Member} (h : (ofMembers members).names.Worded ok) :
    (ofMembers members).members.Worded ok := by
  have hmember (isMethod : Bool) (owner : Ty) (name : String) :
      ∀ t ∈ (ofMembers members).members.member? isMethod owner name, t.Worded ok := by
    intro t ht
    rw [member?_ofMembers] at ht
    obtain ⟨before, after, hentries, -⟩ := List.lookup_eq_some_iff.mp ht
    have hmem : (name, t) ∈ before ++ (name, t) :: after :=
      List.mem_append_right _ List.mem_cons_self
    rw [← hentries] at hmem
    obtain ⟨m, -, hm⟩ := List.mem_flatMap.mp hmem
    split at hm
    · exact m.2.worded_of_mem_declares h isMethod _ hm
    · cases hm
  exact fun owner name => ⟨hmember false owner name, hmember true owner name⟩

end Declarations

namespace Binding

variable {c : Context}

/-! ### Members of types -/

theorem says_field (hc : c.Worded ok) (f : Field) : Says ok (field c f) fun _ => True := by
  refine .next (says_resolve hc _) fun t ht => ?_
  induction f.declaration.declarators with
  | nil => exact .pure trivial
  | cons d ds ih =>
    rw [List.forM_eq_forM, List.forM_cons]
    refine .next (?_ : Says ok _ fun _ => True) fun _ _ => ih
    cases d.initializer? with
    | none => exact .pure trivial
    | some e => exact says_initialValue hc ht e

theorem says_parameters (hc : c.Worded ok) (ps : List Parameter)
    (hps : ∀ i ∈ ps.map (·.identifier), i.Worded ok) :
    Says ok (ps.foldlM (fun c p => do c.declare p.identifier (← c.resolve p.type)) c)
      (c.After ok ·) := by
  induction ps generalizing c with
  | nil => exact .pure hc.after
  | cons p ps ih =>
    obtain ⟨hp, hps⟩ := List.forall_mem_cons.mp hps
    rw [List.foldlM_cons]
    have hone : Says ok (do c.declare p.identifier (← c.resolve p.type)) (c.After ok ·) :=
      .next (says_resolve hc _) fun t ht => says_declare hc hp ht
    refine .next hone fun c' h => ?_
    exact (ih h.worded hps).imp fun _ h' => h.trans h'

theorem tells_body (hc : c.Worded ok) (h : c.Sees []) {returns? : Option Ty}
    (hr : ∀ t ∈ returns?, t.Worded ok) {ps : List Parameter} {b? : Option Block}
    (hnames : ∀ i ∈ ps.map (·.identifier) ++ Block.names? b?, i.Worded ok) :
    Tells ok (Block.labelUses? b?) (body c returns? ps b?) fun _ => True := by
  obtain ⟨hps, hb⟩ := List.forall_mem_append.mp hnames
  have hsees : Context.Sees { c with returns? } [] := h
  refine .next (says_parameters (hc.withReturns hr) ps hps) fun c' hc' => ?_
  cases b? with
  | none => exact .pure trivial
  | some b =>
    exact .last (tells_statement hc'.worded (hsees.after hc') (.block b) hb) fun _ _ =>
      .pure trivial

/-- What a binding tells that may be cancelled. It is not, if nobody ever asks for it. -/
def TellsAll (ok : String → Prop) (uses : List LabelUse) {α : Type} (m : Cancellable α)
    (post : α → Prop) : Prop :=
  ∀ polls s, (∃ a polls', (m.run polls s).1 = (.ok a, polls') ∧ post a ∧
      Told ok uses s (m.run polls s).2 ∧ (polls = none → polls' = none)) ∨
    polls ≠ none ∧ ∃ e, (m.run polls s).1.1 = .error e

namespace TellsAll

variable {α β : Type} {m : Cancellable α} {post : α → Prop} {after : β → Prop}
  {uses uses' : List LabelUse}

theorem pure {a : α} (h : post a) : TellsAll ok [] (Pure.pure a) post :=
  fun polls s => .inl ⟨a, polls, rfl, h, .refl ok s, id⟩

theorem lift {n : BindM α} (hn : Tells ok uses n post) : TellsAll ok uses (liftM n) post :=
  fun polls s => .inl ⟨(n s).1, polls, rfl, (hn s).1, (hn s).2, id⟩

theorem bind {f : α → Cancellable β} (hm : TellsAll ok uses m post)
    (hf : ∀ a, post a → TellsAll ok uses' (f a) after) :
    TellsAll ok (uses ++ uses') (m >>= f) after := by
  intro polls s
  have hrun : (m >>= f).run polls s =
      ExceptT.bindCont f (m.run polls s).1.1 (m.run polls s).1.2 (m.run polls s).2 := rfl
  rw [hrun]
  rcases hm polls s with ⟨a, polls', ha, hpost, htold, hnone⟩ | ⟨hne, e, he⟩
  · rw [ha]
    rcases hf a hpost polls' (m.run polls s).2 with ⟨b, polls'', hb, hafter, htold', hnone'⟩ |
      ⟨hne, e, he⟩
    · exact .inl ⟨b, polls'', hb, hafter, htold.trans htold', fun h => hnone' (hnone h)⟩
    · exact .inr ⟨fun h => hne (hnone h), e, he⟩
  · rw [he]
    exact .inr ⟨hne, e, rfl⟩

theorem next {f : α → Cancellable β} (hm : TellsAll ok [] m post)
    (hf : ∀ a, post a → TellsAll ok uses (f a) after) : TellsAll ok uses (m >>= f) after :=
  bind hm hf

theorem last {f : α → Cancellable β} (hm : TellsAll ok uses m post)
    (hf : ∀ a, post a → TellsAll ok [] (f a) after) : TellsAll ok uses (m >>= f) after := by
  have hboth := bind hm hf
  rwa [List.append_nil] at hboth

end TellsAll

theorem tellsAll_poll : TellsAll ok [] poll fun _ => True := by
  intro polls s
  cases polls with
  | none => exact .inl ⟨(), none, rfl, trivial, .refl ok s, id⟩
  | some n =>
    cases n with
    | zero => exact .inr ⟨Option.some_ne_none 0, .cancelled, rfl⟩
    | succ n =>
      exact .inl ⟨(), some n, rfl, trivial, .refl ok s, fun h => absurd h (Option.some_ne_none _)⟩

mutual

theorem tellsAll_typeDeclaration {c : Context} (hc : c.Worded ok) (h : c.Sees [])
    (container : String) : (d : TypeDeclaration) → (∀ i ∈ d.names, i.Worded ok) →
      TellsAll ok d.labelUses (typeDeclaration c container d) fun _ => True
  | ⟨_, _, _, i, ms⟩, hnames => by
    unfold typeDeclaration TypeDeclaration.labelUses
    cases hi : i.isMissing with
    | true => exact .pure trivial
    | false =>
      have howner : Context.Worded ok { c with owner? := c.names.find? (qualify container i.text) } :=
        ⟨hc.wording, hc.names, hc.members, hc.scopes, hc.names _, hc.returns⟩
      exact tellsAll_classMembers howner h _ ms hnames

theorem tellsAll_classMember {c : Context} (hc : c.Worded ok) (h : c.Sees []) (owner : String) :
    (m : ClassMember) → (∀ i ∈ m.names, i.Worded ok) →
      TellsAll ok m.labelUses (classMember c owner m) fun _ => True
  | .field f, _ => .lift (says_field hc f)
  | .method m, hnames => by
    have hnone : ∀ t ∈ (none : Option Ty), t.Worded ok := by
      intro t ht
      cases ht
    have hrest {returns? : Option Ty} (hr : ∀ t ∈ returns?, t.Worded ok) :
        TellsAll ok (Block.labelUses? m.body?) (do body c returns? m.parameters m.body?)
          fun _ => True :=
      .lift (tells_body hc h hr hnames)
    unfold classMember
    split
    next type _ =>
      have hresolve : Says ok (some <$> c.resolve type) fun t? => ∀ t ∈ t?, t.Worded ok :=
        (says_resolve hc type).map fun _ ht u hu => Option.some.inj hu ▸ ht
      exact .next (.lift hresolve) fun t? ht => hrest ht
    · exact hrest hnone
  | .conversion o, hnames => by
    refine .next (.lift (says_resolve hc _)) fun t ht => .lift (tells_body hc h ?_ hnames)
    intro u hu
    exact Option.some.inj hu ▸ ht
  | .nestedType d, hnames => tellsAll_typeDeclaration hc h owner d hnames
  | .incomplete _, _ => .pure trivial

theorem tellsAll_classMembers {c : Context} (hc : c.Worded ok) (h : c.Sees []) (owner : String) :
    (ms : List ClassMember) → (∀ i ∈ ClassMember.allNames ms, i.Worded ok) →
      TellsAll ok (ClassMember.allLabelUses ms) (classMembers c owner ms) fun _ => True
  | [], _ => .pure trivial
  | m :: ms, hnames => by
    obtain ⟨hm, hms⟩ := List.forall_mem_append.mp hnames
    refine .next tellsAll_poll fun _ _ => .bind (tellsAll_classMember hc h owner m hm) ?_
    exact fun _ _ => tellsAll_classMembers hc h owner ms hms

end

/-! ### Members of namespaces -/

/-- Scopes in which the statements outside types see some labels. -/
def SeesFrom (ok : String → Prop) (c : Context) (globals : List Identifier)
    (scopes : ScopeChain) : Prop :=
  scopes.Worded ok ∧ Context.Sees { c with scopes } [globals]

mutual

theorem tellsAll_member {c : Context} (hc : c.Worded ok) (h : c.Sees []) (container : String)
    {globals : List Identifier} {scopes : ScopeChain} (hg : SeesFrom ok c globals scopes) :
    (m : Member) → (∀ i ∈ m.names, i.Worded ok) →
      TellsAll ok (m.labelUses globals) (member c container scopes m) (SeesFrom ok c globals)
  | .namespaceMember n, hnames => tellsAll_namespace hc h container hg n hnames
  | .typeMember d, hnames =>
    .last (tellsAll_typeDeclaration hc h container d hnames) fun _ _ => .pure hg
  | .globalStatement s, hnames =>
    .last (.lift (tells_statement (hc.withScopes hg.1) hg.2 s hnames)) fun _ hc' =>
      .pure ⟨hc'.worded.scopes, fun name => (hc'.labels name).trans (hg.2 name)⟩
  | .incomplete _, _ => .pure hg

theorem tellsAll_members {c : Context} (hc : c.Worded ok) (h : c.Sees []) (container : String)
    {globals : List Identifier} {scopes : ScopeChain} (hg : SeesFrom ok c globals scopes) :
    (ms : List Member) → (∀ i ∈ Member.allNames ms, i.Worded ok) →
      TellsAll ok (Member.allLabelUses globals ms) (members c container scopes ms)
        (SeesFrom ok c globals)
  | [], _ => .pure hg
  | m :: ms, hnames => by
    obtain ⟨hm, hms⟩ := List.forall_mem_append.mp hnames
    refine .next tellsAll_poll fun _ _ => .bind (tellsAll_member hc h container hg m hm) ?_
    exact fun _ hg => tellsAll_members hc h container hg ms hms

theorem tellsAll_namespace {c : Context} (hc : c.Worded ok) (h : c.Sees []) (container : String)
    {globals : List Identifier} {scopes : ScopeChain} (hg : SeesFrom ok c globals scopes) :
    (n : NamespaceDeclaration) → (∀ i ∈ n.names, i.Worded ok) →
      TellsAll ok (n.labelUses globals) (namespaceDeclaration c container scopes n)
        (SeesFrom ok c globals)
  | ⟨_, _, _, ms⟩, hnames => tellsAll_members hc h _ hg ms hnames

end

theorem tellsAll_unit (hc : c.Worded ok) (h : c.SeesOwn [] []) {u : CompilationUnit}
    (hnames : ∀ i ∈ Member.allNames u.members, i.Worded ok) :
    TellsAll ok u.labelUses (unit c u) fun _ => True := by
  have hglobals : ∀ i ∈ Stmt.allNames u.globalStatements, i.Worded ok :=
    fun i hi => hnames i (Member.allNames_globalStatements u hi)
  refine .bind (.lift (tells_declareLabels hglobals hc h)) fun c' hc' => ?_
  refine .last (tellsAll_members hc h.sees "" ⟨hc'.1.scopes, hc'.2.sees⟩ u.members hnames) ?_
  exact fun _ _ => .pure trivial

/-- The context of the declarations of a unit, where the types that names mean have good names. -/
theorem Context.worded_of (w : Wording ok) {members : List Member}
    (h : (Declarations.ofMembers members).names.Worded ok) :
    (Context.of (.ofMembers members)).Worded ok where
  wording := w
  names := h
  members := Declarations.worded_members h
  scopes name l hl := by cases hl
  owner t ht := by cases ht
  returns t ht := by cases ht

/-- What is told of a unit after other reports, unless its binding is cancelled. -/
theorem told_bindUnit (w : Wording ok) {u : CompilationUnit}
    (htypes : (Declarations.ofMembers u.members).names.Worded ok)
    (hnames : ∀ i ∈ Member.allNames u.members, i.Worded ok) (before : Array Diagnostic)
    (polls : Polls) :
    (∃ polls' b, bindUnit u before polls = (.ok (), polls', b) ∧
        Told ok u.labelUses { diagnostics := before } b.state) ∨
      polls ≠ none ∧ ∃ e, (bindUnit u before polls).1 = .error e := by
  let ds := Declarations.ofMembers u.members
  let s : State := { listing := ds.listing, diagnostics := before }
  have hunit := tellsAll_unit (Context.worded_of w htypes) ⟨fun _ => rfl, fun _ => rfl⟩ hnames polls s
  rcases hunit with ⟨_, polls', hrun, -, ⟨hreports, hnoted⟩, -⟩ | ⟨hne, e, he⟩
  · refine .inl ⟨polls', ⟨ds, ((unit (.of ds) u).run polls s).2⟩, ?_, ⟨hreports, hnoted⟩⟩
    exact congrArg (fun r : Except Cancelled Unit × Polls => (r.1, r.2, _)) hrun
  · exact .inr ⟨hne, e, he⟩

end Binding

end CSharpFront
