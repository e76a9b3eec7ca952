import CSharpFront.Binding.Unit
import CSharpFront.Proofs.Binding.InStepBodies
/-!
Binding units in step. The declarations of a unit know no places, so that they are the same in each
layout; then all bodies are bound in step, up to where the stage is cancelled.
-/

namespace CSharpFront

variable {l : Relayout}

/-! ### Declarations in two layouts -/

mutual

theorem TypeDeclaration.withNested_relaid (container : String) :
    (d : TypeDeclaration) → {d' : TypeDeclaration} → d.Relaid l d' →
      List.Forall₂ (Keyed (TypeDeclaration.Relaid l)) (d.withNested container)
        (d'.withNested container)
  | ⟨r, isStruct, modifiers, i, ms⟩, _, .mk _ r' _ _ hi hms => by
    unfold TypeDeclaration.withNested
    rw [hi.isMissing, hi.text]
    split
    · exact .nil
    · exact .cons ⟨rfl, .mk r r' isStruct modifiers hi hms⟩ (ClassMember.allNested_relaid _ ms hms)

theorem ClassMember.nested_relaid (container : String) :
    (m : ClassMember) → {m' : ClassMember} → m.Relaid l m' →
      List.Forall₂ (Keyed (TypeDeclaration.Relaid l)) (m.nested container) (m'.nested container)
  | .nestedType d, _, .nestedType hd => d.withNested_relaid container hd
  | .field _, _, .field _ | .method _, _, .method _ | .conversion _, _, .conversion _
  | .incomplete _, _, .incomplete _ _ => .nil

theorem ClassMember.allNested_relaid (container : String) :
    (ms : List ClassMember) → {ms' : List ClassMember} →
      List.Forall₂ (ClassMember.Relaid l) ms ms' →
      List.Forall₂ (Keyed (TypeDeclaration.Relaid l)) (ClassMember.allNested container ms)
        (ClassMember.allNested container ms')
  | [], _, .nil => .nil
  | m :: ms, _, .cons hm hms =>
    List.rel_append (m.nested_relaid container hm) (ClassMember.allNested_relaid container ms hms)

end

mutual

theorem TypeDeclaration.ownMembers_relaid (container : String) :
    (d : TypeDeclaration) → {d' : TypeDeclaration} → d.Relaid l d' →
      List.Forall₂ (Keyed (ClassMember.Relaid l)) (d.ownMembers container)
        (d'.ownMembers container)
  | ⟨_, _, _, _, ms⟩, _, .mk _ _ _ _ hi hms => by
    unfold TypeDeclaration.ownMembers
    rw [hi.isMissing, hi.text]
    split
    · exact .nil
    · exact ClassMember.allOwned_relaid _ ms hms

theorem ClassMember.owned_relaid (owner : String) :
    (m : ClassMember) → {m' : ClassMember} → m.Relaid l m' →
      List.Forall₂ (Keyed (ClassMember.Relaid l)) (m.owned owner) (m'.owned owner)
  | .nestedType d, _, .nestedType hd => d.ownMembers_relaid owner hd
  | .field _, _, .field h => .cons ⟨rfl, .field h⟩ .nil
  | .method _, _, .method h => .cons ⟨rfl, .method h⟩ .nil
  | .conversion _, _, .conversion h => .cons ⟨rfl, .conversion h⟩ .nil
  | .incomplete _, _, .incomplete r r' => .cons ⟨rfl, .incomplete r r'⟩ .nil

theorem ClassMember.allOwned_relaid (owner : String) :
    (ms : List ClassMember) → {ms' : List ClassMember} →
      List.Forall₂ (ClassMember.Relaid l) ms ms' →
      List.Forall₂ (Keyed (ClassMember.Relaid l)) (ClassMember.allOwned owner ms)
        (ClassMember.allOwned owner ms')
  | [], _, .nil => .nil
  | m :: ms, _, .cons hm hms =>
    List.rel_append (m.owned_relaid owner hm) (ClassMember.allOwned_relaid owner ms hms)

end

mutual

theorem Member.types_relaid (container : String) :
    (m : Member) → {m' : Member} → m.Relaid l m' →
      List.Forall₂ (Keyed (TypeDeclaration.Relaid l)) (m.types container) (m'.types container)
  | .namespaceMember n, _, .namespaceMember hn => n.types_relaid container hn
  | .typeMember _, _, .typeMember hd => .cons ⟨rfl, hd⟩ .nil
  | .globalStatement _, _, .globalStatement _ | .incomplete _, _, .incomplete _ _ => .nil

theorem Member.allTypes_relaid (container : String) :
    (ms : List Member) → {ms' : List Member} → List.Forall₂ (Member.Relaid l) ms ms' →
      List.Forall₂ (Keyed (TypeDeclaration.Relaid l)) (Member.allTypes container ms)
        (Member.allTypes container ms')
  | [], _, .nil => .nil
  | m :: ms, _, .cons hm hms =>
    List.rel_append (m.types_relaid container hm) (Member.allTypes_relaid container ms hms)

theorem NamespaceDeclaration.types_relaid (container : String) :
    (n : NamespaceDeclaration) → {n' : NamespaceDeclaration} → n.Relaid l n' →
      List.Forall₂ (Keyed (TypeDeclaration.Relaid l)) (n.types container) (n'.types container)
  | ⟨_, name, _, ms⟩, _, .mk _ _ _ _ hname hms => by
    unfold NamespaceDeclaration.types
    rw [name.dotted_relaid hname]
    exact Member.allTypes_relaid _ ms hms

end

/-- Folds over items in a relation that the steps do not see. -/
theorem foldl_eq_of_forall₂ {α β σ : Type} {rel : α → β → Prop} {f : σ → α → σ} {g : σ → β → σ}
    {as : List α} {bs : List β} (h : List.Forall₂ rel as bs) (s : σ)
    (hf : ∀ s a b, rel a b → f s a = g s b) : as.foldl f s = bs.foldl g s := by
  induction h generalizing s with
  | nil => rfl
  | cons hab _ ih => rw [List.foldl_cons, List.foldl_cons, hf s _ _ hab, ih]

namespace Declarations

variable (ds : Declarations)

theorem addType_relaid (name : String) {d d' : TypeDeclaration} (h : d.Relaid l d') :
    ds.addType name d = ds.addType name d' := by
  cases h with
  | mk _ _ _ _ hi _ => simp only [addType, hi.text]

theorem resolve_relaid {type type' : TypeSyntax} (h : type.Relaid l type') :
    ds.resolve type = ds.resolve type' := by
  rw [resolve, resolve, type.resolve_relaid _ h]

theorem addField_relaid (owner : Ty) {f f' : Field} (h : f.Relaid l f') :
    ds.addField owner f = ds.addField owner f' := by
  have hidentifiers : List.Forall₂ (Identifier.Relaid l)
      (f.declaration.declarators.map (·.identifier))
      (f'.declaration.declarators.map (·.identifier)) :=
    List.rel_map (fun _ _ hv => Declarator.Relaid.identifier hv) h.declaration.declarators
  have hnames : List.Forall₂ (Identifier.Relaid l)
      ((f.declaration.declarators.map (·.identifier)).filter (!·.isMissing))
      ((f'.declaration.declarators.map (·.identifier)).filter (!·.isMissing)) :=
    List.rel_filter (fun i i' hi => by simp only [hi.isMissing]) hidentifiers
  simp only [addField, ds.resolve_relaid h.declaration.type]
  congr 1
  exact foldl_eq_of_forall₂ hnames _ fun ms i i' hi => congrArg (ms.declareField owner · _) hi.text

theorem addMethod_relaid (owner : Ty) {m m' : Method} (h : m.Relaid l m') :
    ds.addMethod owner m = ds.addMethod owner m' := by
  unfold addMethod
  rcases h.returnType.none_or_some with ⟨ha, hb⟩ | ⟨_, _, ha, hb, ht⟩
  · rw [ha, hb]
  · simp only [ha, hb, ds.resolve_relaid ht, h.identifier.isMissing, h.identifier.text]

theorem addConversion_relaid {o o' : ConversionOperator} (h : o.Relaid l o') :
    ds.addConversion o = ds.addConversion o' := by
  have hkind : o.isImplicit = o'.isImplicit := by
    rw [ConversionOperator.isImplicit, ConversionOperator.isImplicit, h.kind.kind]
  unfold addConversion
  rw [ds.resolve_relaid h.type, hkind]
  have hps := h.parameters
  generalize o.parameters = ps, o'.parameters = ps' at hps
  cases hps with
  | nil => rfl
  | cons hp _ => simp only [Declarations.resolve_relaid _ hp.type]

theorem addMember_relaid (owner : String) {m m' : ClassMember} (h : m.Relaid l m') :
    ds.addMember owner m = ds.addMember owner m' := by
  unfold addMember
  split
  · rfl
  · cases h with
    | field h => exact ds.addField_relaid _ h
    | method h => exact ds.addMethod_relaid _ h
    | conversion h => exact ds.addConversion_relaid h
    | nestedType | incomplete => rfl

/-- What a unit declares does not depend on the layout. -/
theorem ofMembers_relaid {ms ms' : List Member} (h : List.Forall₂ (Member.Relaid l) ms ms') :
    ofMembers ms = ofMembers ms' := by
  have htypes := Member.allTypes_relaid "" ms h
  have hnested := List.rel_flatMap htypes fun (a : String × TypeDeclaration) b hab =>
    (hab.1 ▸ a.2.withNested_relaid a.1 hab.2 : List.Forall₂ (Keyed (TypeDeclaration.Relaid l))
      (a.2.withNested a.1) (b.2.withNested b.1))
  have hmembers := List.rel_flatMap htypes fun (a : String × TypeDeclaration) b hab =>
    (hab.1 ▸ a.2.ownMembers_relaid a.1 hab.2 : List.Forall₂ (Keyed (ClassMember.Relaid l))
      (a.2.ownMembers a.1) (b.2.ownMembers b.1))
  have hnamed := foldl_eq_of_forall₂ hnested ({} : Declarations)
    fun ds a b hab => (by rw [hab.1, ds.addType_relaid _ hab.2] :
      ds.addType a.1 a.2 = ds.addType b.1 b.2)
  exact (congrArg (fun ds => List.foldl _ ds _) hnamed).trans
    (foldl_eq_of_forall₂ hmembers _ fun ds a b hab =>
      (by rw [hab.1, ds.addMember_relaid _ hab.2] : ds.addMember a.1 a.2 = ds.addMember b.1 b.2))

end Declarations

namespace Binding

variable {l : Rerun} {c c' : Context}

/-! ### Members of types -/

theorem inStep_field (hc : c.Relaid l c') {f f' : Field} (h : f.Relaid l f') :
    InStep l Eq (field c f) (field c' f') := by
  apply InStep.same (inStep_resolve hc h.declaration.type)
  intro t
  refine .forM h.declaration.declarators fun d d' hd => ?_
  rcases hd.initializer.none_or_some with ⟨ha, hb⟩ | ⟨_, _, ha, hb, he⟩
  · rw [ha, hb]
    exact .pure rfl
  · rw [ha, hb]
    exact inStep_initialValue hc t he

theorem inStep_body (hc : c.Relaid l c') (returns? : Option Ty) {ps ps' : List Parameter}
    (hps : List.Forall₂ (Parameter.Relaid l) ps ps') {b? b?' : Option Block}
    (hb : Option.Rel (Block.Relaid l) b? b?') :
    InStep l Eq (body c returns? ps b?) (body c' returns? ps' b?') := by
  refine .bind (.foldlM hps (hc.returning returns?) fun d d' hd p p' hp => ?_) fun d d' hd => ?_
  · exact .same (inStep_resolve hd hp.type) fun t => inStep_declare hd hp.identifier t
  · cases hb with
    | none => exact .pure rfl
    | some hb => exact .bind (inStep_statement hd _ (.block hb)) fun _ _ _ => .pure rfl

/-- Two bindings in step that may find that they have been cancelled. -/
def InStepAll (l : Rerun) {α β : Type} (rel : α → β → Prop) (m : Cancellable α)
    (n : Cancellable β) : Prop :=
  ∀ polls, InStep l (fun r r' => Outcomes rel r.1 r'.1 ∧ r.2 = r'.2) (m.run polls) (n.run polls)

namespace InStepAll

variable {α β γ δ : Type} {rel : α → β → Prop} {after : γ → δ → Prop} {m : Cancellable α}
  {n : Cancellable β}

theorem pure {a : α} {b : β} (h : rel a b) : InStepAll l rel (Pure.pure a) (Pure.pure b) :=
  fun _ => .pure ⟨.ok h, rfl⟩

theorem bind {f : α → Cancellable γ} {g : β → Cancellable δ} (hm : InStepAll l rel m n)
    (hf : ∀ a b, rel a b → InStepAll l after (f a) (g b)) :
    InStepAll l after (m >>= f) (n >>= g) := by
  intro polls
  show InStep l _ (m.run polls >>= fun r => ExceptT.bindCont f r.1 r.2)
    (n.run polls >>= fun r => ExceptT.bindCont g r.1 r.2)
  apply InStep.bind (hm polls)
  rintro ⟨_, polls⟩ ⟨_, _⟩ ⟨h | e, rfl⟩
  · exact hf _ _ h polls
  · exact .pure ⟨.error e, rfl⟩

theorem lift {m : BindM α} {n : BindM β} (h : InStep l rel m n) :
    InStepAll l rel (liftM m) (liftM n) := by
  intro polls
  show InStep l _ (m >>= fun a => Pure.pure (Except.ok a, polls))
    (n >>= fun b => Pure.pure (Except.ok b, polls))
  exact .bind h fun _ _ h => .pure ⟨.ok h, rfl⟩

end InStepAll

theorem inStepAll_poll : InStepAll l Eq poll poll := by
  intro polls
  cases polls with
  | none => exact .pure ⟨.ok rfl, rfl⟩
  | some polls =>
    cases polls with
    | zero => exact .pure ⟨.error _, rfl⟩
    | succ n => exact .pure ⟨.ok rfl, rfl⟩

mutual

theorem inStepAll_typeDeclaration {c c' : Context} (hc : c.Relaid l c') (container : String) :
    (d : TypeDeclaration) → {d' : TypeDeclaration} → d.Relaid l d' →
      InStepAll l Eq (typeDeclaration c container d) (typeDeclaration c' container d')
  | ⟨_, _, _, i, ms⟩, _, h => by
    cases h with
    | mk _ _ _ _ hi hms =>
      unfold typeDeclaration
      rw [hi.isMissing, hi.text]
      split
      · exact .pure rfl
      · exact inStepAll_classMembers (hc.inside (by rw [hc.names])) _ ms hms
termination_by structural x => x

theorem inStepAll_classMember {c c' : Context} (hc : c.Relaid l c') (owner : String) :
    (m : ClassMember) → {m' : ClassMember} → m.Relaid l m' →
      InStepAll l Eq (classMember c owner m) (classMember c' owner m')
  | .field _, _, h => by
    cases h with
    | field h => exact .lift (inStep_field hc h)
  | .method m, _, h => by
    cases h with
    | @method _ m' h =>
      have hrest {r r' : Option Ty} (hr : r = r') :
          InStepAll l Eq (do body c r m.parameters m.body?)
            (do body c' r' m'.parameters m'.body?) :=
        hr ▸ .lift (inStep_body hc r h.parameters h.body)
      unfold classMember
      rcases h.returnType.none_or_some with ⟨ha, hb⟩ | ⟨_, _, ha, hb, ht⟩
      · rw [ha, hb]
        exact hrest rfl
      · rw [ha, hb]
        exact .bind (.lift (.map (inStep_resolve hc ht))) fun _ _ => hrest
  | .conversion o, _, h => by
    cases h with
    | conversion h =>
      apply InStepAll.bind (.lift (inStep_resolve hc h.type))
      rintro t _ rfl
      exact .lift (inStep_body hc _ h.parameters h.body)
  | .nestedType d, _, h => by
    cases h with
    | nestedType hd =>
      unfold classMember
      exact inStepAll_typeDeclaration hc owner d hd
  | .incomplete _, _, h => by
    cases h
    exact .pure rfl
termination_by structural x => x

theorem inStepAll_classMembers {c c' : Context} (hc : c.Relaid l c') (owner : String) :
    (ms : List ClassMember) → {ms' : List ClassMember} →
      List.Forall₂ (ClassMember.Relaid l) ms ms' →
      InStepAll l Eq (classMembers c owner ms) (classMembers c' owner ms')
  | [], _, .nil => .pure rfl
  | m :: ms, _, .cons hm hms => by
    unfold classMembers
    apply InStepAll.bind inStepAll_poll
    intro _ _ _
    apply InStepAll.bind (inStepAll_classMember hc owner m hm)
    intro _ _ _
    exact inStepAll_classMembers hc owner ms hms
termination_by structural x => x

end

/-! ### Members of namespaces -/

mutual

theorem inStepAll_member (hc : c.Relaid l c') (container : String) {g g' : ScopeChain}
    (hg : g.Relaid l g') :
    (m : Member) → {m' : Member} → m.Relaid l m' →
      InStepAll l (ScopeChain.Relaid l) (member c container g m) (member c' container g' m')
  | .namespaceMember n, _, h => by
    cases h with
    | namespaceMember hn =>
      unfold member
      exact inStepAll_namespaceDeclaration hc container hg n hn
  | .typeMember d, _, h => by
    cases h with
    | typeMember hd =>
      exact .bind (inStepAll_typeDeclaration hc container d hd) fun _ _ _ => .pure hg
  | .globalStatement s, _, h => by
    cases h with
    | globalStatement hs =>
      exact .bind (.lift (inStep_statement (hc.withScopes hg) s hs)) fun _ _ hd => .pure hd.scopes
  | .incomplete _, _, h => by
    cases h
    exact .pure hg
termination_by structural x => x

theorem inStepAll_members (hc : c.Relaid l c') (container : String) {g g' : ScopeChain}
    (hg : g.Relaid l g') :
    (ms : List Member) → {ms' : List Member} → List.Forall₂ (Member.Relaid l) ms ms' →
      InStepAll l (ScopeChain.Relaid l) (members c container g ms) (members c' container g' ms')
  | [], _, .nil => .pure hg
  | m :: ms, _, .cons hm hms => by
    unfold members
    apply InStepAll.bind inStepAll_poll
    intro _ _ _
    apply InStepAll.bind (inStepAll_member hc container hg m hm)
    intro g g' hg
    exact inStepAll_members hc container hg ms hms
termination_by structural x => x

theorem inStepAll_namespaceDeclaration (hc : c.Relaid l c') (container : String)
    {g g' : ScopeChain} (hg : g.Relaid l g') :
    (n : NamespaceDeclaration) → {n' : NamespaceDeclaration} → n.Relaid l n' →
      InStepAll l (ScopeChain.Relaid l) (namespaceDeclaration c container g n)
        (namespaceDeclaration c' container g' n')
  | ⟨_, name, _, ms⟩, _, h => by
    cases h with
    | mk _ _ _ _ hname hms =>
      unfold namespaceDeclaration
      rw [name.dotted_relaid hname]
      exact inStepAll_members hc _ hg ms hms
termination_by structural x => x

end

theorem inStepAll_unit (hc : c.Relaid l c') {u u' : CompilationUnit} (h : u.Relaid l u') :
    InStepAll l Eq (unit c u) (unit c' u') := by
  apply InStepAll.bind (.lift (inStep_declareLabels hc h.globalStatements))
  intro d d' hd
  apply InStepAll.bind (inStepAll_members hc "" hd.scopes _ h.members)
  intro _ _ _
  exact .pure rfl

/-- A unit and its counterpart are bound alike: they declare the same, they are cancelled at the
same place, the same is reported of them and the same labels are jumped to. -/
theorem bindUnit_inStep {u u' : CompilationUnit} (h : u.Relaid l u') (polls : Polls) :
    let run := bindUnit u l.before polls
    let run' := bindUnit u' l.before' polls
    Outcomes Eq run.1 run'.1 ∧ run.2.1 = run'.2.1 ∧
      State.Relaid l run.2.2.state run'.2.2.state := by
  have hds := Declarations.ofMembers_relaid h.members
  have hc : Context.Relaid l (.of (.ofMembers u.members)) (.of (.ofMembers u'.members)) :=
    hds ▸ ⟨rfl, rfl, rfl, ⟨⟨.nil, .nil⟩, .nil⟩, rfl, rfl, rfl⟩
  obtain ⟨⟨hresult, hpolls⟩, hstate⟩ := inStepAll_unit hc h polls
    { listing := (Declarations.ofMembers u.members).listing, diagnostics := l.before }
    { listing := (Declarations.ofMembers u'.members).listing, diagnostics := l.before' }
    ⟨congrArg Declarations.listing hds, .refl _ _, .nil⟩
  exact ⟨hresult, hpolls, hstate⟩

end Binding

end CSharpFront
