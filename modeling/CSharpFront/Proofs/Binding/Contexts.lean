import CSharpFront.Binding.Unit
import CSharpFront.Proofs.Binding.Offers
import CSharpFront.Proofs.Syntax.TypeHeight
/-!
Contexts in which all types are listed. The declarations of a unit make one, and a context stays one
as variables are declared and the listing grows. What its names mean are never types that none should
be built on, so that type syntax builds on one only where it says so.
-/

namespace CSharpFront

/-! ### Type syntax that builds on `void` -/

namespace TypeSyntax

mutual

def mentionsVoid : TypeSyntax → Bool
  | .predefined _ s => s = .void
  | .name _ | .missing _ => false
  | .qualified _ left right => left.mentionsVoid || right.mentionsVoid
  | .generic _ _ arguments => anyMentionsVoid arguments
  | .nullable _ element | .array _ element _ => element.mentionsVoid

def anyMentionsVoid : List TypeSyntax → Bool
  | [] => false
  | type :: types => type.mentionsVoid || anyMentionsVoid types

end

/-- Whether `void` is mentioned before brackets or a question mark or among type arguments. By itself
it may stand where a method returns nothing. -/
def buildsOnVoid : TypeSyntax → Bool
  | .predefined _ _ | .name _ | .missing _ => false
  | .qualified _ left right => left.buildsOnVoid || right.buildsOnVoid
  | .generic _ _ arguments => anyMentionsVoid arguments
  | .nullable _ element | .array _ element _ => element.mentionsVoid

/-- Where `p` holds, the syntax does not build on `void`. -/
def Avoids (p : Prop) (type : TypeSyntax) : Prop := p → type.buildsOnVoid = false

abbrev AllAvoid (p : Prop) (types : List TypeSyntax) : Prop := ∀ type ∈ types, type.Avoids p

theorem allAvoid_false (types : List TypeSyntax) : AllAvoid False types :=
  fun _ _ h => h.elim

theorem buildsOnVoid_of_mentionsVoid : (type : TypeSyntax) → type.mentionsVoid = false →
    type.buildsOnVoid = false
  | .predefined _ _, _ | .name _, _ | .missing _, _ => rfl
  | .qualified _ left right, h => by
    simp only [mentionsVoid, Bool.or_eq_false_iff] at h
    simp only [buildsOnVoid, buildsOnVoid_of_mentionsVoid left h.1,
      buildsOnVoid_of_mentionsVoid right h.2, Bool.or_self]
  | .generic _ _ _, h | .nullable _ _, h | .array _ _ _, h => by
    rw [mentionsVoid] at h
    rw [buildsOnVoid, h]

end TypeSyntax

variable {p : Prop} {l l' : Listing}

/-! ### What syntax means -/

/-- The types that names mean are listed. -/
def NamedTypes.Listed (ns : NamedTypes) (l : Listing) : Prop :=
  ∀ n t, ns.find? n = some t → t ∈ l.types

/-- No name means a type that none should be built on. -/
def NamedTypes.Fit (ns : NamedTypes) : Prop :=
  ∀ n t, ns.find? n = some t → t.isUnfit = false

theorem NamedTypes.Listed.mono {ns : NamedTypes} (h : ns.Listed l) (hgains : l.Gains p l') :
    ns.Listed l' :=
  fun n t ht => hgains.mem (h n t ht)

theorem Members.Listed.mono {ms : Members} (h : ms.Listed l) (hgains : l.Gains p l') :
    ms.Listed l' :=
  fun t n u hu => hgains.mem (h t n u hu)

theorem builds_listed {t : Ty} (h : l.Sound) (ht : l.Infers p t) :
    Builds p id l (listed t) fun l' u => u ∈ l'.types ∧ u = t := by
  intro s hs
  have ht' := hs.infers ht
  exact ⟨ht'.gains, ht'.mem_add (hs.sound h), rfl⟩

theorem infers_ofGenericName (h : l.Sound) (name : String) {ts : List Ty}
    (hts : ∀ t ∈ ts, t ∈ l.types ∧ t.isError = false) (hfit : p → ∀ t ∈ ts, t.isUnfit = false) :
    l.Infers p (.ofGenericName name ts) := by
  unfold Ty.ofGenericName
  cases ht : (Generic.ofName? name ts.length).bind (Ty.ofGeneric? · ts) with
  | none => exact .listed h.error_mem
  | some t =>
    obtain ⟨g, -, hg⟩ := Option.bind_eq_some_iff.mp ht
    exact .applied hg hts hfit

theorem isUnfit_ofGenericName (name : String) (ts : List Ty) :
    (Ty.ofGenericName name ts).isUnfit = false := by
  unfold Ty.ofGenericName
  cases ht : (Generic.ofName? name ts.length).bind (Ty.ofGeneric? · ts) with
  | none => rfl
  | some t =>
    obtain ⟨g, -, hg⟩ := Option.bind_eq_some_iff.mp ht
    rw [Ty.ofGeneric?_eq_some_iff] at hg
    cases t <;> first | rfl | cases hg

/-- What syntax means is listed, and where the syntax does not mention `void` it is none of the types
that none should be built on. -/
def TypeSyntax.Listed (type : TypeSyntax) (l : Listing) (t : Ty) : Prop :=
  t ∈ l.types ∧ (type.mentionsVoid = false → t.isUnfit = false)

/-- What type arguments mean is listed, and none of it is the error type. -/
def TypeSyntax.AllListed (types : List TypeSyntax) (l : Listing) (ts? : Option (List Ty)) : Prop :=
  ∀ ts, ts? = some ts → (∀ t ∈ ts, t ∈ l.types ∧ t.isError = false) ∧
    (TypeSyntax.anyMentionsVoid types = false → ∀ t ∈ ts, t.isUnfit = false)

section Resolution

variable {names : NamedTypes}

open TypeSyntax

mutual

theorem builds_resolve {l : Listing} (h : l.Sound) (hn : names.Listed l) (hfit : names.Fit) :
    (type : TypeSyntax) → type.Avoids p → Builds p id l (type.resolve names) type.Listed
  | .predefined _ s, _ => .pure fun l' hgains => by
    refine ⟨hgains.mem (h.special_mem s), fun hvoid => ?_⟩
    simpa [Ty.isUnfit, mentionsVoid] using hvoid
  | .name i, _ => .pure fun l' hgains => by
    cases ht : names.find? i.text with
    | none => exact ⟨hgains.mem h.error_mem, fun _ => rfl⟩
    | some t => exact ⟨hgains.mem (hn _ _ ht), fun _ => hfit _ _ ht⟩
  | .qualified r left right, hv => by
    have hright := builds_resolve h hn hfit right fun hp => (Bool.or_eq_false_iff.mp (hv hp)).2
    have hwhole : Builds p id l (right.resolve names) (TypeSyntax.qualified r left right).Listed :=
      hright.imp fun t l' _ ht => ⟨ht.1, fun hvoid => ht.2 (Bool.or_eq_false_iff.mp hvoid).2⟩
    unfold TypeSyntax.resolve
    split
    · exact hwhole
    · exact hwhole
    next t _ ht =>
      exact .pure fun l' hgains => ⟨hgains.mem (hn _ _ ht), fun _ => hfit _ _ ht⟩
  | .generic r i arguments, hv => by
    unfold TypeSyntax.resolve
    apply Builds.bind (builds_resolveAll h hn hfit arguments hv)
    intro ts? l' hgains hts
    cases ts? with
    | none => exact .pure fun l'' hgains' => ⟨hgains'.mem (hgains.mem h.error_mem), fun _ => rfl⟩
    | some ts =>
      have hsound := hgains.sound h
      obtain ⟨hts, hunfit⟩ := hts ts rfl
      have hinfers := infers_ofGenericName hsound i.text hts fun hp => hunfit (hv hp)
      refine (builds_listed hsound hinfers).imp fun t l'' _ ht => ⟨ht.1, fun _ => ?_⟩
      rw [ht.2]
      exact isUnfit_ofGenericName i.text ts
  | .nullable r element, hv => by
    unfold TypeSyntax.resolve
    apply Builds.bind (builds_resolve h hn hfit element fun hp =>
      buildsOnVoid_of_mentionsVoid element (hv hp))
    intro t l' hgains ht
    refine (builds_listed (hgains.sound h) (.nullable ht.1)).imp fun u l'' _ hu => ?_
    refine ⟨hu.1, fun hvoid => ?_⟩
    rw [hu.2]
    exact Ty.isUnfit_toNullable (ht.2 hvoid)
  | .array r element rank, hv => by
    unfold TypeSyntax.resolve
    apply Builds.bind (builds_resolve h hn hfit element fun hp =>
      buildsOnVoid_of_mentionsVoid element (hv hp))
    intro t l' hgains ht
    have hinfers : l'.Infers p (t.toArray rank) := .written ht.1 (fun hp => ht.2 (hv hp)) rank
    refine (builds_listed (hgains.sound h) hinfers).imp fun u l'' _ hu => ?_
    refine ⟨hu.1, fun hvoid => ?_⟩
    rw [hu.2]
    exact Ty.isUnfit_toArray (ht.2 hvoid) rank
  | .missing _, _ => .pure fun l' hgains => ⟨hgains.mem h.error_mem, fun _ => rfl⟩

theorem builds_resolveAll {l : Listing} (h : l.Sound) (hn : names.Listed l) (hfit : names.Fit) :
    (types : List TypeSyntax) → (p → anyMentionsVoid types = false) →
      Builds p id l (resolveAll names types) (AllListed types)
  | [], _ => .pure fun l' _ ts hts => by
    obtain rfl := Option.some.inj hts
    simp
  | type :: types, hv => by
    have hv' : p → type.mentionsVoid = false ∧ anyMentionsVoid types = false :=
      fun hp => Bool.or_eq_false_iff.mp (hv hp)
    unfold TypeSyntax.resolveAll
    apply Builds.bind (builds_resolve h hn hfit type fun hp =>
      buildsOnVoid_of_mentionsVoid type (hv' hp).1)
    intro t l₁ hgains₁ ht
    refine .ite (fun _ => .pure fun _ _ ts hts => by cases hts) fun he => ?_
    apply Builds.bind (builds_resolveAll (hgains₁.sound h) (hn.mono hgains₁) hfit types fun hp =>
      (hv' hp).2)
    intro ts? l₂ hgains₂ hts
    cases ts? with
    | none => exact .pure fun _ _ ts hts => by cases hts
    | some ts =>
      obtain ⟨hts, hunfit⟩ := hts ts rfl
      refine .pure fun l₃ hgains₃ us hus => ?_
      obtain rfl := Option.some.inj hus
      constructor
      · refine List.forall_mem_cons.mpr ⟨⟨hgains₃.mem (hgains₂.mem ht.1), by simpa using he⟩, ?_⟩
        exact fun u hu => ⟨hgains₃.mem (hts u hu).1, (hts u hu).2⟩
      · intro hvoid
        obtain ⟨hfirst, hrest⟩ := Bool.or_eq_false_iff.mp hvoid
        exact List.forall_mem_cons.mpr ⟨ht.2 hfirst, hunfit hrest⟩

end

end Resolution

/-! ### Declarations -/

/-- What holds of the types that names mean holds still once a name is declared for one more. -/
theorem NamedTypes.forall_find?_declare {ns : NamedTypes} {ok : Ty → Prop}
    (h : ∀ n t, ns.find? n = some t → ok t) (n : String) {t : Ty} (ht : ok t) (m : String) (u : Ty)
    (hu : (ns.declare n t).find? m = some u) : ok u := by
  by_cases hm : m = n
  · subst hm
    rw [find?_declare_self] at hu
    cases hf : ns.find? m with
    | none =>
      rw [hf] at hu
      obtain rfl := Option.some.inj hu
      exact ht
    | some v =>
      rw [hf] at hu
      obtain rfl := Option.some.inj hu
      exact h m v hf
  · rw [find?_declare_of_ne ns t hm] at hu
    exact h m u hu

theorem NamedTypes.Listed.declare {ns : NamedTypes} (h : ns.Listed l) (n : String) {t : Ty}
    (ht : t ∈ l.types) : (ns.declare n t).Listed l :=
  forall_find?_declare h n ht

theorem NamedTypes.Fit.declare {ns : NamedTypes} (h : ns.Fit) (n : String) {t : Ty}
    (ht : t.isUnfit = false) : (ns.declare n t).Fit :=
  forall_find?_declare h n ht

namespace Members

/-- The tables of the members of types hold listed types. -/
theorem listed_iff {ms : Members} :
    ms.Listed l ↔ ∀ t m, ms.table? t = some m → m.fields.Listed l ∧ m.methods.Listed l := by
  constructor
  · intro h t m hm
    constructor
    · intro n u hu
      exact h t n u (.inl (by simp [field?, hm, hu]))
    · intro n u hu
      exact h t n u (.inr (by simp [method?, hm, hu]))
  · intro h t n u hu
    unfold field? method? at hu
    cases hm : ms.table? t with
    | none => simp [hm] at hu
    | some m =>
      simp only [hm, Option.bind_eq_bind, Option.bind_some] at hu
      rcases hu with hu | hu
      · exact (h t m hm).1 n u hu
      · exact (h t m hm).2 n u hu

theorem Listed.update {ms : Members} (h : ms.Listed l) (owner : Ty)
    {f : MemberTable → MemberTable}
    (hf : ∀ m : MemberTable, m.fields.Listed l ∧ m.methods.Listed l →
      (f m).fields.Listed l ∧ (f m).methods.Listed l) : (ms.update owner f).Listed l := by
  rw [listed_iff] at h ⊢
  intro t m hm
  rw [table?_update] at hm
  split at hm
  · obtain rfl := Option.some.inj hm
    refine hf _ ?_
    cases ho : ms.table? owner with
    | none => constructor <;> (intro n u hu; simp [NamedTypes.find?] at hu)
    | some m => exact h owner m ho
  · exact h t m hm

theorem Listed.declareField {ms : Members} (h : ms.Listed l) (owner : Ty) (n : String) {t : Ty}
    (ht : t ∈ l.types) : (ms.declareField owner n t).Listed l :=
  h.update owner fun _ hm => ⟨hm.1.declare n ht, hm.2⟩

theorem Listed.declareMethod {ms : Members} (h : ms.Listed l) (owner : Ty) (n : String) {t : Ty}
    (ht : t ∈ l.types) : (ms.declareMethod owner n t).Listed l :=
  h.update owner fun _ hm => ⟨hm.1, hm.2.declare n ht⟩

end Members

section Owned

variable {ok : TypeSyntax → Prop}

mutual

/-- The types of the members of a type are types of its declaration. -/
theorem TypeDeclaration.forall_ownMembers (container : String) : (d : TypeDeclaration) →
    (∀ type ∈ d.typeNodes, ok type) → ∀ x ∈ d.ownMembers container, ∀ type ∈ x.2.typeNodes, ok type
  | ⟨_, _, _, i, ms⟩, h, x, hx => by
    unfold TypeDeclaration.ownMembers at hx
    split at hx
    · cases hx
    · exact ClassMember.forall_allOwned _ ms h x hx

theorem ClassMember.forall_owned (owner : String) : (m : ClassMember) →
    (∀ type ∈ m.typeNodes, ok type) → ∀ x ∈ m.owned owner, ∀ type ∈ x.2.typeNodes, ok type
  | .nestedType d, h, x, hx => TypeDeclaration.forall_ownMembers owner d h x hx
  | .field _, h, x, hx | .method _, h, x, hx | .conversion _, h, x, hx | .incomplete _, h, x, hx => by
    obtain rfl := List.mem_singleton.mp hx
    exact h

theorem ClassMember.forall_allOwned (owner : String) : (ms : List ClassMember) →
    (∀ type ∈ ClassMember.allTypeNodes ms, ok type) →
      ∀ x ∈ ClassMember.allOwned owner ms, ∀ type ∈ x.2.typeNodes, ok type
  | [], _, _, hx => by cases hx
  | m :: ms, h, x, hx => by
    rw [ClassMember.allTypeNodes, List.forall_mem_append] at h
    rcases List.mem_append.mp hx with hx | hx
    · exact ClassMember.forall_owned owner m h.1 x hx
    · exact ClassMember.forall_allOwned owner ms h.2 x hx

end

mutual

/-- The types of the declarations in a member are types of the member. -/
theorem Member.forall_types (container : String) : (m : Member) →
    (∀ type ∈ m.typeNodes, ok type) → ∀ x ∈ m.types container, ∀ type ∈ x.2.typeNodes, ok type
  | .namespaceMember n, h, x, hx => NamespaceDeclaration.forall_types container n h x hx
  | .typeMember _, h, x, hx => by
    obtain rfl := List.mem_singleton.mp hx
    exact h
  | .globalStatement _, _, x, hx | .incomplete _, _, x, hx => by cases hx

theorem Member.forall_allTypes (container : String) : (ms : List Member) →
    (∀ type ∈ Member.allTypeNodes ms, ok type) →
      ∀ x ∈ Member.allTypes container ms, ∀ type ∈ x.2.typeNodes, ok type
  | [], _, _, hx => by cases hx
  | m :: ms, h, x, hx => by
    rw [Member.allTypeNodes, List.forall_mem_append] at h
    rcases List.mem_append.mp hx with hx | hx
    · exact Member.forall_types container m h.1 x hx
    · exact Member.forall_allTypes container ms h.2 x hx

theorem NamespaceDeclaration.forall_types (container : String) : (n : NamespaceDeclaration) →
    (∀ type ∈ n.typeNodes, ok type) → ∀ x ∈ n.types container, ∀ type ∈ x.2.typeNodes, ok type
  | ⟨_, _, _, ms⟩, h, x, hx => by
    rw [NamespaceDeclaration.typeNodes, List.forall_mem_cons, List.forall_mem_append] at h
    exact Member.forall_allTypes _ ms h.2.2 x hx

end

end Owned

namespace Declarations

/-- The listing of some declarations is what binding made of a listing, and holds all that they
declare. -/
structure Listed (p : Prop) (ds : Declarations) (l : Listing) : Prop where
  gains : l.Gains p ds.listing
  names : ds.names.Listed ds.listing
  fit : ds.names.Fit
  members : ds.members.Listed ds.listing

variable {ds : Declarations}

theorem Listed.grows (hd : ds.Listed p l) : l.Grows ds.listing := hd.gains.grows

theorem Listed.addType (hd : ds.Listed p l) (h : l.Sound) (name : String) (d : TypeDeclaration) :
    (ds.addType name d).Listed p l := by
  have hinfers : ds.listing.Infers p (.named name d.isStruct) := .named name d.isStruct
  have hmem := hinfers.mem_add (hd.gains.sound h)
  exact {
    gains := hd.gains.trans hinfers.gains
    names := ((hd.names.mono hinfers.gains).declare _ hmem).declare _ hmem
    fit := (hd.fit.declare _ rfl).declare _ rfl
    members := hd.members.mono hinfers.gains }

theorem Listed.resolve (hd : ds.Listed p l) (h : l.Sound) {type : TypeSyntax}
    (hv : type.Avoids p) :
    (ds.resolve type).2.Listed p l ∧ (ds.resolve type).1 ∈ (ds.resolve type).2.listing.types := by
  obtain ⟨hgains, hmem, -⟩ :=
    builds_resolve (hd.gains.sound h) hd.names hd.fit type hv ds.listing .refl
  exact ⟨⟨hd.gains.trans hgains, hd.names.mono hgains, hd.fit, hd.members.mono hgains⟩, hmem⟩

theorem Listed.addField (hd : ds.Listed p l) (h : l.Sound) (owner : Ty) {f : Field}
    (hv : f.declaration.type.Avoids p) : (ds.addField owner f).Listed p l := by
  obtain ⟨hd', ht⟩ := hd.resolve h hv
  refine ⟨hd'.gains, hd'.names, hd'.fit, ?_⟩
  refine List.foldlRecOn (motive := fun ms : Members => ms.Listed _) _ _ hd'.members ?_
  exact fun ms hms i _ => hms.declareField owner i.text ht

theorem Listed.addMethod (hd : ds.Listed p l) (h : l.Sound) (owner : Ty) {m : Method}
    (hv : ∀ type ∈ m.returnType?, type.Avoids p) : (ds.addMethod owner m).Listed p l := by
  unfold Declarations.addMethod
  split
  · exact hd
  next type htype =>
    obtain ⟨hd', ht⟩ := hd.resolve h (hv type htype)
    dsimp only
    split
    · exact hd'
    · exact ⟨hd'.gains, hd'.names, hd'.fit, hd'.members.declareMethod owner _ ht⟩

theorem Listed.addConversion (hd : ds.Listed p l) (h : l.Sound) {o : ConversionOperator}
    (hv : o.type.Avoids p) (hps : ∀ x ∈ o.parameters, x.type.Avoids p) :
    (ds.addConversion o).Listed p l := by
  have htarget := (hd.resolve h hv).1
  have hsource : ∀ ds' : Declarations, ds'.Listed p l → ∀ conversions,
      ({ ds' with conversions } : Declarations).Listed p l :=
    fun ds' hd' _ => ⟨hd'.gains, hd'.names, hd'.fit, hd'.members⟩
  unfold Declarations.addConversion
  dsimp only
  split
  · split
    · exact htarget
    · exact hsource _ htarget _
  next x _ hx =>
    have hparameter := (htarget.resolve h (hps x (hx ▸ List.mem_cons_self))).1
    split
    · exact hparameter
    · exact hsource _ hparameter _

theorem Listed.addMember (hd : ds.Listed p l) (h : l.Sound) (owner : String) {m : ClassMember}
    (hv : TypeSyntax.AllAvoid p m.typeNodes) : (ds.addMember owner m).Listed p l := by
  unfold Declarations.addMember
  split
  · exact hd
  split
  · exact hd.addField h _ (hv _ List.mem_cons_self)
  · refine hd.addMethod h _ fun type htype => hv type ?_
    exact List.mem_append_left _ (Option.mem_toList.mpr htype)
  · refine hd.addConversion h (hv _ List.mem_cons_self) fun x hx => hv _ ?_
    exact List.mem_cons_of_mem _ (List.mem_append_left _ (List.mem_map_of_mem hx))
  · exact hd
  · exact hd

/-- What the types of a unit declare is listed, and where `p` holds no syntax that builds on `void`
was resolved for it. -/
theorem listed_of_allAvoid {members : List Member}
    (hv : TypeSyntax.AllAvoid p (Member.allTypeNodes members)) : (ofMembers members).Listed p {} := by
  have hfirst : ({} : Declarations).Listed p {} :=
    ⟨.refl, fun n t ht => by simp [NamedTypes.find?] at ht,
      fun n t ht => by simp [NamedTypes.find?] at ht,
      fun t n u hu => by simp [Members.field?, Members.method?, Members.table?] at hu⟩
  have hfoldl : ∀ {α : Type} (f : Declarations → α → Declarations) (as : List α),
      (∀ ds, ∀ a ∈ as, ds.Listed p {} → (f ds a).Listed p {}) →
        ∀ ds : Declarations, ds.Listed p {} → (as.foldl f ds).Listed p {} := by
    intro α f as hf ds hd
    exact List.foldlRecOn (motive := fun ds : Declarations => ds.Listed p {}) as f hd
      fun ds hd a ha => hf ds a ha hd
  unfold ofMembers
  refine hfoldl _ _ (fun ds x hx hd => hd.addMember Listing.sound_first x.1 ?_) _ ?_
  · obtain ⟨⟨container, d⟩, hd, hx⟩ := List.mem_flatMap.mp hx
    exact d.forall_ownMembers container (Member.forall_allTypes "" members hv _ hd) x hx
  · exact hfoldl _ _ (fun ds x _ hd => hd.addType Listing.sound_first x.1 x.2) _ hfirst

/-- What the types of a unit declare is listed. -/
theorem listed_ofMembers (members : List Member) : (ofMembers members).Listed False {} :=
  listed_of_allAvoid (TypeSyntax.allAvoid_false _)

end Declarations

/-! ### Contexts -/

/-- The types of the variables in scope are listed. -/
def ScopeChain.Listed (scopes : ScopeChain) (l : Listing) : Prop :=
  ∀ n v, scopes.findLocal? n = some v → v.type ∈ l.types

theorem ScopeChain.Listed.mono {scopes : ScopeChain} (h : scopes.Listed l)
    (hgains : l.Gains p l') : scopes.Listed l' :=
  fun n v hv => hgains.mem (h n v hv)

theorem ScopeChain.Listed.shadow {scopes : ScopeChain} (h : scopes.Listed l) (n : String)
    {v : Local} (hv : v.type ∈ l.types) : (scopes.shadow n v).Listed l := by
  intro m w hw
  rw [findLocal?_shadow] at hw
  split at hw
  · obtain rfl := Option.some.inj hw
    exact hv
  · exact h m w hw

namespace Binding

/-- All that a context declares is listed in a listing that is built well. -/
structure Context.Listed (c : Context) (l : Listing) : Prop where
  sound : l.Sound
  names : c.names.Listed l
  fit : c.names.Fit
  members : c.members.Listed l
  scopes : c.scopes.Listed l
  owner : ∀ t, c.owner? = some t → t ∈ l.types

namespace Context

variable {c : Context} {t : Ty}

theorem Listed.mono (h : c.Listed l) (hgains : l.Gains p l') : c.Listed l' where
  sound := hgains.sound h.sound
  names := h.names.mono hgains
  fit := h.fit
  members := h.members.mono hgains
  scopes := h.scopes.mono hgains
  owner t ht := hgains.mem (h.owner t ht)

theorem Listed.withScopes (h : c.Listed l) {scopes : ScopeChain} (hs : scopes.Listed l) :
    ({ c with scopes } : Context).Listed l :=
  ⟨h.sound, h.names, h.fit, h.members, hs, h.owner⟩

theorem Listed.withReturns (h : c.Listed l) (returns? : Option Ty) :
    ({ c with returns? } : Context).Listed l :=
  ⟨h.sound, h.names, h.fit, h.members, h.scopes, h.owner⟩

theorem Listed.withLoop (h : c.Listed l) (inLoop : Bool) :
    ({ c with inLoop } : Context).Listed l :=
  ⟨h.sound, h.names, h.fit, h.members, h.scopes, h.owner⟩

theorem Listed.push (h : c.Listed l) : c.push.Listed l :=
  h.withScopes fun n v hv => h.scopes n v (by rwa [ScopeChain.findLocal?_push] at hv)

theorem Listed.shadow (h : c.Listed l) (i : Identifier) (ht : t ∈ l.types) :
    (c.shadow i t).Listed l := by
  unfold Context.shadow
  split
  · exact h
  · exact h.withScopes (h.scopes.shadow i.text ht)

theorem Listed.denote (h : c.Listed l) (i : Identifier) : (c.denote i).Listed l := by
  unfold Context.denote
  split
  · trivial
  split
  next v hv => exact h.scopes _ v hv
  split
  next t ht =>
    unfold ownField? at ht
    obtain ⟨owner, -, hfield⟩ := Option.bind_eq_some_iff.mp ht
    exact h.members owner _ t (.inl hfield)
  split
  next t ht => exact h.names _ t ht
  next => trivial

theorem Listed.ownMethod (h : c.Listed l) (n : String) :
    (c.ownMethod? n).getD .error ∈ l.types := by
  cases ht : c.ownMethod? n with
  | none => exact h.sound.error_mem
  | some t =>
    unfold ownMethod? at ht
    obtain ⟨owner, -, hmethod⟩ := Option.bind_eq_some_iff.mp ht
    exact h.members owner n t (.inr hmethod)

theorem listed_of {ds : Declarations} (h : ds.Listed p {}) : (Context.of ds).Listed ds.listing where
  sound := h.gains.sound Listing.sound_first
  names := h.names
  fit := h.fit
  members := h.members
  scopes n v hv := by simp [Context.of, ScopeChain.findLocal?, ScopeChain.toList] at hv
  owner t ht := by simp [Context.of] at ht

end Context

end Binding

end CSharpFront
