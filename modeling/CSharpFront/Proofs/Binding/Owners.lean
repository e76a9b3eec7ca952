import CSharpFront.Proofs.Binding.Listing
/-!
Which type the members of a declaration belong to. A declaration is looked up by its qualified name
among names that hold simple names too. Where no earlier declaration has that name for its simple
one, its members are its own: its type has the first field and the first method of each name that it
declares, and its bodies are bound as bodies of that type.
-/

namespace CSharpFront

/-- The types that are declared among the members of a unit, nested ones too, each with its
qualified name. -/
def Member.declared (members : List Member) : List (String × TypeDeclaration) :=
  (Member.allTypes "" members).flatMap fun (container, d) => d.withNested container

/-- The type that a declaration makes. -/
def TypeDeclaration.ownType (name : String) (d : TypeDeclaration) : Ty := .named name d.isStruct

/-! ### What names mean -/

theorem NamedTypes.find?_declare (ns : NamedTypes) (m n : String) (t : Ty) :
    (ns.declare m t).find? n = (ns.find? n).or (if n = m then some t else none) := by
  by_cases h : n = m
  · subst h
    rw [find?_declare_self, if_pos rfl]
    cases ns.find? n <;> rfl
  · rw [find?_declare_of_ne ns t h, if_neg h, Option.or_none]

namespace Declarations

/-- Whether a declaration is known by a name: by its qualified one or by its simple one. -/
def answers (n : String) (p : String × TypeDeclaration) : Bool :=
  n = p.1 || n = p.2.identifier.text

theorem find?_addType (ds : Declarations) (p : String × TypeDeclaration) (n : String) :
    (ds.addType p.1 p.2).names.find? n =
      (ds.names.find? n).or (if answers n p then some (p.2.ownType p.1) else none) := by
  have hnames : (ds.addType p.1 p.2).names =
      (ds.names.declare p.1 (p.2.ownType p.1)).declare p.2.identifier.text (p.2.ownType p.1) := rfl
  rw [hnames, NamedTypes.find?_declare, NamedTypes.find?_declare, Option.or_assoc]
  congr 1
  unfold answers
  by_cases h : n = p.1
  · simp only [h, if_true, Option.some_or, decide_true, Bool.true_or]
  · simp only [h, if_false, Option.none_or, decide_false, Bool.false_or, decide_eq_true_eq]

/-- A name means the first declaration that is known by it. -/
theorem find?_names_foldl (ps : List (String × TypeDeclaration)) (ds : Declarations) (n : String) :
    (ps.foldl (fun ds p => ds.addType p.1 p.2) ds).names.find? n =
      (ds.names.find? n).or ((ps.find? (answers n)).map fun p => p.2.ownType p.1) := by
  induction ps generalizing ds with
  | nil => simp
  | cons p ps ih =>
    rw [List.foldl_cons, ih, find?_addType, Option.or_assoc]
    by_cases h : answers n p = true <;> simp [h]

theorem names_addMember (ds : Declarations) (owner : String) (m : ClassMember) :
    (ds.addMember owner m).names = ds.names := by
  unfold Declarations.addMember
  split
  · rfl
  split
  · rfl
  · unfold Declarations.addMethod
    split
    · rfl
    · dsimp only
      split <;> rfl
  · unfold Declarations.addConversion
    dsimp only
    split <;> split <;> rfl
  · rfl
  · rfl

theorem names_foldl_addMember (ms : List (String × ClassMember)) (ds : Declarations) :
    (ms.foldl (fun ds m => ds.addMember m.1 m.2) ds).names = ds.names := by
  induction ms generalizing ds with
  | nil => rfl
  | cons m ms ih => rw [List.foldl_cons, ih, names_addMember]

/-- The members that are declared among the members of a unit, each with the name of its type. -/
def owned (members : List Member) : List (String × ClassMember) :=
  (Member.allTypes "" members).flatMap fun (container, d) => d.ownMembers container

/-- The declarations before any member is known. -/
def named (members : List Member) : Declarations :=
  (Member.declared members).foldl (fun ds p => ds.addType p.1 p.2) {}

theorem ofMembers_eq (members : List Member) :
    ofMembers members = (owned members).foldl (fun ds m => ds.addMember m.1 m.2) (named members) :=
  rfl

/-- In the declarations of a unit, a name means the first declared type that is known by it. -/
theorem find?_ofMembers (members : List Member) (n : String) :
    (ofMembers members).names.find? n =
      ((Member.declared members).find? (answers n)).map fun p => p.2.ownType p.1 := by
  rw [ofMembers_eq, names_foldl_addMember, named, find?_names_foldl]
  rfl

end Declarations

/-! ### What members declare -/

mutual

/-- The type that syntax means, whatever is listed. -/
def TypeSyntax.meaning (names : NamedTypes) : TypeSyntax → Ty
  | .predefined _ s => .special s
  | .name i => (names.find? i.text).getD .error
  | .qualified r left right =>
    match right, names.find? (TypeSyntax.qualified r left right).dotted with
    | .generic .., _ | _, none => right.meaning names
    | _, some t => t
  | .generic _ i arguments =>
    match TypeSyntax.meanings names arguments with
    | some ts => .ofGenericName i.text ts
    | none => .error
  | .nullable _ element => (element.meaning names).toNullable
  | .array _ element rank => (element.meaning names).toArray rank
  | .missing _ => .error

/-- The types that a list of syntax means, unless one of them is the error type. -/
def TypeSyntax.meanings (names : NamedTypes) : List TypeSyntax → Option (List Ty)
  | [] => some []
  | type :: types =>
    let t := type.meaning names
    if t.isError then none else (TypeSyntax.meanings names types).map (t :: ·)

end

mutual

theorem fst_resolve (names : NamedTypes) (l : Listing) : (type : TypeSyntax) →
    (type.resolve names l).1 = type.meaning names
  | .predefined _ _ | .name _ | .missing _ => rfl
  | .qualified r left right => by
    have hright := fst_resolve names l right
    unfold TypeSyntax.resolve TypeSyntax.meaning
    cases hn : names.find? (TypeSyntax.qualified r left right).dotted with
    | none => cases right <;> exact hright
    | some t =>
      cases right with
      | generic => exact hright
      | _ => rfl
  | .generic _ i arguments => by
    have harguments := fst_resolveAll names l arguments
    unfold TypeSyntax.resolve TypeSyntax.meaning
    rw [← harguments]
    show ((match (TypeSyntax.resolveAll names arguments l).1 with
      | some ts => listed (.ofGenericName i.text ts)
      | none => pure .error : StateM Listing Ty) (TypeSyntax.resolveAll names arguments l).2).1 = _
    cases (TypeSyntax.resolveAll names arguments l).1 <;> rfl
  | .nullable _ element => congrArg Ty.toNullable (fst_resolve names l element)
  | .array _ element rank => congrArg (Ty.toArray · rank) (fst_resolve names l element)

theorem fst_resolveAll (names : NamedTypes) (l : Listing) : (types : List TypeSyntax) →
    (TypeSyntax.resolveAll names types l).1 = TypeSyntax.meanings names types
  | [] => rfl
  | type :: types => by
    have htype := fst_resolve names l type
    have htypes := fst_resolveAll names (type.resolve names l).2 types
    unfold TypeSyntax.resolveAll TypeSyntax.meanings
    rw [← htype, ← htypes]
    show ((if (type.resolve names l).1.isError then pure none else do
      match ← TypeSyntax.resolveAll names types with
      | some ts => return some ((type.resolve names l).1 :: ts)
      | none => return none : StateM Listing (Option (List Ty))) (type.resolve names l).2).1 = _
    dsimp only
    split
    · rfl
    · show ((match (TypeSyntax.resolveAll names types (type.resolve names l).2).1 with
        | some ts => pure (some ((type.resolve names l).1 :: ts))
        | none => pure none : StateM Listing (Option (List Ty))) _).1 = _
      cases (TypeSyntax.resolveAll names types (type.resolve names l).2).1 <;> rfl

end

namespace ClassMember

/-- The fields that a member declares, or the methods with the types of what they return. -/
def declares (names : NamedTypes) (isMethod : Bool) : ClassMember → List (String × Ty)
  | .field f =>
    let named := (f.declaration.declarators.map (·.identifier)).filter (!·.isMissing)
    if isMethod then [] else named.map fun i => (i.text, f.declaration.type.meaning names)
  | .method m =>
    match m.returnType? with
    | some type =>
      if !isMethod || m.identifier.isMissing then []
      else [(m.identifier.text, type.meaning names)]
    | none => []
  | .conversion _ | .nestedType _ | .incomplete _ => []

end ClassMember

namespace Members

/-- The field of a type with a name, or the method. -/
def member? (ms : Members) (isMethod : Bool) (owner : Ty) (name : String) : Option Ty :=
  if isMethod then ms.method? owner name else ms.field? owner name

/-- The members with a field more, or with a method more. -/
def declareMember (ms : Members) (isMethod : Bool) (owner : Ty) (name : String) (t : Ty) :
    Members :=
  if isMethod then ms.declareMethod owner name t else ms.declareField owner name t

theorem member?_declareMember (ms : Members) (isMethod isMethod' : Bool) (owner o : Ty)
    (m n : String) (t : Ty) :
    (ms.declareMember isMethod owner m t).member? isMethod' o n =
      (ms.member? isMethod' o n).or
        (if isMethod = isMethod' ∧ o = owner ∧ n = m then some t else none) := by
  have hempty : ∀ n, NamedTypes.find? [] n = none := fun _ => rfl
  by_cases ho : o = owner
  · subst ho
    cases isMethod <;> cases isMethod' <;>
      simp only [member?, declareMember, field?, method?, declareField, declareMethod,
        table?_update, if_true, if_false, Bool.false_eq_true] <;>
      cases ms.table? o <;> simp [NamedTypes.find?_declare, hempty]
  · cases isMethod <;> cases isMethod' <;>
      simp [member?, declareMember, field?, method?, declareField, declareMethod, table?_update, ho]

theorem member?_foldl_declareField (is : List Identifier) (ms : Members) (isMethod : Bool)
    (owner o : Ty) (n : String) (t : Ty) :
    (is.foldl (fun ms i => ms.declareField owner i.text t) ms).member? isMethod o n =
      (ms.member? isMethod o n).or
        (if isMethod = false ∧ o = owner then (is.map fun i => (i.text, t)).lookup n else none) := by
  induction is generalizing ms with
  | nil => simp
  | cons i is ih =>
    have hone := member?_declareMember ms false isMethod owner o i.text n t
    simp only [declareMember, if_false, Bool.false_eq_true] at hone
    rw [List.foldl_cons, ih, hone, Option.or_assoc]
    congr 1
    by_cases hn : n = i.text
    · cases isMethod <;> by_cases ho : o = owner <;> simp [hn, ho]
    · have hne : (n == i.text) = false := beq_eq_false_iff_ne.mpr hn
      cases isMethod <;> by_cases ho : o = owner <;> simp [List.lookup_cons, hn, hne, ho]

end Members

namespace Declarations

/-- A member adds what it declares to the type that the name of its owner means. -/
theorem member?_addMember (ds : Declarations) (owner : String) (m : ClassMember) (isMethod : Bool)
    (o : Ty) (n : String) :
    (ds.addMember owner m).members.member? isMethod o n =
      (ds.members.member? isMethod o n).or
        (if ds.names.find? owner = some o then (m.declares ds.names isMethod).lookup n
          else none) := by
  have hmeaning : ∀ type, (ds.resolve type).1 = type.meaning ds.names :=
    fun type => fst_resolve ds.names ds.listing type
  have hmembers : ∀ type, (ds.resolve type).2.members = ds.members := fun _ => rfl
  unfold Declarations.addMember
  cases ho : ds.names.find? owner with
  | none => simp
  | some t =>
    have hsome : (some t = some o) ↔ o = t := by simp [eq_comm]
    cases m with
    | field f =>
      simp only [addField, Members.member?_foldl_declareField, hmeaning, hmembers, hsome,
        ClassMember.declares]
      cases isMethod <;> simp
    | method m =>
      simp only [addMethod, ClassMember.declares, hsome]
      cases m.returnType? with
      | none => simp
      | some type =>
        dsimp only
        by_cases hi : m.identifier.isMissing = true
        · simp [hi, hmembers]
        · have hone := Members.member?_declareMember ds.members true isMethod t o
            m.identifier.text n (type.meaning ds.names)
          simp only [Members.declareMember, if_true] at hone
          simp only [hi, if_false, Bool.false_eq_true, hmembers, hmeaning, hone]
          congr 1
          by_cases hn : n = m.identifier.text
          · cases isMethod <;> by_cases ho : o = t <;> simp [hn, ho]
          · have hne : (n == m.identifier.text) = false := beq_eq_false_iff_ne.mpr hn
            cases isMethod <;> simp [List.lookup_cons, hn, hne]
    | conversion op =>
      have hsame : (ds.addConversion op).members = ds.members := by
        unfold addConversion
        dsimp only
        split <;> split <;> rfl
      simp [hsame, ClassMember.declares]
    | nestedType | incomplete => simp [ClassMember.declares]

theorem member?_foldl_addMember (ms : List (String × ClassMember)) (ds : Declarations)
    (isMethod : Bool) (o : Ty) (n : String) :
    (ms.foldl (fun ds m => ds.addMember m.1 m.2) ds).members.member? isMethod o n =
      (ds.members.member? isMethod o n).or
        ((ms.flatMap fun m => if ds.names.find? m.1 = some o then m.2.declares ds.names isMethod
          else []).lookup n) := by
  induction ms generalizing ds with
  | nil => simp
  | cons m ms ih =>
    rw [List.foldl_cons, ih, names_addMember, member?_addMember, Option.or_assoc,
      List.flatMap_cons, List.lookup_append]
    congr 2
    split <;> rfl

/-- A field or a method of a type is the first of its name that members of the type declare. -/
theorem member?_ofMembers (members : List Member) (isMethod : Bool) (o : Ty) (n : String) :
    let names := (ofMembers members).names
    (ofMembers members).members.member? isMethod o n =
      ((owned members).flatMap fun m => if names.find? m.1 = some o then m.2.declares names isMethod
        else []).lookup n := by
  have hnone : ∀ (ps : List (String × TypeDeclaration)) (ds : Declarations),
      (ps.foldl (fun ds p => ds.addType p.1 p.2) ds).members = ds.members := by
    intro ps
    induction ps with
    | nil => exact fun _ => rfl
    | cons p ps ih => exact fun ds => ih (ds.addType p.1 p.2)
  have hfirst : (named members).members.member? isMethod o n = none := by
    rw [named, hnone]
    cases isMethod <;> rfl
  intro names
  have hnames : names = (named members).names := by rw [← names_foldl_addMember (owned members)]; rfl
  rw [hnames, ofMembers_eq, member?_foldl_addMember, hfirst, Option.none_or]

end Declarations

/-! ### The members of one declaration -/

section OwnMembers

variable {β : Type} {g : ClassMember → List β} {n : String}

/-- What the members give that belong to the type of a name. -/
def ofOwner (n : String) (g : ClassMember → List β) (ms : List (String × ClassMember)) : List β :=
  ms.flatMap fun m => if m.1 = n then g m.2 else []

/-- What the members of the declarations with a name give. -/
def ofDeclared (n : String) (g : ClassMember → List β) (ps : List (String × TypeDeclaration)) :
    List β :=
  ps.flatMap fun p => if p.1 = n then p.2.members.flatMap g else []

theorem ofOwner_append (ms ms' : List (String × ClassMember)) :
    ofOwner n g (ms ++ ms') = ofOwner n g ms ++ ofOwner n g ms' :=
  List.flatMap_append

theorem ofDeclared_append (ps ps' : List (String × TypeDeclaration)) :
    ofDeclared n g (ps ++ ps') = ofDeclared n g ps ++ ofDeclared n g ps' :=
  List.flatMap_append

theorem ofDeclared_eq_nil {ps : List (String × TypeDeclaration)} (h : n ∉ ps.map Prod.fst) :
    ofDeclared n g ps = [] := by
  refine List.flatMap_eq_nil_iff.mpr fun p hp => if_neg fun he => h ?_
  exact he ▸ List.mem_map_of_mem hp

theorem ofDeclared_eq {ps : List (String × TypeDeclaration)} (h : (ps.map Prod.fst).Nodup)
    {d : TypeDeclaration} (hd : (n, d) ∈ ps) : ofDeclared n g ps = d.members.flatMap g := by
  induction ps with
  | nil => cases hd
  | cons p ps ih =>
    obtain ⟨hp, hps⟩ := List.nodup_cons.mp h
    show (if p.1 = n then p.2.members.flatMap g else []) ++ ofDeclared n g ps = _
    rcases List.mem_cons.mp hd with rfl | hd
    · rw [if_pos rfl, ofDeclared_eq_nil hp, List.append_nil]
    · have hne : p.1 ≠ n := fun he => hp (he ▸ List.mem_map_of_mem hd)
      rw [if_neg hne, ih hps hd, List.nil_append]

mutual

/-- Of different declarations with different names, the members with a name are those of the
declaration with the name, in their order. -/
theorem ofOwner_ownMembers (hg : ∀ d, g (.nestedType d) = []) (container : String) :
    (d : TypeDeclaration) → ((d.withNested container).map Prod.fst).Nodup →
      ofOwner n g (d.ownMembers container) = ofDeclared n g (d.withNested container)
  | ⟨_, _, _, i, ms⟩, h => by
    unfold TypeDeclaration.withNested TypeDeclaration.ownMembers at *
    split
    · rfl
    next hi =>
      rw [if_neg hi] at h
      obtain ⟨hself, hrest⟩ := List.nodup_cons.mp h
      rw [ofOwner_allOwned hg _ ms hself hrest]
      rfl

theorem ofOwner_allOwned (hg : ∀ d, g (.nestedType d) = []) (owner : String) :
    (ms : List ClassMember) → owner ∉ (ClassMember.allNested owner ms).map Prod.fst →
      ((ClassMember.allNested owner ms).map Prod.fst).Nodup →
        ofOwner n g (ClassMember.allOwned owner ms) =
          (if owner = n then ms.flatMap g else []) ++ ofDeclared n g (ClassMember.allNested owner ms)
  | [], _, _ => by simp [ClassMember.allOwned, ClassMember.allNested, ofOwner, ofDeclared]
  | .nestedType d :: ms, hself, h => by
    unfold ClassMember.allOwned ClassMember.allNested ClassMember.owned ClassMember.nested at *
    rw [List.map_append, List.mem_append, not_or] at hself
    rw [List.map_append, List.nodup_append] at h
    obtain ⟨hselfd, hselfs⟩ := hself
    rw [ofOwner_append, ofDeclared_append, ofOwner_ownMembers hg owner d h.1,
      ofOwner_allOwned hg owner ms hselfs h.2.1]
    by_cases ho : owner = n
    · subst ho
      simp [ofDeclared_eq_nil hselfd, hg]
    · rw [if_neg ho, if_neg ho, List.nil_append, List.nil_append]
  | .field _ :: ms, hself, h | .method _ :: ms, hself, h | .conversion _ :: ms, hself, h
  | .incomplete _ :: ms, hself, h => by
    have hrest := ofOwner_allOwned hg owner ms hself h
    unfold ClassMember.allOwned ClassMember.allNested ClassMember.owned ClassMember.nested
    rw [ofOwner_append, List.nil_append, hrest]
    by_cases ho : owner = n <;> simp [ofOwner, ho]

end

mutual

theorem fst_mem_of_mem_ownMembers {container : String} {p : String × ClassMember} :
    (d : TypeDeclaration) → p ∈ d.ownMembers container →
      p.1 ∈ (d.withNested container).map Prod.fst
  | ⟨_, _, _, i, ms⟩, h => by
    unfold TypeDeclaration.withNested
    unfold TypeDeclaration.ownMembers at h
    split at h
    · cases h
    next hi =>
      rw [if_neg hi]
      rcases fst_mem_of_mem_allOwned ms h with h | h
      · exact List.mem_cons.mpr (.inl h)
      · exact List.mem_cons_of_mem _ h

theorem fst_mem_of_mem_allOwned {owner : String} {p : String × ClassMember} :
    (ms : List ClassMember) → p ∈ ClassMember.allOwned owner ms →
      p.1 = owner ∨ p.1 ∈ (ClassMember.allNested owner ms).map Prod.fst
  | [], h => by cases h
  | .nestedType d :: ms, h => by
    unfold ClassMember.allOwned ClassMember.owned at h
    unfold ClassMember.allNested ClassMember.nested
    rw [List.map_append, List.mem_append]
    rcases List.mem_append.mp h with h | h
    · exact .inr (.inl (fst_mem_of_mem_ownMembers d h))
    · exact (fst_mem_of_mem_allOwned ms h).imp_right .inr
  | .field _ :: ms, h | .method _ :: ms, h | .conversion _ :: ms, h | .incomplete _ :: ms, h => by
    rcases List.mem_cons.mp h with rfl | h
    · exact .inl rfl
    · exact fst_mem_of_mem_allOwned ms h

end

theorem fst_mem_of_mem_owned {members : List Member} {p : String × ClassMember}
    (h : p ∈ Declarations.owned members) : p.1 ∈ (Member.declared members).map Prod.fst := by
  obtain ⟨⟨container, d⟩, hd, hp⟩ := List.mem_flatMap.mp h
  obtain ⟨q, hq, hqp⟩ := List.mem_map.mp (fst_mem_of_mem_ownMembers d hp)
  exact List.mem_map.mpr ⟨q, List.mem_flatMap.mpr ⟨_, hd, hq⟩, hqp⟩

/-- The same for all declarations of a unit. -/
theorem ofOwner_owned (hg : ∀ d, g (.nestedType d) = []) {members : List Member}
    (h : ((Member.declared members).map Prod.fst).Nodup) :
    ofOwner n g (Declarations.owned members) = ofDeclared n g (Member.declared members) := by
  unfold Declarations.owned Member.declared at *
  generalize Member.allTypes "" members = types at *
  induction types with
  | nil => rfl
  | cons p types ih =>
    rw [List.flatMap_cons, List.map_append, List.nodup_append] at h
    rw [List.flatMap_cons, List.flatMap_cons, ofOwner_append, ofDeclared_append,
      ofOwner_ownMembers hg _ _ h.1, ih h.2.1]

end OwnMembers

/-! ### Declarations apart from each other -/

/-- The declared types have different qualified names, and no qualified name is the simple name of
an earlier declaration. -/
structure Member.Apart (members : List Member) : Prop where
  distinct : ((Member.declared members).map Prod.fst).Nodup
  unshadowed : (Member.declared members).Pairwise fun p q => q.1 ≠ p.2.identifier.text

namespace Declarations

variable {members : List Member} {p q : String × TypeDeclaration}

/-- By its qualified name a declaration finds its own type. -/
theorem find?_own (h : Member.Apart members) (hp : p ∈ Member.declared members) :
    (ofMembers members).names.find? p.1 = some (p.2.ownType p.1) := by
  obtain ⟨before, after, hsplit⟩ := List.append_of_mem hp
  have hdistinct := h.distinct
  have hunshadowed := h.unshadowed
  rw [hsplit] at hdistinct hunshadowed
  rw [List.map_append, List.nodup_append] at hdistinct
  rw [List.pairwise_append] at hunshadowed
  have hfirst : (Member.declared members).find? (answers p.1) = some p := by
    refine List.find?_eq_some_iff_append.mpr ⟨by simp [answers], before, after, hsplit, ?_⟩
    intro q hq
    have hname : p.1 ≠ q.1 := fun he =>
      hdistinct.2.2 q.1 (List.mem_map_of_mem hq) p.1 (by simp) he.symm
    have htext : p.1 ≠ q.2.identifier.text := hunshadowed.2.2 q hq p List.mem_cons_self
    simp [answers, hname, htext]
  rw [find?_ofMembers, hfirst]
  rfl

/-- The fields and the methods of a type are the first of each name that its declaration has. -/
theorem member?_own (h : Member.Apart members) (hp : p ∈ Member.declared members)
    (isMethod : Bool) (n : String) :
    (ofMembers members).members.member? isMethod (p.2.ownType p.1) n =
      (p.2.members.flatMap (ClassMember.declares (ofMembers members).names isMethod)).lookup n := by
  have howner : ∀ m ∈ owned members,
      (ofMembers members).names.find? m.1 = some (p.2.ownType p.1) ↔ m.1 = p.1 := by
    intro m hm
    obtain ⟨q, hq, hqm⟩ := List.mem_map.mp (fst_mem_of_mem_owned hm)
    rw [← hqm]
    constructor
    · intro hfind
      rw [find?_own h hq] at hfind
      exact (Ty.named.inj (Option.some.inj hfind)).1
    · intro he
      rw [he, find?_own h hp]
  have hnested : ∀ d, ClassMember.declares (ofMembers members).names isMethod (.nestedType d) = [] :=
    fun _ => rfl
  rw [member?_ofMembers]
  congr 1
  rw [← ofDeclared_eq h.distinct hp, ← ofOwner_owned hnested h.distinct]
  refine congrArg List.flatten (List.map_congr_left fun m hm => ?_)
  simp only [howner m hm]

end Declarations

/-! ### Bodies -/

namespace Binding.Own

mutual

/-- Binds a class or a struct with its own type for the type around its members. -/
def typeDeclaration (c : Context) (container : String) : TypeDeclaration → Cancellable Unit
  | ⟨_, isStruct, _, i, members⟩ => do
    unless i.isMissing do
      let name := qualify container i.text
      classMembers { c with owner? := some (.named name isStruct) } name members

def classMember (c : Context) (owner : String) : ClassMember → Cancellable Unit
  | .nestedType d => typeDeclaration c owner d
  | m => Binding.classMember c owner m

def classMembers (c : Context) (owner : String) : List ClassMember → Cancellable Unit
  | [] => pure ()
  | m :: ms => do
    poll
    classMember c owner m
    classMembers c owner ms

end

mutual

def member (c : Context) (container : String) (globals : ScopeChain) :
    Member → Cancellable ScopeChain
  | .namespaceMember n => namespaceDeclaration c container globals n
  | .typeMember d => do
    typeDeclaration c container d
    return globals
  | m => Binding.member c container globals m

def members (c : Context) (container : String) (globals : ScopeChain) :
    List Member → Cancellable ScopeChain
  | [] => return globals
  | m :: ms => do
    poll
    members c container (← member c container globals m) ms

def namespaceDeclaration (c : Context) (container : String) (globals : ScopeChain) :
    NamespaceDeclaration → Cancellable ScopeChain
  | ⟨_, name, _, ms⟩ => members c (qualify container name.dotted) globals ms

end

/-- Binds the bodies of a unit, each as a body of its own type. -/
def unit (c : Context) (u : CompilationUnit) : Cancellable Unit := do
  let globals ← declareLabels c u.globalStatements
  let _ ← members c "" globals.scopes u.members

end Binding.Own

namespace Binding

/-- Each of some declarations finds its own type by its qualified name. -/
def FindOwn (names : NamedTypes) (ps : List (String × TypeDeclaration)) : Prop :=
  ∀ p ∈ ps, names.find? p.1 = some (p.2.ownType p.1)

mutual

theorem typeDeclaration_eq_own {c : Context} (container : String) :
    (d : TypeDeclaration) → FindOwn c.names (d.withNested container) →
      typeDeclaration c container d = Own.typeDeclaration c container d
  | ⟨_, isStruct, _, i, ms⟩, h => by
    unfold typeDeclaration Own.typeDeclaration
    unfold TypeDeclaration.withNested at h
    by_cases hi : i.isMissing = true
    · rw [if_pos hi, if_pos hi]
    · rw [if_neg hi] at h ⊢
      rw [if_neg hi]
      obtain ⟨hown, hrest⟩ := List.forall_mem_cons.mp h
      have howner : c.names.find? (qualify container i.text) =
          some (.named (qualify container i.text) isStruct) := hown
      dsimp only
      rw [howner]
      exact classMembers_eq_own _ ms hrest

theorem classMembers_eq_own {c : Context} (owner : String) :
    (ms : List ClassMember) → FindOwn c.names (ClassMember.allNested owner ms) →
      classMembers c owner ms = Own.classMembers c owner ms
  | [], _ => rfl
  | .nestedType d :: ms, h => by
    obtain ⟨hd, hms⟩ := List.forall_mem_append.mp h
    unfold classMembers Own.classMembers classMember Own.classMember
    rw [typeDeclaration_eq_own owner d hd, classMembers_eq_own owner ms hms]
  | .field _ :: ms, h | .method _ :: ms, h | .conversion _ :: ms, h | .incomplete _ :: ms, h => by
    have hrest := classMembers_eq_own owner ms h
    unfold classMembers Own.classMembers Own.classMember
    rw [hrest]

end

/-- The types that are declared among some types with the names of their containers. -/
def allDeclared (types : List (String × TypeDeclaration)) : List (String × TypeDeclaration) :=
  types.flatMap fun (container, d) => d.withNested container

mutual

theorem member_eq_own {c : Context} (container : String) (globals : ScopeChain) :
    (m : Member) → FindOwn c.names (allDeclared (m.types container)) →
      member c container globals m = Own.member c container globals m
  | .namespaceMember n, h => namespaceDeclaration_eq_own container globals n h
  | .typeMember d, h => by
    have hd : FindOwn c.names (d.withNested container) := fun p hp =>
      h p (List.mem_flatMap.mpr ⟨_, List.mem_singleton_self _, hp⟩)
    unfold member Own.member
    rw [typeDeclaration_eq_own container d hd]
  | .globalStatement _, _ | .incomplete _, _ => rfl

theorem members_eq_own {c : Context} (container : String) (globals : ScopeChain) :
    (ms : List Member) → FindOwn c.names (allDeclared (Member.allTypes container ms)) →
      members c container globals ms = Own.members c container globals ms
  | [], _ => rfl
  | m :: ms, h => by
    unfold Member.allTypes allDeclared at h
    rw [List.flatMap_append] at h
    obtain ⟨hm, hms⟩ := List.forall_mem_append.mp h
    have hrest : ∀ globals, members c container globals ms = Own.members c container globals ms :=
      fun globals => members_eq_own container globals ms hms
    unfold members Own.members
    simp only [member_eq_own container globals m hm, hrest]

theorem namespaceDeclaration_eq_own {c : Context} (container : String) (globals : ScopeChain) :
    (n : NamespaceDeclaration) → FindOwn c.names (allDeclared (n.types container)) →
      namespaceDeclaration c container globals n = Own.namespaceDeclaration c container globals n
  | ⟨_, _, _, ms⟩, h => members_eq_own _ globals ms h

end

theorem unit_eq_own {c : Context} (u : CompilationUnit)
    (h : FindOwn c.names (Member.declared u.members)) : unit c u = Own.unit c u := by
  unfold unit Own.unit
  simp only [members_eq_own "" _ u.members h]

end Binding

/-- Types of different names stand at different places of a listing that holds them. -/
theorem placeOf_ownType_ne {l : Listing} (hl : l.Sound) {p q : String × TypeDeclaration}
    (hp : p.2.ownType p.1 ∈ l.types) (hq : q.2.ownType q.1 ∈ l.types) (hne : p.1 ≠ q.1) :
    l.placeOf (p.2.ownType p.1) ≠ l.placeOf (q.2.ownType q.1) := by
  intro he
  have htype := (hl.placeOf_inj hp hq).mp he
  exact hne (Ty.named.inj htype).1

/-- Where declarations are apart from each other, every declared type has its own members: its fields
and methods are the first of each name in its declaration, its bodies are bound as bodies of the type
of its qualified name, and types of different qualified names stand at different places. -/
theorem bindUnit_own (u : CompilationUnit) (h : Member.Apart u.members)
    (diagnostics : Array Diagnostic) (polls : Polls) :
    let ds := Declarations.ofMembers u.members
    let start : Binding.State := { listing := ds.listing, diagnostics }
    let bound := bindUnit u diagnostics polls
    (∀ p ∈ Member.declared u.members, ∀ n,
      ds.members.field? (p.2.ownType p.1) n =
          (p.2.members.flatMap (ClassMember.declares ds.names false)).lookup n ∧
        ds.members.method? (p.2.ownType p.1) n =
          (p.2.members.flatMap (ClassMember.declares ds.names true)).lookup n) ∧
    ((bound.1, bound.2.1), bound.2.2.state) = (Binding.Own.unit (.of ds) u).run polls start ∧
    ∀ p ∈ Member.declared u.members, ∀ q ∈ Member.declared u.members, p.1 ≠ q.1 →
      bound.2.2.listing.placeOf (p.2.ownType p.1) ≠
        bound.2.2.listing.placeOf (q.2.ownType q.1) := by
  intro ds start bound
  have hown : Binding.FindOwn ds.names (Member.declared u.members) := fun p hp =>
    Declarations.find?_own h hp
  refine ⟨fun p hp n => ?_, ?_, fun p hp q hq hne => ?_⟩
  · exact ⟨Declarations.member?_own h hp false n, Declarations.member?_own h hp true n⟩
  · rw [← Binding.unit_eq_own (c := .of ds) u hown]
    rfl
  · have hdeclared := Declarations.listed_ofMembers u.members
    have hgrows : ds.listing.Grows bound.2.2.listing :=
      (Binding.gains_bodies u (TypeSyntax.allAvoid_false _) diagnostics polls).grows
    have hsound := hgrows.sound (hdeclared.grows.sound Listing.sound_first)
    have hlisted : ∀ p ∈ Member.declared u.members, p.2.ownType p.1 ∈ bound.2.2.listing.types :=
      fun p hp => hgrows.mem (hdeclared.names p.1 _ (hown p hp))
    exact placeOf_ownType_ne hsound (hlisted p hp) (hlisted q hq) hne

/-- The declaration of a class `C` with a field `a` of a predefined type, from a place on. -/
def classWithField (start : Nat) (s : SpecialType) : TypeDeclaration :=
  let name := start + 11 + s.text.length
  let field : VariableDeclaration :=
    ⟨⟨start + 10, name + 1⟩, .predefined ⟨start + 10, name - 1⟩ s,
      [⟨⟨name, name + 1⟩, { text := "a", range := ⟨name, name + 1⟩ }, none⟩]⟩
  ⟨⟨start, name + 4⟩, false, [], { text := "C", range := ⟨start + 6, start + 7⟩ },
    [.field ⟨⟨start + 10, name + 2⟩, [], field⟩]⟩

/-- The members of `class C { bool a; } namespace N { class C { int a; } }`. -/
def outerFirst : List Member :=
  [.typeMember (classWithField 0 .bool),
    .namespaceMember ⟨⟨20, 54⟩, .name { text := "N", range := ⟨30, 31⟩ }, [],
      [.typeMember (classWithField 34 .int)]⟩]

theorem declared_outerFirst : Member.declared outerFirst =
    [("C", classWithField 0 .bool), ("N.C", classWithField 34 .int)] := rfl

theorem outerFirst_apart : Member.Apart outerFirst where
  distinct := by decide
  unshadowed := by decide

theorem bindUnit_own_outerFirst :
    let ds := Declarations.ofMembers outerFirst
    Member.Apart outerFirst ∧ ds.members.field? (.named "C" false) "a" = some .bool ∧
      ds.members.field? (.named "N.C" false) "a" = some .int := by
  intro ds
  obtain ⟨hmembers, -, -⟩ := bindUnit_own
    ⟨⟨0, 54⟩, [], outerFirst, ⟨.endOfFile, ⟨54, 54⟩, false⟩⟩ outerFirst_apart #[] none
  have houter := (hmembers ("C", classWithField 0 .bool) (by simp [declared_outerFirst]) "a").1
  have hinner := (hmembers ("N.C", classWithField 34 .int) (by simp [declared_outerFirst]) "a").1
  exact ⟨outerFirst_apart, houter, hinner⟩

/-- The members of `namespace N { class C { int a; } } class C { bool a; }`. -/
def innerFirst : List Member :=
  [.namespaceMember ⟨⟨0, 34⟩, .name { text := "N", range := ⟨10, 11⟩ }, [],
      [.typeMember (classWithField 14 .int)]⟩,
    .typeMember (classWithField 35 .bool)]

theorem declared_innerFirst : Member.declared innerFirst =
    [("N.C", classWithField 14 .int), ("C", classWithField 35 .bool)] := rfl

/-- Without the second condition a declaration can lose its members to an earlier one: here the class
`C` finds `N.C` by its name, which takes the field and is the type around the bodies. -/
theorem bindUnit_not_own :
    ¬ ∀ members : List Member, ((Member.declared members).map Prod.fst).Nodup →
      ∀ p ∈ Member.declared members, ∀ n,
        (Declarations.ofMembers members).members.field? (p.2.ownType p.1) n =
          (p.2.members.flatMap
            (ClassMember.declares (Declarations.ofMembers members).names false)).lookup n := by
  intro h
  have hfield := h innerFirst (by decide) ("C", classWithField 35 .bool)
    (by simp [declared_innerFirst]) "a"
  revert hfield
  decide

end CSharpFront
