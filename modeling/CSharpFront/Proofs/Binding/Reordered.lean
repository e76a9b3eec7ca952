import Mathlib.Data.List.Nodup
import Mathlib.Data.List.TakeWhile
import CSharpFront.Proofs.Binding.Alike
/-!
Declarations in another order. Where the declared types have different simple names, and no simple
name has a dot, at most one of them answers to a name, be it simple or qualified. Then the order of
the declarations does not matter to what a name means, to which members a type has and to which
conversions there are.
-/

namespace CSharpFront

/-! ### Simple names -/

/-- What follows the last dot of a name. -/
def lastPart (name : String) : List Char := (name.toList.reverse.takeWhile (· ≠ '.')).reverse

/-- A name without a dot is the last part of a name that it qualifies. -/
theorem lastPart_qualify (container : String) {name : String} (h : '.' ∉ name.toList) :
    lastPart (qualify container name) = name.toList := by
  have hall : ∀ c ∈ name.toList.reverse, (decide (c ≠ '.')) = true := by
    intro c hc
    exact decide_eq_true fun he => h (he ▸ List.mem_reverse.mp hc)
  have hself : name.toList.reverse.takeWhile (· ≠ '.') = name.toList.reverse :=
    List.takeWhile_eq_self_iff.mpr hall
  unfold lastPart qualify
  split
  · rw [hself, List.reverse_reverse]
  · have hlist : (container ++ "." ++ name).toList.reverse =
        name.toList.reverse ++ '.' :: container.toList.reverse := by
      simp
    rw [hlist, List.takeWhile_append, hself]
    simp

mutual

/-- A qualified name ends in the simple name. -/
theorem exists_qualify_of_mem_withNested {container : String} {p : String × TypeDeclaration} :
    (d : TypeDeclaration) → p ∈ d.withNested container →
      ∃ outer, p.1 = qualify outer p.2.identifier.text
  | ⟨_, _, _, i, ms⟩, h => by
    unfold TypeDeclaration.withNested at h
    split at h
    · cases h
    · rcases List.mem_cons.mp h with rfl | h
      · exact ⟨container, rfl⟩
      · exact exists_qualify_of_mem_allNested ms h

theorem exists_qualify_of_mem_allNested {container : String} {p : String × TypeDeclaration} :
    (ms : List ClassMember) → p ∈ ClassMember.allNested container ms →
      ∃ outer, p.1 = qualify outer p.2.identifier.text
  | .nestedType d :: ms, h => by
    rcases List.mem_append.mp h with h | h
    · exact exists_qualify_of_mem_withNested d h
    · exact exists_qualify_of_mem_allNested ms h
  | .field _ :: ms, h | .method _ :: ms, h | .conversion _ :: ms, h | .incomplete _ :: ms, h =>
    exists_qualify_of_mem_allNested ms h

end

namespace Member

/-- The declared types have different simple names, without dots. -/
structure PlainlyNamed (members : List Member) : Prop where
  plain : ∀ p ∈ declared members, '.' ∉ p.2.identifier.text.toList
  distinct : ((declared members).map (·.2.identifier.text)).Nodup

variable {members members' : List Member} {p q : String × TypeDeclaration}

theorem allTypes_eq_flatMap (container : String) (ms : List Member) :
    allTypes container ms = ms.flatMap (types container) := by
  induction ms with
  | nil => rfl
  | cons m ms ih => rw [allTypes, ih, List.flatMap_cons]

theorem perm_declared (h : members.Perm members') :
    (declared members).Perm (declared members') := by
  unfold declared
  rw [allTypes_eq_flatMap, allTypes_eq_flatMap]
  exact (h.flatMap_right _).flatMap_right _

namespace PlainlyNamed

theorem perm (hn : PlainlyNamed members) (h : members.Perm members') : PlainlyNamed members' where
  plain p hp := hn.plain p ((perm_declared h).mem_iff.mpr hp)
  distinct := ((perm_declared h).map _).nodup_iff.mp hn.distinct

theorem eq_of_text_eq (hn : PlainlyNamed members) (hp : p ∈ declared members)
    (hq : q ∈ declared members) (h : p.2.identifier.text = q.2.identifier.text) : p = q :=
  List.inj_on_of_nodup_map hn.distinct hp hq h

theorem lastPart_eq (hn : PlainlyNamed members) (hp : p ∈ declared members) :
    lastPart p.1 = p.2.identifier.text.toList := by
  obtain ⟨⟨container, d⟩, -, hd⟩ := List.mem_flatMap.mp hp
  obtain ⟨outer, hname⟩ := exists_qualify_of_mem_withNested d hd
  rw [hname, lastPart_qualify outer (hn.plain p hp)]

/-- A declaration answers to no name but those that end in its simple one. -/
theorem lastPart_of_answers (hn : PlainlyNamed members) (hp : p ∈ declared members) {n : String}
    (h : Declarations.answers n p = true) : lastPart n = p.2.identifier.text.toList := by
  rcases Bool.or_eq_true_iff.mp h with h | h
  · rw [of_decide_eq_true h]
    exact hn.lastPart_eq hp
  · rw [of_decide_eq_true h]
    exact lastPart_qualify "" (hn.plain p hp)

/-- No two declarations answer to one name. -/
theorem eq_of_answers (hn : PlainlyNamed members) (hp : p ∈ declared members)
    (hq : q ∈ declared members) {n : String} (hnp : Declarations.answers n p = true)
    (hnq : Declarations.answers n q = true) : p = q := by
  have htext := (hn.lastPart_of_answers hp hnp).symm.trans (hn.lastPart_of_answers hq hnq)
  exact hn.eq_of_text_eq hp hq (String.toList_inj.mp htext)

theorem apart (hn : PlainlyNamed members) : Apart members where
  distinct := by
    refine (List.Nodup.of_map _ hn.distinct).map_on fun p hp q hq h => ?_
    have hanswers : Declarations.answers p.1 q = true := by simp [Declarations.answers, h]
    exact hn.eq_of_answers hp hq (by simp [Declarations.answers]) hanswers
  unshadowed := by
    refine (List.pairwise_map.mp hn.distinct).imp_of_mem fun {p q} hp hq hne h => hne ?_
    have hlast := hn.lastPart_eq hq
    rw [h] at hlast
    exact String.toList_inj.mp ((lastPart_qualify "" (hn.plain p hp)).symm.trans hlast)

end PlainlyNamed

end Member

/-! ### Declarations in another order -/

/-- What is found in a list does not depend on its order, if only one item fits. -/
theorem find?_perm {α : Type} {p : α → Bool} {as bs : List α} (h : as.Perm bs)
    (hp : ∀ a ∈ as, ∀ b ∈ as, p a = true → p b = true → a = b) : as.find? p = bs.find? p := by
  cases ha : as.find? p with
  | none =>
    refine (List.find?_eq_none.mpr fun b hb => ?_).symm
    exact List.find?_eq_none.mp ha b (h.mem_iff.mpr hb)
  | some a =>
    have hmem := List.mem_of_find?_eq_some ha
    cases hb : bs.find? p with
    | none => exact absurd (List.find?_some ha) (List.find?_eq_none.mp hb a (h.mem_iff.mp hmem))
    | some b =>
      have hmem' := h.mem_iff.mpr (List.mem_of_find?_eq_some hb)
      rw [hp a hmem b hmem' (List.find?_some ha) (List.find?_some hb)]

namespace ClassMember

/-- The conversion that a member declares, unless a type in it means nothing. -/
def converts (names : NamedTypes) : ClassMember → List DeclaredConversion
  | .conversion o =>
    let source := match o.parameters with
      | [] => .error
      | p :: _ => p.type.meaning names
    let target := o.type.meaning names
    if source.isError || target.isError then [] else [⟨source, target, o.isImplicit⟩]
  | .field _ | .method _ | .nestedType _ | .incomplete _ => []

variable {names names' : NamedTypes}

theorem declares_congr (h : ∀ n, names.find? n = names'.find? n) (isMethod : Bool)
    (m : ClassMember) : m.declares names isMethod = m.declares names' isMethod := by
  cases m <;> simp only [declares, TypeSyntax.meaning_congr h]

theorem converts_congr (h : ∀ n, names.find? n = names'.find? n) (m : ClassMember) :
    m.converts names = m.converts names' := by
  cases m <;> simp only [converts, TypeSyntax.meaning_congr h]

end ClassMember

namespace Declarations

theorem conversions_addConversion (ds : Declarations) (o : ConversionOperator) :
    (ds.addConversion o).conversions =
      ds.conversions ++ (ClassMember.conversion o).converts ds.names := by
  have hmeaning (ds : Declarations) (type : TypeSyntax) :
      (ds.resolve type).1 = type.meaning ds.names := fst_resolve ds.names ds.listing type
  have hresult {source source' target target' : Ty} (isImplicit : Bool) (ds' : Declarations)
      (h : ds'.conversions = ds.conversions) (hs : source = source') (ht : target = target') :
      (if source.isError || target.isError then ds'
        else { ds' with
          conversions := ds'.conversions ++ [⟨source, target, isImplicit⟩] }).conversions =
        ds.conversions ++
          if source'.isError || target'.isError then [] else [⟨source', target', isImplicit⟩] := by
    subst hs ht
    split <;> simp [h]
  obtain ⟨range, modifiers, kind, type, parameters, body?⟩ := o
  cases parameters with
  | nil => exact hresult _ (ds.resolve type).2 rfl rfl (hmeaning ds type)
  | cons p ps =>
    exact hresult _ ((ds.resolve type).2.resolve p.type).2 rfl (hmeaning (ds.resolve type).2 p.type)
      (hmeaning ds type)

/-- A member adds the conversion that it declares, if its owner is known. -/
theorem conversions_addMember (ds : Declarations) (owner : String) (m : ClassMember) :
    (ds.addMember owner m).conversions =
      ds.conversions ++ if (ds.names.find? owner).isSome then m.converts ds.names else [] := by
  unfold addMember
  cases ds.names.find? owner with
  | none => simp
  | some t =>
    cases m with
    | field f => exact (List.append_nil _).symm
    | method m =>
      have hsame : (ds.addMethod t m).conversions = ds.conversions := by
        unfold addMethod
        split
        · rfl
        · dsimp only
          split <;> rfl
      exact hsame.trans (List.append_nil _).symm
    | conversion o => exact conversions_addConversion ds o
    | nestedType | incomplete => exact (List.append_nil _).symm

theorem conversions_foldl_addMember (ms : List (String × ClassMember)) (ds : Declarations) :
    (ms.foldl (fun ds m => ds.addMember m.1 m.2) ds).conversions = ds.conversions ++
      ms.flatMap fun m => if (ds.names.find? m.1).isSome then m.2.converts ds.names else [] := by
  induction ms generalizing ds with
  | nil => simp
  | cons m ms ih =>
    rw [List.foldl_cons, ih, names_addMember, conversions_addMember, List.flatMap_cons,
      List.append_assoc]

theorem conversions_ofMembers (members : List Member) :
    let names := (ofMembers members).names
    (ofMembers members).conversions =
      (owned members).flatMap fun m =>
        if (names.find? m.1).isSome then m.2.converts names else [] := by
  have hnone (ps : List (String × TypeDeclaration)) (ds : Declarations) :
      (ps.foldl (fun ds p => ds.addType p.1 p.2) ds).conversions = ds.conversions := by
    induction ps generalizing ds with
    | nil => rfl
    | cons p ps ih => exact ih (ds.addType p.1 p.2)
  intro names
  have hnames : names = (named members).names := by
    rw [← names_foldl_addMember (owned members)]
    rfl
  have hfirst : (named members).conversions = [] := hnone _ _
  rw [hnames, ofMembers_eq, conversions_foldl_addMember, hfirst, List.nil_append]

variable {members members' : List Member}

theorem perm_owned (h : members.Perm members') : (owned members).Perm (owned members') := by
  unfold owned
  rw [Member.allTypes_eq_flatMap, Member.allTypes_eq_flatMap]
  exact (h.flatMap_right _).flatMap_right _

/-- A name means the same in each order of the declarations. -/
theorem find?_perm_ofMembers (hn : Member.PlainlyNamed members) (h : members.Perm members')
    (n : String) : (ofMembers members).names.find? n = (ofMembers members').names.find? n := by
  rw [find?_ofMembers, find?_ofMembers]
  refine congrArg (Option.map _) (find?_perm (Member.perm_declared h) fun p hp q hq => ?_)
  exact hn.eq_of_answers hp hq

/-- A type that no declaration makes has no members. -/
theorem member?_of_not_declared (h : Member.Apart members) {o : Ty}
    (ho : ∀ p ∈ Member.declared members, p.2.ownType p.1 ≠ o) (isMethod : Bool) (n : String) :
    (ofMembers members).members.member? isMethod o n = none := by
  rw [member?_ofMembers]
  refine List.lookup_eq_none_iff.mpr fun x hx => ?_
  obtain ⟨m, hm, hx⟩ := List.mem_flatMap.mp hx
  obtain ⟨q, hq, hqm⟩ := List.mem_map.mp (fst_mem_of_mem_owned hm)
  have hne : (ofMembers members).names.find? m.1 ≠ some o := by
    rw [← hqm, find?_own h hq]
    exact fun he => ho q hq (Option.some.inj he)
  rw [if_neg hne] at hx
  cases hx

/-- Types have the same members in each order of the declarations. -/
theorem members_alike_ofMembers (hn : Member.PlainlyNamed members) (h : members.Perm members') :
    (ofMembers members).members.Alike (ofMembers members').members := by
  intro isMethod o n
  have hnames := find?_perm_ofMembers hn h
  have hapart := hn.apart
  have hapart' := (hn.perm h).apart
  by_cases ho : ∃ p ∈ Member.declared members, p.2.ownType p.1 = o
  · obtain ⟨p, hp, rfl⟩ := ho
    have hp' := (Member.perm_declared h).mem_iff.mp hp
    have hdeclares : ClassMember.declares (ofMembers members).names isMethod =
        ClassMember.declares (ofMembers members').names isMethod :=
      funext (ClassMember.declares_congr hnames isMethod)
    rw [member?_own hapart hp, member?_own hapart' hp', hdeclares]
  · have hnot : ∀ p ∈ Member.declared members, p.2.ownType p.1 ≠ o := fun p hp he => ho ⟨p, hp, he⟩
    have hnot' : ∀ p ∈ Member.declared members', p.2.ownType p.1 ≠ o := fun p hp =>
      hnot p ((Member.perm_declared h).mem_iff.mpr hp)
    rw [member?_of_not_declared hapart hnot, member?_of_not_declared hapart' hnot']

/-- The same conversions are declared in each order of the declarations. -/
theorem mem_conversions_ofMembers (hn : Member.PlainlyNamed members) (h : members.Perm members')
    (x : DeclaredConversion) :
    x ∈ (ofMembers members).conversions ↔ x ∈ (ofMembers members').conversions := by
  have hnames := find?_perm_ofMembers hn h
  rw [conversions_ofMembers, conversions_ofMembers]
  simp only [hnames, ClassMember.converts_congr hnames]
  exact ((perm_owned h).flatMap_right _).mem_iff

/-- The context of the bodies sees the same in each order of the declarations. -/
theorem context_alike_ofMembers (hn : Member.PlainlyNamed members) (h : members.Perm members') :
    (Binding.Context.of (ofMembers members)).Alike (.of (ofMembers members')) where
  names := find?_perm_ofMembers hn h
  members := members_alike_ofMembers hn h
  conversions := mem_conversions_ofMembers hn h
  scopes := rfl
  owner := rfl
  returns := rfl
  inLoop := rfl

end Declarations

/-! ### Units of types -/

namespace Binding

/-- What is reported of a type that is bound by itself. -/
def reports (c : Context) (d : TypeDeclaration) : List Diagnostic :=
  ((typeDeclaration c "" d).run none {}).2.diagnostics.toList

/-- The places of the labels to which a type jumps that is bound by itself. -/
def jumps (c : Context) (d : TypeDeclaration) : List Nat :=
  ((typeDeclaration c "" d).run none {}).2.referenced

/-- What a type does in a context it does in each that sees the same. -/
theorem does_typeDeclaration {c c' : Context} (hc : c.Alike c') (d : TypeDeclaration) :
    Does ((typeDeclaration c' "" d).run none) (.ok (), none) (reports c d) (jumps c d) := by
  obtain ⟨_, reports', jumps', hd, hd'⟩ := agreeAll_typeDeclaration hc "" d
  have hreports : reports c d = reports' := hd.diagnostics {}
  have hjumps : jumps c d = jumps' := (hd.referenced {}).trans (List.append_nil jumps')
  rw [hreports, hjumps]
  exact hd'

theorem does_members {c c' : Context} (hc : c.Alike c') (g : ScopeChain)
    (ds : List TypeDeclaration) :
    Does ((members c' "" g (ds.map .typeMember)).run none) (.ok g, none) (ds.flatMap (reports c))
      (ds.reverse.flatMap (jumps c)) := by
  induction ds with
  | nil => exact .pure _
  | cons d ds ih =>
    have hmember : Does ((member c' "" g (.typeMember d)).run none) (.ok g, none)
        (reports c d ++ []) ([] ++ jumps c d) :=
      (does_typeDeclaration hc d).bindAll (.pure _)
    have hpoll : Does (poll.run none) (.ok (), none) [] [] := .pure _
    have hall := hpoll.bindAll (f := fun _ => member c' "" g (.typeMember d) >>= fun g =>
      members c' "" g (ds.map .typeMember)) (hmember.bindAll ih)
    simpa [members] using hall

end Binding

end CSharpFront
