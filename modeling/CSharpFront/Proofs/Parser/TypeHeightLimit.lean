import CSharpFront.Lexer.Scanner
import CSharpFront.Proofs.Parser.PlacesDeclarations
import CSharpFront.Proofs.Parser.TypeHeights
/-!
The nesting limit and the height of types. The limit bounds how deep types nest in the arguments of
each other, with or without a `?`. It does not bound how many pairs of brackets and how many dots a
type has: each of them makes a type one higher, and they are read in loops.
-/

namespace CSharpFront.Parser

variable {k : Nat} {r : Rules}

/-! ### Directives -/

theorem within_usingDirectives (hr : r.Within k) :
    YieldsWithin k (usingDirectives r) UsingDirective.allTypeNodes := by
  have hname : Yields (usingDirective r) fun d => d.name.Within k := by
    refine .next fun _ => .next fun _ => .next fun _ => .next fun _ => ?_
    exact .bind hr.name fun _ h => .next fun _ => .next fun _ => .pure h
  refine Keeps.imp (.many ?_) fun ds (hds : ∀ d ∈ ds, d.name.Within k) =>
    List.forall_mem_map.mpr hds
  exact .next fun _ => .ite (fun _ => .present hname) fun _ => .absent

/-! ### Members of types -/

theorem within_parameters (hr : r.Within k) :
    YieldsWithin k (parameters r) Parameter.allTypeNodes := by
  have hrest (start : Nat) (modifier? : Option Leaf) : Yields (do
      let type ← r.type true
      let identifier ← identifier
      return (⟨← rangeFrom start, modifier?, type, identifier⟩ : Parameter))
      (·.type.Within k) :=
    .bind (hr.type true) fun _ ht => .next fun _ => .next fun _ => .pure ht
  have hparameter : Yields (parameter r) fun p => p.type.Within k :=
    .next fun _ => .ite (fun _ => .next fun _ => hrest _ _) fun _ => hrest _ _
  refine .next fun _ => .next fun _ => ?_
  refine .iteBind (fun _ => .pure (List.forall_mem_nil _))
    (fun _ => yields_separated hparameter) fun ps hps => ?_
  exact .next fun _ => .pure (List.forall_mem_map.mpr hps)

theorem within_methodBody (hr : r.Within k) (isAsync : Bool) :
    Yields (methodBody r isAsync) fun b? => ∀ b ∈ b?, ∀ t ∈ b.typeNodes, t.Within k :=
  .next fun _ => .ite (fun _ => .absent)
    fun _ => .withReader (fun _ _ => Iff.rfl) (.present (within_block hr))

theorem within_methodRest (hr : r.Within k) (start : Nat) (modifiers : Modifiers)
    {type? : Option TypeSyntax} (ht : ∀ t ∈ type?.toList, t.Within k) (i : Identifier) :
    YieldsWithin k (methodRest r start modifiers type? i) ClassMember.typeNodes := by
  have hrest {ps : List Parameter} (hps : ∀ t ∈ Parameter.allTypeNodes ps, t.Within k) :
      YieldsWithin k (do
        let body? ← methodBody r (modifiers.contains .asyncMod)
        return ClassMember.method ⟨← rangeFrom start, modifiers, type?, i, ps, body?⟩)
        ClassMember.typeNodes := by
    refine .bind (within_methodBody hr _) fun b? hb => .next fun _ => .pure ?_
    have hb := forall_elim_typeNodes.mpr hb
    exact List.forall_mem_append.mpr ⟨ht, List.forall_mem_append.mpr ⟨hps, hb⟩⟩
  refine .bind (within_parameters hr) fun ps hps => ?_
  exact .ite (fun _ => .next fun _ => hrest hps) fun _ => hrest hps

theorem within_conversionOperator (hr : r.Within k) (start : Nat) (modifiers : Modifiers) :
    YieldsWithin k (conversionOperator r start modifiers) ClassMember.typeNodes := by
  refine .next fun _ => .next fun _ => .bind (hr.type true) fun type ht => ?_
  refine .bind (within_parameters hr) fun ps hps => ?_
  refine .bind (within_methodBody hr _) fun b? hb => .next fun _ => .pure ?_
  have hb := forall_elim_typeNodes.mpr hb
  exact List.forall_mem_cons.mpr ⟨ht, List.forall_mem_append.mpr ⟨hps, hb⟩⟩

theorem within_typedMember (hr : r.Within k) (start : Nat) (modifiers : Modifiers) :
    YieldsWithin k (typedMember r start modifiers) ClassMember.typeNodes := by
  refine .bind (hr.type true) fun type ht => .next fun i => .next fun _ => ?_
  refine .ite (fun _ => ?_) fun _ => ?_
  · have hreturn : ∀ t ∈ (some type).toList, t.Within k := List.forall_mem_singleton.mpr ht
    exact within_methodRest hr start modifiers hreturn i
  · refine .bind (within_declarators hr _ ht i) fun d hd => ?_
    exact .next fun _ => .next fun _ => .pure hd

theorem within_badMember (start : Nat) :
    YieldsWithin k (badMember start) ClassMember.typeNodes := by
  have hrest : YieldsWithin k (do return ClassMember.incomplete (← rangeFrom start))
      ClassMember.typeNodes :=
    .next fun _ => .pure (List.forall_mem_nil _)
  exact .next fun _ => .next fun _ => .ite (fun _ => hrest) fun _ =>
    .next fun _ => .next fun _ => .next fun _ => hrest

theorem within_plainMember (hr : r.Within k) (start : Nat) (modifiers : Modifiers) :
    YieldsWithin k (plainMember r start modifiers) ClassMember.typeNodes := by
  refine .next fun _ => .ite (fun _ => ?_) fun _ => .ite (fun _ => .next fun i => ?_) fun _ =>
    .ite (fun _ => within_typedMember hr start modifiers) fun _ => ?_
  · exact within_conversionOperator hr start modifiers
  · exact within_methodRest hr start modifiers (List.forall_mem_nil _) i
  · exact within_badMember start

theorem within_classMember (hr : r.Within k)
    {nestedType : Nat → Modifiers → Cancellable ClassMember}
    (hn : ∀ start modifiers,
      YieldsAll (nestedType start modifiers) fun m => ∀ t ∈ m.typeNodes, t.Within k) :
    YieldsAll (classMember r nestedType) fun m => ∀ t ∈ m.typeNodes, t.Within k :=
  .next fun _ => .next fun _ => .next fun _ =>
    .ite (hn _ _) (.lift (within_plainMember hr _ _))

/-! ### Types -/

theorem within_typeDeclaration (r : Rules) {members : Cancellable (List ClassMember)}
    (hm : YieldsAll members fun ms => ∀ m ∈ ms, ∀ t ∈ m.typeNodes, t.Within k) (start : Nat)
    (modifiers : Modifiers) :
    YieldsAll (typeDeclaration r members start modifiers)
      fun d => ∀ t ∈ d.typeNodes, t.Within k := by
  refine .next fun _ => .next fun _ => .next fun _ => .next fun _ => .next fun _ => ?_
  refine .bind hm fun ms hms => .next fun _ => .next fun _ => .pure ?_
  exact ClassMember.forall_allTypeNodes.mpr hms

theorem within_classMembers {n : Nat} (hn : 2 * n + 2 ≤ k) :
    YieldsAll (classMembers n) fun ms => ∀ m ∈ ms, ∀ t ∈ m.typeNodes, t.Within k := by
  induction n with
  | zero =>
    refine yields_membersUntil _ (within_classMember (within_rules hn) fun start _ => ?_)
    exact .next fun _ => .next fun _ => .lift (yields_refused (fun _ => List.forall_mem_nil _) start)
  | succ n ih =>
    refine yields_membersUntil _ (within_classMember (within_rules hn) fun start modifiers => ?_)
    refine yields_nestedDeclaration (yields_refused (fun _ => List.forall_mem_nil _) start) ?_
    exact (within_typeDeclaration (rules n) (ih (by omega)) start modifiers).map fun _ hd => hd

/-! ### Namespaces and units -/

theorem within_namespaceDeclaration (hr : r.Within k) {members : Cancellable (List Member)}
    (hm : YieldsAll members fun ms => ∀ m ∈ ms, ∀ t ∈ m.typeNodes, t.Within k) :
    YieldsAll (namespaceDeclaration r members) fun n => ∀ t ∈ n.typeNodes, t.Within k := by
  refine .next fun _ => .next fun _ => .bind (.lift hr.name) fun name hname => .next fun b => ?_
  have hlast (start : Nat) {us : List UsingDirective} {ms : List Member}
      (hus : ∀ t ∈ UsingDirective.allTypeNodes us, t.Within k)
      (hms : ∀ m ∈ ms, ∀ t ∈ m.typeNodes, t.Within k) :
      YieldsAll (do return (⟨← rangeFrom start, name, us, ms⟩ : NamespaceDeclaration))
        fun n => ∀ t ∈ n.typeNodes, t.Within k := by
    have hms := Member.forall_allTypeNodes.mpr hms
    refine .next fun _ => .pure ?_
    exact List.forall_mem_cons.mpr ⟨hname, List.forall_mem_append.mpr ⟨hus, hms⟩⟩
  have hrest (start : Nat) : YieldsAll (do
      let usings ← usingDirectives r
      let members ← members
      if !b then
        let _ ← eat (.punct .closeBrace)
      return (⟨← rangeFrom start, name, usings, members⟩ : NamespaceDeclaration))
      fun n => ∀ t ∈ n.typeNodes, t.Within k :=
    .bind (.lift (within_usingDirectives hr)) fun us hus => .bind hm fun ms hms =>
      .ite (.next fun _ => hlast start hus hms) (hlast start hus hms)
  exact .ite (.next fun _ => hrest _) (hrest _)

theorem within_globalStatement (hr : r.Within k) :
    YieldsWithin k (globalStatement r) Member.typeNodes :=
  .withReader (fun _ _ => Iff.rfl) (hr.statement.map fun _ hs => hs)

theorem within_badGlobalMember : YieldsWithin k badGlobalMember Member.typeNodes :=
  .next fun _ => .next fun _ => .next fun _ => .next fun _ => .pure (List.forall_mem_nil _)

theorem within_member (hr : r.Within k) (inNamespace : Bool)
    {declaration : Nat → Cancellable Member}
    (hd : ∀ start, YieldsAll (declaration start) fun m => ∀ t ∈ m.typeNodes, t.Within k) :
    YieldsAll (member r inNamespace declaration) fun m => ∀ t ∈ m.typeNodes, t.Within k := by
  refine .next fun _ => .next fun _ => .ite (hd _) (.ite ?_ ?_)
  · exact .lift (within_globalStatement hr)
  · exact .lift within_badGlobalMember

theorem within_declarationBody (hr : r.Within k)
    {namespaceMembers : Cancellable (List Member)}
    (hn : YieldsAll namespaceMembers fun ms => ∀ m ∈ ms, ∀ t ∈ m.typeNodes, t.Within k)
    {classMembers : Cancellable (List ClassMember)}
    (hc : YieldsAll classMembers fun ms => ∀ m ∈ ms, ∀ t ∈ m.typeNodes, t.Within k)
    (start : Nat) :
    YieldsAll (declarationBody r namespaceMembers classMembers start)
      fun m => ∀ t ∈ m.typeNodes, t.Within k := by
  refine .next fun _ => .ite ?_ (.next fun modifiers => ?_)
  · exact (within_namespaceDeclaration hr hn).map fun _ h => h
  · exact (within_typeDeclaration r hc start modifiers).map fun _ h => h

theorem within_members {n : Nat} (hn : 2 * n + 2 ≤ k) (inNamespace : Bool) :
    YieldsAll (members n inNamespace) fun ms => ∀ m ∈ ms, ∀ t ∈ m.typeNodes, t.Within k := by
  induction n generalizing inNamespace with
  | zero =>
    refine yields_membersUntil _ (within_member (within_rules hn) _ fun start => ?_)
    exact .next fun _ => .next fun _ => .lift (yields_refused (fun _ => List.forall_mem_nil _) start)
  | succ n ih =>
    have hn' : 2 * n + 2 ≤ k := by omega
    refine yields_membersUntil _ (within_member (within_rules hn) _ fun start => ?_)
    refine yields_nestedDeclaration (yields_refused (fun _ => List.forall_mem_nil _) start) ?_
    exact within_declarationBody (within_rules hn') (ih hn' true) (within_classMembers hn') start

theorem within_compilationUnit (n : Nat) :
    YieldsAll (compilationUnit n) fun u => ∀ t ∈ u.typeNodes, t.Within (2 * n + 2) := by
  have hr : (rules n).Within (2 * n + 2) := within_rules (Nat.le_refl _)
  refine .bind (.lift (within_usingDirectives hr)) fun us hus => ?_
  refine .bind (within_members (Nat.le_refl _) false) fun ms hms => .next fun _ => .pure ?_
  exact List.forall_mem_append.mpr ⟨hus, Member.forall_allTypeNodes.mpr hms⟩

/-- A type of a unit is no higher than about twice the nesting limit, with its brackets and dots on
top. -/
theorem height_typeNodes_le (stream : TokenStream) (maxDepth : Nat) (before : Array Diagnostic) :
    ∃ u s, parseUnit stream maxDepth before none = (.ok u, s) ∧
      ∀ t ∈ u.typeNodes, t.height ≤ 2 * maxDepth + 4 + t.links := by
  obtain ⟨u, s, hrun⟩ := exists_parseUnit_eq stream maxDepth before
  have hwithin := (within_compilationUnit (maxDepth + 1) (.of stream maxDepth)
    (.start stream before none) trivial).1
  exact ⟨u, s, hrun, hwithin u (congrArg Prod.fst hrun)⟩

/-- An array of arrays, in nine pairs of brackets. -/
def nestedArrays : String := "int[][][][][][][][][] x;"

/-- Three times the limit does not bound the height of types: the brackets of an array of arrays
make it higher, though they are read within one level. -/
theorem parseUnit_outgrows_types :
    ¬ ∀ (text : String) (maxDepth : Nat) (u : CompilationUnit),
      (parseUnit (scan text).1 maxDepth (scan text).2 none).1 = .ok u →
        ∀ t ∈ u.typeNodes, t.height ≤ 3 * maxDepth + 3 := by
  intro h
  have hheights : (parseUnit (scan nestedArrays).1 2 (scan nestedArrays).2 none).1.toOption.map
      (·.typeNodes.map (·.height)) = some [10] := by
    rw [show scan nestedArrays = _ from scan_ofList _]
    decide +kernel
  obtain ⟨u, s, hrun⟩ := exists_parseUnit_eq (scan nestedArrays).1 2 (scan nestedArrays).2
  rw [hrun] at hheights
  have h10 : u.typeNodes.map (·.height) = [10] := Option.some.inj hheights
  obtain ⟨t, ht, hheight⟩ := List.mem_map.mp (h10 ▸ List.mem_singleton_self 10)
  have hle : t.height ≤ 3 * 2 + 3 := h nestedArrays 2 u (congrArg Prod.fst hrun) t ht
  omega

end CSharpFront.Parser
