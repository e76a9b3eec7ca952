import CSharpFront.Proofs.Binding.TellsUnit
import CSharpFront.Proofs.Syntax.Respelled
/-!
The names of trees. What holds of every identifier of a tree that corresponds to one of another tree
holds of the names that the binder puts into its reports: those of variables and labels, and the
qualified names of types.
-/

namespace CSharpFront

variable {names : Identifier → Identifier → Prop} {good : Identifier → Prop}

theorem forall_mem_map_of_forall₂ {α : Type} {rel : α → α → Prop} {f : α → Identifier}
    (hrel : ∀ a a', rel a a' → good (f a)) {as as' : List α} (h : List.Forall₂ rel as as') :
    ∀ i ∈ as.map f, good i := by
  induction h with
  | nil => exact List.forall_mem_nil _
  | cons ha _ ih => exact List.forall_mem_cons.mpr ⟨hrel _ _ ha, ih⟩

/-! ### Variables and labels -/

theorem VariableDeclaration.good_names (hn : ∀ i i', names i i' → good i)
    {d d' : VariableDeclaration} (h : d.Respelled names d') :
    ∀ i ∈ d.declarators.map (·.identifier), good i :=
  forall_mem_map_of_forall₂ (fun _ _ hd => hn _ _ hd.identifier) h.declarators

theorem Parameter.good_names (hn : ∀ i i', names i i' → good i) {ps ps' : List Parameter}
    (h : List.Forall₂ (Parameter.Respelled names) ps ps') :
    ∀ i ∈ ps.map (·.identifier), good i :=
  forall_mem_map_of_forall₂ (fun _ _ hp => hn _ _ hp.identifier) h

theorem ForHeader.good_names (hn : ∀ i i', names i i' → good i) {h h' : ForHeader}
    (hh : h.Respelled names h') : ∀ i ∈ h.names, good i := by
  have hinitializer := hh.initializer
  unfold ForHeader.names
  generalize h.initializer? = i?, h'.initializer? = i?' at hinitializer
  cases hinitializer with
  | none => exact List.forall_mem_nil _
  | some hi =>
    cases hi with
    | declaration hd => exact VariableDeclaration.good_names hn hd
    | expressions _ => exact List.forall_mem_nil _

mutual

theorem Stmt.good_names (hn : ∀ i i', names i i' → good i) :
    (s : Stmt) → {s' : Stmt} → s.Respelled names s' → ∀ i ∈ s.names, good i
  | .block ⟨_, _, ss, _⟩, _, .block (.mk _ _ _ hss) => Stmt.good_allNames hn ss hss
  | .localDeclaration .., _, .localDeclaration _ _ _ hd => VariableDeclaration.good_names hn hd
  | .ifElse _ _ s s?, _, h => by
    cases h with
    | ifElse _ _ hs hs? =>
      have hbody := Stmt.good_names hn s hs
      unfold Stmt.names
      refine List.forall_mem_append.mpr ⟨hbody, ?_⟩
      cases hs? with
      | none => exact List.forall_mem_nil _
      | some hother => exact Stmt.good_names hn _ hother
  | .whileLoop _ _ s, _, .whileLoop _ _ hs => Stmt.good_names hn s hs
  | .doLoop _ s _, _, .doLoop _ hs _ => Stmt.good_names hn s hs
  | .forLoop _ _ s, _, .forLoop _ hh hs =>
    List.forall_mem_append.mpr ⟨ForHeader.good_names hn hh, Stmt.good_names hn s hs⟩
  | .goto .., _, .goto _ hi => List.forall_mem_singleton.mpr (hn _ _ hi)
  | .labeled _ _ s, _, .labeled _ hi hs =>
    List.forall_mem_cons.mpr ⟨hn _ _ hi, Stmt.good_names hn s hs⟩
  | .empty _, _, _ | .expression .., _, _ | .returnValue .., _, _ | .breakLoop _, _, _
  | .continueLoop _, _, _ => List.forall_mem_nil _

theorem Stmt.good_allNames (hn : ∀ i i', names i i' → good i) :
    (ss : List Stmt) → {ss' : List Stmt} → List.Forall₂ (Stmt.Respelled names) ss ss' →
      ∀ i ∈ Stmt.allNames ss, good i
  | [], _, _ => List.forall_mem_nil _
  | s :: ss, _, .cons hs hss =>
    List.forall_mem_append.mpr ⟨Stmt.good_names hn s hs, Stmt.good_allNames hn ss hss⟩

end

theorem Block.good_names? (hn : ∀ i i', names i i' → good i) {b? b?' : Option Block}
    (h : Option.Rel (Block.Respelled names) b? b?') : ∀ i ∈ Block.names? b?, good i := by
  cases h with
  | none => exact List.forall_mem_nil _
  | some hb => exact Stmt.good_names hn _ (.block hb)

mutual

theorem TypeDeclaration.good_names (hn : ∀ i i', names i i' → good i) :
    (d : TypeDeclaration) → {d' : TypeDeclaration} → d.Respelled names d' →
      ∀ i ∈ d.names, good i
  | ⟨_, _, _, _, ms⟩, _, .mk _ _ _ _ hms => ClassMember.good_allNames hn ms hms

theorem ClassMember.good_names (hn : ∀ i i', names i i' → good i) :
    (m : ClassMember) → {m' : ClassMember} → m.Respelled names m' → ∀ i ∈ m.names, good i
  | .method _, _, .method hm =>
    List.forall_mem_append.mpr ⟨Parameter.good_names hn hm.parameters,
      Block.good_names? hn hm.body⟩
  | .conversion _, _, .conversion ho =>
    List.forall_mem_append.mpr ⟨Parameter.good_names hn ho.parameters,
      Block.good_names? hn ho.body⟩
  | .nestedType d, _, .nestedType hd => TypeDeclaration.good_names hn d hd
  | .field _, _, _ | .incomplete _, _, _ => List.forall_mem_nil _

theorem ClassMember.good_allNames (hn : ∀ i i', names i i' → good i) :
    (ms : List ClassMember) → {ms' : List ClassMember} →
      List.Forall₂ (ClassMember.Respelled names) ms ms' → ∀ i ∈ ClassMember.allNames ms, good i
  | [], _, _ => List.forall_mem_nil _
  | m :: ms, _, .cons hm hms =>
    List.forall_mem_append.mpr ⟨ClassMember.good_names hn m hm, ClassMember.good_allNames hn ms hms⟩

end

mutual

theorem Member.good_names (hn : ∀ i i', names i i' → good i) :
    (m : Member) → {m' : Member} → m.Respelled names m' → ∀ i ∈ m.names, good i
  | .namespaceMember n, _, .namespaceMember h => NamespaceDeclaration.good_names hn n h
  | .typeMember d, _, .typeMember h => TypeDeclaration.good_names hn d h
  | .globalStatement s, _, .globalStatement h => Stmt.good_names hn s h
  | .incomplete _, _, _ => List.forall_mem_nil _

theorem Member.good_allNames (hn : ∀ i i', names i i' → good i) :
    (ms : List Member) → {ms' : List Member} → List.Forall₂ (Member.Respelled names) ms ms' →
      ∀ i ∈ Member.allNames ms, good i
  | [], _, _ => List.forall_mem_nil _
  | m :: ms, _, .cons hm hms =>
    List.forall_mem_append.mpr ⟨Member.good_names hn m hm, Member.good_allNames hn ms hms⟩

theorem NamespaceDeclaration.good_names (hn : ∀ i i', names i i' → good i) :
    (n : NamespaceDeclaration) → {n' : NamespaceDeclaration} → n.Respelled names n' →
      ∀ i ∈ n.names, good i
  | ⟨_, _, _, ms⟩, _, .mk _ _ _ hms => Member.good_allNames hn ms hms

end

/-! ### Types -/

variable {ok : String → Prop}

theorem TypeSyntax.ok_dotted (w : Wording ok) (hn : ∀ i i', names i i' → ok i.text) :
    (t : TypeSyntax) → {t' : TypeSyntax} → t.Respelled names t' → ok t.dotted
  | .name _, _, .name hi => hn _ _ hi
  | .qualified _ l r, _, .qualified _ hl hr =>
    w.append (w.append (TypeSyntax.ok_dotted w hn l hl) (w.plain (by decide)))
      (TypeSyntax.ok_dotted w hn r hr)
  | .generic .., _, .generic _ hi _ => hn _ _ hi
  | .predefined .., _, _ | .nullable .., _, _ | .array .., _, _ | .missing _, _, _ =>
    w.plain (s := "") (by decide)

mutual

/-- The qualified names of a type and of those nested in it. -/
theorem TypeDeclaration.ok_withNested (w : Wording ok) (hn : ∀ i i', names i i' → ok i.text) :
    (d : TypeDeclaration) → {d' : TypeDeclaration} → d.Respelled names d' → ∀ {container},
      ok container → ∀ p ∈ d.withNested container, ok p.1
  | ⟨_, _, _, i, ms⟩, _, .mk _ _ _ hi hms, container, hc => by
    have hname := w.qualify hc (hn _ _ hi)
    unfold TypeDeclaration.withNested
    split
    · exact List.forall_mem_nil _
    · exact List.forall_mem_cons.mpr ⟨hname, ClassMember.ok_allNested w hn ms hms hname⟩

theorem ClassMember.ok_nested (w : Wording ok) (hn : ∀ i i', names i i' → ok i.text) :
    (m : ClassMember) → {m' : ClassMember} → m.Respelled names m' → ∀ {container},
      ok container → ∀ p ∈ m.nested container, ok p.1
  | .nestedType d, _, .nestedType hd, _, hc => TypeDeclaration.ok_withNested w hn d hd hc
  | .field _, _, _, _, _ | .method _, _, _, _, _ | .conversion _, _, _, _, _
  | .incomplete _, _, _, _, _ => List.forall_mem_nil _

theorem ClassMember.ok_allNested (w : Wording ok) (hn : ∀ i i', names i i' → ok i.text) :
    (ms : List ClassMember) → {ms' : List ClassMember} →
      List.Forall₂ (ClassMember.Respelled names) ms ms' → ∀ {container},
      ok container → ∀ p ∈ ClassMember.allNested container ms, ok p.1
  | [], _, _, _, _ => List.forall_mem_nil _
  | m :: ms, _, .cons hm hms, _, hc =>
    List.forall_mem_append.mpr ⟨ClassMember.ok_nested w hn m hm hc,
      ClassMember.ok_allNested w hn ms hms hc⟩

end

mutual

/-- The types in a namespace have good names. -/
theorem Member.ok_types (w : Wording ok) (hn : ∀ i i', names i i' → ok i.text) :
    (m : Member) → {m' : Member} → m.Respelled names m' → ∀ {container}, ok container →
      ∀ p ∈ m.types container, ∀ q ∈ p.2.withNested p.1, ok q.1
  | .namespaceMember n, _, .namespaceMember h, _, hc => NamespaceDeclaration.ok_types w hn n h hc
  | .typeMember d, _, .typeMember h, _, hc =>
    List.forall_mem_singleton.mpr (TypeDeclaration.ok_withNested w hn d h hc)
  | .globalStatement _, _, _, _, _ | .incomplete _, _, _, _, _ => List.forall_mem_nil _

theorem Member.ok_allTypes (w : Wording ok) (hn : ∀ i i', names i i' → ok i.text) :
    (ms : List Member) → {ms' : List Member} → List.Forall₂ (Member.Respelled names) ms ms' →
      ∀ {container}, ok container →
      ∀ p ∈ Member.allTypes container ms, ∀ q ∈ p.2.withNested p.1, ok q.1
  | [], _, _, _, _ => List.forall_mem_nil _
  | m :: ms, _, .cons hm hms, _, hc =>
    List.forall_mem_append.mpr ⟨Member.ok_types w hn m hm hc, Member.ok_allTypes w hn ms hms hc⟩

theorem NamespaceDeclaration.ok_types (w : Wording ok) (hn : ∀ i i', names i i' → ok i.text) :
    (n : NamespaceDeclaration) → {n' : NamespaceDeclaration} → n.Respelled names n' →
      ∀ {container}, ok container → ∀ p ∈ n.types container, ∀ q ∈ p.2.withNested p.1, ok q.1
  | ⟨_, _, _, ms⟩, _, .mk _ ht _ hms, _, hc =>
    Member.ok_allTypes w hn ms hms (w.qualify hc (TypeSyntax.ok_dotted w hn _ ht))

end

/-- The types that are declared in a unit have good names. -/
theorem Declarations.worded_ofMembers (w : Wording ok) (hn : ∀ i i', names i i' → ok i.text)
    {ms ms' : List Member} (h : List.Forall₂ (Member.Respelled names) ms ms') :
    (ofMembers ms).names.Worded ok := by
  intro name t ht
  rw [find?_ofMembers] at ht
  obtain ⟨p, hp, rfl⟩ := Option.map_eq_some_iff.mp ht
  obtain ⟨q, hq, hpq⟩ := List.mem_flatMap.mp (List.mem_of_find?_eq_some hp)
  exact Member.ok_allTypes w hn ms h (w.plain (by decide)) q hq p hpq

end CSharpFront
