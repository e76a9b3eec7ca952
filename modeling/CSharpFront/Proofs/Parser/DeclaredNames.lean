import CSharpFront.Proofs.Binding.Owners
import CSharpFront.Proofs.Parser.MarksDeclarations
/-!
The names of declared types. Types without a name are not declared, and each other name is the text
of a name among the tokens. So what is true of those texts is true of the names of all declared
types, however deep they are nested.
-/

namespace CSharpFront

variable {ok : String → Prop}

/-! ### What a tree declares -/

/-- The names of a type and of those nested in it are good. -/
def TypeDeclaration.NamesGood (ok : String → Prop) (d : TypeDeclaration) : Prop :=
  ∀ container, ∀ p ∈ d.withNested container, ok p.2.identifier.text

def ClassMember.NamesGood (ok : String → Prop) (m : ClassMember) : Prop :=
  ∀ container, ∀ p ∈ m.nested container, ok p.2.identifier.text

def Member.NamesGood (ok : String → Prop) (m : Member) : Prop :=
  ∀ container, ∀ p ∈ m.types container, p.2.NamesGood ok

def NamespaceDeclaration.NamesGood (ok : String → Prop) (n : NamespaceDeclaration) : Prop :=
  ∀ container, ∀ p ∈ n.types container, p.2.NamesGood ok

theorem ClassMember.namesGood_all {ms : List ClassMember} (h : ∀ m ∈ ms, m.NamesGood ok)
    (container : String) : ∀ p ∈ ClassMember.allNested container ms, ok p.2.identifier.text := by
  induction ms with
  | nil => exact List.forall_mem_nil _
  | cons m ms ih =>
    obtain ⟨hm, hms⟩ := List.forall_mem_cons.mp h
    exact List.forall_mem_append.mpr ⟨hm container, ih hms⟩

theorem Member.namesGood_all {ms : List Member} (h : ∀ m ∈ ms, m.NamesGood ok)
    (container : String) : ∀ p ∈ Member.allTypes container ms, p.2.NamesGood ok := by
  induction ms with
  | nil => exact List.forall_mem_nil _
  | cons m ms ih =>
    obtain ⟨hm, hms⟩ := List.forall_mem_cons.mp h
    exact List.forall_mem_append.mpr ⟨hm container, ih hms⟩

/-- A type with a good name, or with none. -/
theorem TypeDeclaration.namesGood_mk {range : Range} {isStruct : Bool} {modifiers : Modifiers}
    {i : Identifier} {ms : List ClassMember} (hi : i.isMissing = false → ok i.text)
    (hms : ∀ m ∈ ms, m.NamesGood ok) :
    TypeDeclaration.NamesGood ok ⟨range, isStruct, modifiers, i, ms⟩ := by
  intro container p hp
  unfold withNested at hp
  split at hp
  · cases hp
  next hmissing =>
    rcases List.mem_cons.mp hp with rfl | hp
    · exact hi (Bool.eq_false_iff.mpr hmissing)
    · exact ClassMember.namesGood_all hms _ p hp

namespace Parser

variable {r : Rules} {α : Type}

/-! ### What the parser finds -/

/-- The names among the tokens that are left are good. -/
structure NamesLeft (ok : String → Prop) (env : Env) (s : State) : Prop where
  endOfFile : env.endOfFile.kind = .endOfFile
  rest : ∀ t ∈ s.rest, t.kind = .identifier → ok t.text

instance : Blind (NamesLeft ok) :=
  ⟨fun _ hs => ⟨hs.endOfFile, hs.rest⟩, fun _ hs => ⟨hs.endOfFile, hs.rest⟩⟩

theorem NamesLeft.suffix {env : Env} {s s' : State} (h : NamesLeft ok env s)
    (hs : s'.rest <:+ s.rest) :
    NamesLeft ok env s' :=
  ⟨h.endOfFile, fun t ht => h.rest t (hs.subset ht)⟩

/-- A parser that never goes back leaves good names where they were. -/
theorem Marks.keeps {p : P α} {marks : α → List Nat} (h : ∀ tokens, Marks tokens [] p marks) :
    Keeps (NamesLeft ok) p fun _ => True := by
  intro env s hs
  have hstart : Marked s.rest [] s := ⟨[], rfl, .slnil⟩
  obtain ⟨taken, htaken, -⟩ := h s.rest env s hs.endOfFile hstart
  exact ⟨trivial, hs.suffix ⟨taken, htaken.symm⟩⟩

theorem Plain.keeps {p : P α} (h : ∀ tokens, Plain tokens p) :
    Keeps (NamesLeft ok) p fun _ => True :=
  Marks.keeps fun tokens => h tokens []

theorem KeepsAll.plain {p : P α} (h : ∀ tokens, Plain tokens p) :
    KeepsAll (NamesLeft ok) (liftM p) fun _ => True :=
  .lift (Plain.keeps h)

theorem keeps_poll : KeepsAll (NamesLeft ok) poll fun _ => True := by
  have hpoll : Keeps (NamesLeft ok) poll.run fun _ => True := Marks.keeps fun _ => plain_poll []
  exact hpoll.imp fun _ _ _ _ => trivial

theorem named_current :
    Keeps (NamesLeft ok) current fun t => t.kind = .identifier → ok t.text := by
  intro env s hs
  refine ⟨fun hk => ?_, hs⟩
  have ht : (current env s).1 = s.rest.headD env.endOfFile := rfl
  rw [ht] at hk ⊢
  cases hr : s.rest with
  | nil =>
    rw [hr, List.headD_nil, hs.endOfFile] at hk
    cases hk
  | cons t ts =>
    rw [hr] at hk
    exact hs.rest t (by simp [hr]) hk

/-- A name that is read is good, unless it is missing. -/
theorem named_identifier :
    Keeps (NamesLeft ok) identifier fun i => i.isMissing = false → ok i.text := by
  refine .bind named_current fun t ht => .ite (fun hk => ?_) fun _ => ?_
  · refine .bind (Plain.keeps fun _ => plain_advance) fun _ _ => ?_
    exact .bind (Plain.keeps fun _ => plain_noteName _) fun _ _ => .pure fun _ => ht hk
  · refine .bind (Plain.keeps fun _ => plain_expectedSpan) fun span _ => ?_
    refine .bind (Plain.keeps fun _ => plain_reportExpected) fun _ _ => ?_
    exact .bind (Plain.keeps fun _ => plain_noteName _) fun _ _ => .bind .get fun _ _ => .pure nofun

/-- A member that is no type declares none. -/
theorem yields_plainMember_namesGood (start : Nat) (ms : Modifiers) :
    Yields (plainMember r start ms) (·.NamesGood ok) := by
  refine (yields_plainMember_ne_nestedType r start ms).imp fun m hm => ?_
  cases m with
  | nestedType d => exact absurd rfl (hm d)
  | field | method | conversion | incomplete => exact fun _ => List.forall_mem_nil _

theorem named_plainMember (hr : ∀ tokens, r.Marks tokens) (start : Nat) (ms : Modifiers) :
    Keeps (NamesLeft ok) (plainMember r start ms) (·.NamesGood ok) := by
  have hkeeps : Keeps (NamesLeft ok) (plainMember r start ms) fun _ => True :=
    Marks.keeps fun tokens => marks_plainMember (hr tokens) start ms
  intro env s hs
  exact ⟨(yields_plainMember_namesGood start ms env s trivial).1, (hkeeps env s hs).2⟩

theorem named_classMember (hr : ∀ tokens, r.Marks tokens)
    {nested : Nat → Modifiers → Cancellable ClassMember}
    (hn : ∀ start ms, KeepsAll (NamesLeft ok) (nested start ms) (·.NamesGood ok)) :
    KeepsAll (NamesLeft ok) (classMember r nested) (·.NamesGood ok) := by
  refine .bind (.plain fun _ => plain_current) fun t _ => ?_
  refine .bind (.plain fun _ => plain_modifiers) fun ms _ => ?_
  refine .bind (.plain fun _ => plain_currentKind) fun _ _ => .ite (hn _ _) ?_
  exact .lift (named_plainMember hr t.start ms)

/-! ### Types -/

theorem named_typeDeclaration (hr : ∀ tokens, r.Marks tokens)
    {members : Cancellable (List ClassMember)}
    (hm : KeepsAll (NamesLeft ok) members fun ms => ∀ m ∈ ms, m.NamesGood ok) (start : Nat)
    (ms : Modifiers) :
    KeepsAll (NamesLeft ok) (typeDeclaration r members start ms) (·.NamesGood ok) := by
  refine .bind (.plain fun _ => plain_currentKind) fun _ _ => ?_
  refine .bind (.plain fun _ => plain_advance) fun _ _ => ?_
  refine .bind (.lift named_identifier) fun i hi => ?_
  refine .bind (.plain fun tokens => plain_baseTypes (hr tokens)) fun _ _ => ?_
  refine .bind (.plain fun _ => plain_eat _) fun _ _ => .bind hm fun ms hms => ?_
  refine .bind (.plain fun _ => plain_eat _) fun _ _ => ?_
  refine .bind (.plain fun _ => plain_rangeFrom _) fun _ _ => ?_
  exact .pure (TypeDeclaration.namesGood_mk hi hms)

/-- What stands for a declaration past the limit. -/
theorem named_refused {f : Range → α} {good : α → Prop} (h : ∀ range, good (f range))
    (start : Nat) : KeepsAll (NamesLeft ok) (do
      runOut
      refuse
      return f (← rangeFrom start)) good :=
  .bind (.lift .runOut) fun _ _ => .bind (.plain fun _ => plain_refuse) fun _ _ =>
    .bind (.plain fun _ => plain_rangeFrom start) fun range _ => .pure (h range)

theorem named_nestedDeclaration {f : Range → α} {good : α → Prop} (h : ∀ range, good (f range))
    (start : Nat) {p : Cancellable α} (hp : KeepsAll (NamesLeft ok) p good) :
    KeepsAll (NamesLeft ok) (nestedDeclaration (f <$> rangeFrom start) p) good :=
  .nestedDeclaration (Plain.keeps fun _ => plain_refuse)
    ((Plain.keeps fun _ => plain_rangeFrom start).map fun range _ => h range) hp

theorem named_membersUntil (ends : TokenKind → Bool) {member : Cancellable α} {good : α → Prop}
    (hm : KeepsAll (NamesLeft ok) member good) :
    KeepsAll (NamesLeft ok) (membersUntil ends member) fun ms => ∀ m ∈ ms, good m :=
  .membersUntil keeps_poll (Plain.keeps fun _ => plain_advance) ends hm

theorem named_classMembers (n : Nat) :
    KeepsAll (NamesLeft ok) (classMembers n) fun ms => ∀ m ∈ ms, m.NamesGood ok := by
  have hincomplete (range : Range) : (ClassMember.incomplete range).NamesGood ok :=
    fun _ => List.forall_mem_nil _
  induction n with
  | zero =>
    refine named_membersUntil _ (named_classMember (fun _ => rules_marks 0) fun start _ => ?_)
    exact named_refused hincomplete start
  | succ n ih =>
    refine named_membersUntil _ (named_classMember (fun _ => rules_marks _) fun start ms => ?_)
    refine named_nestedDeclaration hincomplete start ?_
    exact (named_typeDeclaration (fun _ => rules_marks n) ih start ms).map fun _ hd => hd

/-! ### Namespaces and units -/

theorem named_namespaceDeclaration (hr : ∀ tokens, r.Marks tokens)
    {members : Cancellable (List Member)}
    (hm : KeepsAll (NamesLeft ok) members fun ms => ∀ m ∈ ms, m.NamesGood ok) :
    KeepsAll (NamesLeft ok) (namespaceDeclaration r members) (·.NamesGood ok) := by
  refine .bind (.plain fun _ => plain_current) fun t _ => ?_
  refine .bind (.plain fun _ => plain_eat _) fun _ _ => ?_
  refine .bind (.plain fun tokens => plain_name (hr tokens).type) fun name _ => ?_
  refine .bind (.plain fun _ => plain_accept _) fun b _ => ?_
  have hlast (us : List UsingDirective) {ms : List Member} (hms : ∀ m ∈ ms, m.NamesGood ok) :
      KeepsAll (NamesLeft ok)
        (do return (⟨← rangeFrom t.start, name, us, ms⟩ : NamespaceDeclaration))
        (·.NamesGood ok) :=
    .bind (.plain fun _ => plain_rangeFrom _) fun _ _ => .pure fun _ => Member.namesGood_all hms _
  have hrest : KeepsAll (NamesLeft ok) (do
      let usings ← usingDirectives r
      let members ← members
      if !b then
        let _ ← eat (.punct .closeBrace)
      return (⟨← rangeFrom t.start, name, usings, members⟩ : NamespaceDeclaration))
      (·.NamesGood ok) := by
    refine .bind (.plain fun tokens => plain_usingDirectives (hr tokens)) fun us _ => ?_
    refine .bind hm fun ms hms => .ite ?_ (hlast us hms)
    exact .bind (.plain fun _ => plain_eat _) fun _ _ => hlast us hms
  exact .ite (.bind (.plain fun _ => plain_eat _) fun _ _ => hrest) hrest

theorem named_member (hr : ∀ tokens, r.Marks tokens) (inNamespace : Bool)
    {declaration : Nat → Cancellable Member}
    (hd : ∀ start, KeepsAll (NamesLeft ok) (declaration start) (·.NamesGood ok)) :
    KeepsAll (NamesLeft ok) (member r inNamespace declaration) (·.NamesGood ok) := by
  have hstatement : Keeps (NamesLeft ok) (globalStatement r) (·.NamesGood ok) := by
    have hkeeps : Keeps (NamesLeft ok) (globalStatement r) fun _ => True :=
      Marks.keeps fun tokens => marks_globalStatement (hr tokens)
    exact fun env s hs => ⟨fun _ => List.forall_mem_nil _, (hkeeps env s hs).2⟩
  have hbad : Keeps (NamesLeft ok) badGlobalMember (·.NamesGood ok) := by
    have hkeeps : Keeps (NamesLeft ok) badGlobalMember fun _ => True :=
      Marks.keeps fun _ => marks_badGlobalMember
    exact fun env s hs => ⟨fun _ => List.forall_mem_nil _, (hkeeps env s hs).2⟩
  refine .bind (.plain fun _ => plain_current) fun t _ => .bind .get fun _ _ => ?_
  exact .ite (hd _) (.ite (.lift hstatement) (.lift hbad))

theorem named_declarationBody (hr : ∀ tokens, r.Marks tokens)
    {namespaceMembers : Cancellable (List Member)} {classMembers : Cancellable (List ClassMember)}
    (hn : KeepsAll (NamesLeft ok) namespaceMembers fun ms => ∀ m ∈ ms, m.NamesGood ok)
    (hc : KeepsAll (NamesLeft ok) classMembers fun ms => ∀ m ∈ ms, m.NamesGood ok) (start : Nat) :
    KeepsAll (NamesLeft ok) (declarationBody r namespaceMembers classMembers start)
      (·.NamesGood ok) := by
  refine .bind (.plain fun _ => plain_currentKind) fun _ _ => .ite ?_ ?_
  · exact (named_namespaceDeclaration hr hn).map fun _ h => h
  · refine .bind (.plain fun _ => plain_modifiers) fun ms _ => ?_
    refine (named_typeDeclaration hr hc start ms).map fun d hd container => ?_
    exact List.forall_mem_singleton.mpr hd

theorem named_members (n : Nat) (inNamespace : Bool) :
    KeepsAll (NamesLeft ok) (members n inNamespace) fun ms => ∀ m ∈ ms, m.NamesGood ok := by
  have hincomplete (range : Range) : (Member.incomplete range).NamesGood ok :=
    fun _ => List.forall_mem_nil _
  induction n generalizing inNamespace with
  | zero =>
    refine named_membersUntil _ (named_member (fun _ => rules_marks 0) _ fun start => ?_)
    exact named_refused hincomplete start
  | succ n ih =>
    refine named_membersUntil _ (named_member (fun _ => rules_marks _) _ fun start => ?_)
    refine named_nestedDeclaration hincomplete start ?_
    exact named_declarationBody (fun _ => rules_marks n) (ih true) (named_classMembers n) start

/-- The name of each declared type is the text of a name among the tokens. -/
theorem good_of_mem_declared (ok : String → Prop) {stream : TokenStream} {maxDepth : Nat}
    {diagnostics : Array Diagnostic} {polls : Polls} {u : CompilationUnit}
    (hk : stream.endOfFile.kind = .endOfFile)
    (hu : (parseUnit stream maxDepth diagnostics polls).1 = .ok u)
    (hok : ∀ t ∈ stream.tokens, t.kind = .identifier → ok t.text) :
    ∀ p ∈ Member.declared u.members, ok p.2.identifier.text := by
  have hunit (n : Nat) : KeepsAll (NamesLeft ok) (compilationUnit n) fun u =>
      ∀ m ∈ u.members, m.NamesGood ok := by
    refine .bind (.plain fun _ => plain_usingDirectives (rules_marks n)) fun _ _ => ?_
    refine .bind (named_members n false) fun ms hms => ?_
    exact .bind (.plain fun _ => plain_current) fun _ _ => .pure hms
  have hmembers :=
    (hunit _ (.of stream maxDepth) (.start stream diagnostics polls) ⟨hk, hok⟩).1 u hu
  intro p hp
  obtain ⟨q, hq, hp⟩ := List.mem_flatMap.mp hp
  exact Member.namesGood_all hmembers "" q hq q.1 p hp

end Parser

end CSharpFront
