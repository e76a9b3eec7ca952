import CSharpFront.Proofs.Parser.Coverage
import CSharpFront.Proofs.Parser.MarksRules
import CSharpFront.Proofs.Parser.Keeps
import CSharpFront.Proofs.Syntax.NamedBodies
/-!
The casts and labels of declarations, and of whole units. No two of a unit begin at one place, since
no two tokens do.
-/

namespace CSharpFront

/-! ### Where the marks of a declaration begin -/

def ClassMember.starts (m : ClassMember) : List Nat := (m.marks .everywhere).map Mark.start

def TypeDeclaration.starts (d : TypeDeclaration) : List Nat :=
  (d.marks .everywhere).map Mark.start

def Member.starts (m : Member) : List Nat := (m.marks .everywhere).map Mark.start

def NamespaceDeclaration.starts (n : NamespaceDeclaration) : List Nat :=
  (n.marks .everywhere).map Mark.start

@[simp] theorem Block.map_marks? (b? : Option Block) :
    (Block.marks? .everywhere b?).map Mark.start =
      b?.elim [] fun b => b.statements.flatMap Stmt.starts := by
  cases b? <;> simp [marks?]

@[simp] theorem ClassMember.map_allMarks (ms : List ClassMember) :
    (ClassMember.allMarks .everywhere ms).map Mark.start = ms.flatMap ClassMember.starts := by
  induction ms with
  | nil => rfl
  | cons m ms ih => simp [allMarks, ih, starts]

@[simp] theorem Member.map_allMarks (ms : List Member) :
    (Member.allMarks .everywhere ms).map Mark.start = ms.flatMap Member.starts := by
  induction ms with
  | nil => rfl
  | cons m ms ih => simp [allMarks, ih, starts]

namespace Parser

variable {tokens : List Token} {before : List Nat} {r : Rules}

/-- A parser that finds the marks of its result unless it finds that it has been cancelled. -/
def MarksAll (tokens : List Token) (before : List Nat) {α : Type} (p : Cancellable α)
    (marks : α → List Nat) : Prop :=
  Marks tokens before p.run fun result => result.toOption.elim [] marks

/-- A parser whose result has no marks. -/
abbrev PlainAll (tokens : List Token) {α : Type} (p : Cancellable α) : Prop :=
  ∀ before, MarksAll tokens before p fun _ => before

namespace MarksAll

variable {α β : Type} {p q : Cancellable α} {marks : α → List Nat} {after : β → List Nat}

theorem pure {a : α} (h : marks a = before) : MarksAll tokens before (Pure.pure a) marks :=
  Marks.pure h

theorem bind {f : α → Cancellable β} (hp : MarksAll tokens before p marks)
    (hf : ∀ a, MarksAll tokens (marks a) (f a) after) :
    MarksAll tokens before (p >>= f) after := by
  rw [MarksAll, ExceptT.run_bind]
  refine Marks.bind hp fun result => ?_
  cases result with
  | ok a => exact hf a
  | error e => exact Marks.pure rfl

theorem next {f : α → Cancellable β} (hp : PlainAll tokens p)
    (hf : ∀ a, MarksAll tokens before (f a) after) : MarksAll tokens before (p >>= f) after :=
  bind (hp before) hf

theorem map {f : α → β} (hp : MarksAll tokens before p marks) (h : ∀ a, after (f a) = marks a) :
    MarksAll tokens before (f <$> p) after := by
  rw [map_eq_pure_bind]
  exact hp.bind fun a => .pure (h a)

theorem lift {p : P α} (h : Marks tokens before p marks) :
    MarksAll tokens before (liftM p) marks :=
  Marks.map h fun _ => rfl

theorem plain {p : P α} (h : Plain tokens p) : PlainAll tokens (liftM p : Cancellable α) :=
  fun before => .lift (h before)

theorem get : PlainAll tokens (MonadState.get : Cancellable State) := .plain .get

theorem ite {c : Prop} [Decidable c] (hp : MarksAll tokens before p marks)
    (hq : MarksAll tokens before q marks) :
    MarksAll tokens before (if c then p else q) marks := by
  split
  · exact hp
  · exact hq

theorem iterate {step : α → Cancellable (ForInStep α)}
    (hs : ∀ a, MarksAll tokens (marks a) (step a) (marks ·.value)) (n : Nat) (a : α) :
    MarksAll tokens (marks a) (iterate step n a) marks := by
  induction n generalizing a with
  | zero => exact .next (.plain .runOut) fun _ => .pure rfl
  | succ n ih =>
    refine bind (hs a) fun result => ?_
    cases result with
    | done b => exact .pure rfl
    | yield b => exact ih b

theorem loop {step : α → Cancellable (ForInStep α)} {a : α} (ha : marks a = before)
    (hs : ∀ a, MarksAll tokens (marks a) (step a) (marks ·.value)) :
    MarksAll tokens before (loop a step) marks :=
  .next (.plain .read) fun _ => ha ▸ .iterate hs _ a

end MarksAll

theorem plain_poll : PlainAll tokens poll := by
  intro before
  refine .next .get fun s => ?_
  split
  · exact .plain (.of_rest_eq fun _ _ => rfl) before
  · exact fun _ _ _ hs => hs.sublist (List.nil_sublist _)

theorem marks_membersUntil {α : Type} (ends : TokenKind → Bool) {member : Cancellable α}
    {own : α → List Nat}
    (hm : ∀ before, MarksAll tokens before member fun m => before ++ own m) :
    MarksAll tokens before (membersUntil ends member) fun ms => before ++ ms.flatMap own := by
  have hloop : MarksAll tokens before (loop [] fun members => do
      if ends (← currentKind) then return .done members
      poll
      let left := (← get).rest.length
      let m ← member
      if (← get).rest.length = left then advance
      return .yield (m :: members)) fun ms => before ++ ms.reverse.flatMap own := by
    refine .loop (List.append_nil _) fun ms => .next (.plain plain_currentKind) fun _ => ?_
    refine .ite (.pure rfl) (.next plain_poll fun _ => .next .get fun _ => .bind (hm _) fun m => ?_)
    have hlast : MarksAll tokens (before ++ ms.reverse.flatMap own ++ own m)
        (Pure.pure (ForInStep.yield (m :: ms)))
        fun result => before ++ result.value.reverse.flatMap own := .pure (by simp)
    exact .next .get fun _ => .ite (.next (.plain plain_advance) fun _ => hlast) hlast
  exact hloop.bind fun _ => .pure rfl

theorem plain_modifiers : Plain tokens modifiers :=
  fun _ => .next .get fun _ => .next (plain_advanceBy _) fun _ => .pure rfl

/-! ### Directives -/

theorem plain_alias? : Plain tokens alias? :=
  fun _ => .next .get fun _ =>
    .ite (.next plain_identifier fun _ => .next plain_advance fun _ => .pure rfl) (.pure rfl)

theorem plain_usingDirective (hr : r.Marks tokens) : Plain tokens (usingDirective r) := by
  refine fun _ => .next plain_current fun _ => .next (plain_eat _) fun _ => ?_
  refine .next (plain_accept _) fun _ => .next plain_alias? fun _ => ?_
  refine .next (plain_name hr.type) fun _ => .next (plain_eat _) fun _ => ?_
  exact .next (plain_rangeFrom _) fun _ => .pure rfl

theorem plain_usingDirectives (hr : r.Marks tokens) : Plain tokens (usingDirectives r) :=
  plain_many fun _ => .next plain_currentKind fun _ =>
    .ite ((plain_usingDirective hr _).map fun _ => rfl) (.pure rfl)

/-! ### Members of types -/

theorem plain_parameter (hr : r.Marks tokens) : Plain tokens (parameter r) := by
  intro before
  have hrest (start : Nat) (o? : Option Leaf) : Marks tokens before (do
      let type ← r.type true
      let identifier ← identifier
      return Parameter.mk (← rangeFrom start) o? type identifier) fun _ => before :=
    .next (hr.type true) fun _ => .next plain_identifier fun _ => .next (plain_rangeFrom _)
      fun _ => .pure rfl
  refine .next plain_current fun _ => .ite ?_ (hrest _ none)
  exact .next (fun _ => (plain_take _).map fun _ => rfl) fun o? => hrest _ o?

theorem plain_parameters (hr : r.Marks tokens) : Plain tokens (parameters r) := by
  intro before
  have hlast (ps : List Parameter) : Marks tokens before
      (do let _ ← eat (.punct .closeParen); return ps) fun _ => before :=
    .next (plain_eat _) fun _ => .pure rfl
  refine .next (plain_eat _) fun _ => .next plain_currentKind fun _ => .ite (hlast []) ?_
  exact .next (plain_separated (plain_parameter hr)) hlast

theorem marks_methodBody (hr : r.Marks tokens) (isAsync : Bool) :
    Marks tokens before (methodBody r isAsync)
      fun b? => before ++ b?.elim [] fun b => b.statements.flatMap Stmt.starts :=
  .next (plain_accept _) fun _ => .ite (.pure (List.append_nil _)) <|
    .withReader (fun _ => rfl) ((marks_block hr).map fun _ => rfl)

theorem plain_arguments (hr : r.Marks tokens) (opening closing : Punctuator) :
    Plain tokens (arguments r opening closing) :=
  fun _ => (marks_arguments hr opening closing).imp fun _ => List.sublist_append_left _ _

theorem plain_constructorInitializer (hr : r.Marks tokens) :
    Plain tokens (constructorInitializer r) := by
  intro before
  have harguments : Marks tokens before (do let _ ← arguments r .openParen .closeParen)
      fun _ => before := .next (plain_arguments hr _ _) fun _ => .pure rfl
  refine .next (plain_accept _) fun _ => .ite (.next plain_currentKind fun _ => ?_) (.pure rfl)
  split
  · exact .next plain_advance fun _ => harguments
  · exact .next plain_advance fun _ => harguments
  · refine .next plain_expectedSpan fun _ => .next plain_report fun _ => harguments

theorem marks_methodRest (hr : r.Marks tokens) (start : Nat) (ms : Modifiers)
    (type? : Option TypeSyntax) (i : Identifier) :
    Marks tokens before (methodRest r start ms type? i) fun m => before ++ m.starts := by
  refine .next (plain_parameters hr) fun ps => ?_
  have hlast : Marks tokens before (do
      let body? ← methodBody r (ms.contains .asyncMod)
      return ClassMember.method ⟨← rangeFrom start, ms, type?, i, ps, body?⟩)
      fun m => before ++ m.starts := by
    refine .bind (marks_methodBody hr _) fun _ => .next (plain_rangeFrom _) fun _ => .pure ?_
    simp [ClassMember.starts, ClassMember.marks]
  exact .ite (.next (plain_constructorInitializer hr) fun _ => hlast) hlast

theorem marks_conversionOperator (hr : r.Marks tokens) (start : Nat) (ms : Modifiers) :
    Marks tokens before (conversionOperator r start ms) fun m => before ++ m.starts := by
  refine .next plain_take fun _ => .next (plain_eat _) fun _ => .next (hr.type true) fun _ => ?_
  refine .next (plain_parameters hr) fun _ => .bind (marks_methodBody hr _) fun _ => ?_
  refine .next (plain_rangeFrom _) fun _ => .pure ?_
  simp [ClassMember.starts, ClassMember.marks]

theorem marks_typedMember (hr : r.Marks tokens) (start : Nat) (ms : Modifiers) :
    Marks tokens before (typedMember r start ms) fun m => before ++ m.starts := by
  refine .next (hr.type true) fun _ => .next plain_identifier fun _ => ?_
  refine .next plain_currentKind fun _ => .ite (marks_methodRest hr _ _ _ _) ?_
  refine .bind (marks_declarators hr _ _ _) fun _ => .next (plain_eat _) fun _ => ?_
  refine .next (plain_rangeFrom _) fun _ => .pure ?_
  simp [ClassMember.starts, ClassMember.marks]

theorem marks_badMember (start : Nat) :
    Marks tokens before (badMember start) fun m => before ++ m.starts := by
  have hlast : Marks tokens before (do return ClassMember.incomplete (← rangeFrom start))
      fun m => before ++ m.starts :=
    .next (plain_rangeFrom _) fun _ => .pure (List.append_nil _)
  refine .next plain_current fun _ => .next plain_report fun _ => .ite hlast ?_
  refine .next plain_advance fun _ => .next .get fun _ => ?_
  exact .next (plain_advanceBy _) fun _ => hlast

theorem marks_plainMember (hr : r.Marks tokens) (start : Nat) (ms : Modifiers) :
    Marks tokens before (plainMember r start ms) fun m => before ++ m.starts := by
  refine .next .get fun _ => ?_
  refine .ite (marks_conversionOperator hr _ _) (.ite ?_ (.ite ?_ (marks_badMember _)))
  · exact .next plain_identifier fun _ => marks_methodRest hr _ _ _ _
  · exact marks_typedMember hr _ _

theorem marks_classMember (hr : r.Marks tokens)
    {nested : Nat → Modifiers → Cancellable ClassMember}
    (hn : ∀ start ms, MarksAll tokens before (nested start ms) fun m => before ++ m.starts) :
    MarksAll tokens before (classMember r nested) fun m => before ++ m.starts :=
  .next (.plain plain_current) fun _ => .next (.plain plain_modifiers) fun _ =>
    .next (.plain plain_currentKind) fun _ => .ite (hn _ _) (.lift (marks_plainMember hr _ _))

/-! ### Types -/

theorem plain_baseTypes (hr : r.Marks tokens) : Plain tokens (baseTypes r) :=
  fun _ => .next (plain_accept _) fun _ =>
    .ite (.next (plain_separated (hr.type true)) fun _ => .pure rfl) (.pure rfl)

theorem marks_typeDeclaration (hr : r.Marks tokens) {members : Cancellable (List ClassMember)}
    (hm : MarksAll tokens before members fun ms => before ++ ms.flatMap ClassMember.starts)
    (start : Nat) (ms : Modifiers) :
    MarksAll tokens before (typeDeclaration r members start ms) fun d => before ++ d.starts := by
  refine .next (.plain plain_currentKind) fun _ => .next (.plain plain_advance) fun _ => ?_
  refine .next (.plain plain_identifier) fun _ => .next (.plain (plain_baseTypes hr)) fun _ => ?_
  refine .next (.plain (plain_eat _)) fun _ => .bind hm fun _ => ?_
  refine .next (.plain (plain_eat _)) fun _ => .next (.plain (plain_rangeFrom _)) fun _ => .pure ?_
  simp [TypeDeclaration.starts, TypeDeclaration.marks]

theorem marks_nestedDeclaration {α : Type} {refused : P α} {p : Cancellable α}
    {marks : α → List Nat} (hr : Marks tokens before refused marks)
    (hp : MarksAll tokens before p marks) :
    MarksAll tokens before (nestedDeclaration refused p) marks :=
  marks_nested (hr.map fun _ => rfl) hp

/-- What stands for a declaration when no level can be entered has no marks. -/
theorem marks_refused {α : Type} {f : Range → α} {own : α → List Nat} (h : ∀ range, own (f range) = [])
    (start : Nat) : Marks tokens before (f <$> rangeFrom start) fun a => before ++ own a :=
  (plain_rangeFrom start before).map fun range => by rw [h, List.append_nil]

theorem marks_classMembers (n : Nat) :
    MarksAll tokens before (classMembers n) fun ms => before ++ ms.flatMap ClassMember.starts := by
  induction n generalizing before with
  | zero =>
    refine marks_membersUntil _ fun _ => marks_classMember (rules_marks 0) fun start _ => ?_
    refine .next (.plain .runOut) fun _ => .next (.plain plain_refuse) fun _ => ?_
    exact .next (.plain (plain_rangeFrom start)) fun _ => .pure (List.append_nil _)
  | succ n ih =>
    refine marks_membersUntil _ fun _ => marks_classMember (rules_marks _) fun start ms => ?_
    refine marks_nestedDeclaration (marks_refused (fun _ => rfl) start) ?_
    exact (marks_typeDeclaration (rules_marks n) ih start ms).map fun _ => rfl

/-! ### Namespaces and units -/

theorem marks_namespaceDeclaration (hr : r.Marks tokens) {members : Cancellable (List Member)}
    (hm : MarksAll tokens before members fun ms => before ++ ms.flatMap Member.starts) :
    MarksAll tokens before (namespaceDeclaration r members) fun n => before ++ n.starts := by
  refine .next (.plain plain_current) fun t => .next (.plain (plain_eat _)) fun _ => ?_
  refine .next (.plain (plain_name hr.type)) fun name => .next (.plain (plain_accept _)) fun b => ?_
  have hlast (us : List UsingDirective) (ms : List Member) :
      MarksAll tokens (before ++ ms.flatMap Member.starts)
        (do return NamespaceDeclaration.mk (← rangeFrom t.start) name us ms)
        fun n => before ++ n.starts := by
    refine .next (.plain (plain_rangeFrom _)) fun _ => .pure ?_
    simp [NamespaceDeclaration.starts, NamespaceDeclaration.marks]
  have hrest : MarksAll tokens before (do
      let usings ← usingDirectives r
      let members ← members
      if !b then
        let _ ← eat (.punct .closeBrace)
      return NamespaceDeclaration.mk (← rangeFrom t.start) name usings members)
      fun n => before ++ n.starts := by
    refine .next (.plain (plain_usingDirectives hr)) fun us => .bind hm fun ms => ?_
    exact .ite (.next (.plain (plain_eat _)) fun _ => hlast us ms) (hlast us ms)
  exact .ite (.next (.plain (plain_eat _)) fun _ => hrest) hrest

theorem marks_globalStatement (hr : r.Marks tokens) :
    Marks tokens before (globalStatement r) fun m => before ++ m.starts :=
  .withReader (fun _ => rfl) ((hr.statement _).map fun _ => rfl)

theorem marks_badGlobalMember :
    Marks tokens before badGlobalMember fun m => before ++ m.starts :=
  .next plain_current fun _ => .next plain_report fun _ => .next plain_advance fun _ =>
    .next (plain_rangeFrom _) fun _ => .pure (List.append_nil _)

theorem marks_member (hr : r.Marks tokens) (inNamespace : Bool)
    {declaration : Nat → Cancellable Member}
    (hd : ∀ start, MarksAll tokens before (declaration start) fun m => before ++ m.starts) :
    MarksAll tokens before (member r inNamespace declaration) fun m => before ++ m.starts :=
  .next (.plain plain_current) fun _ => .next .get fun _ => .ite (hd _) <|
    .ite (.lift (marks_globalStatement hr)) (.lift marks_badGlobalMember)

theorem marks_declarationBody (hr : r.Marks tokens) {namespaceMembers : Cancellable (List Member)}
    (hn : MarksAll tokens before namespaceMembers fun ms => before ++ ms.flatMap Member.starts)
    {classMembers : Cancellable (List ClassMember)}
    (hc : MarksAll tokens before classMembers fun ms => before ++ ms.flatMap ClassMember.starts)
    (start : Nat) :
    MarksAll tokens before (declarationBody r namespaceMembers classMembers start)
      fun m => before ++ m.starts := by
  refine .next (.plain plain_currentKind) fun _ => .ite ?_ ?_
  · exact (marks_namespaceDeclaration hr hn).map fun _ => rfl
  · refine .next (.plain plain_modifiers) fun ms => ?_
    exact (marks_typeDeclaration hr hc start ms).map fun _ => rfl

theorem marks_members (n : Nat) (inNamespace : Bool) :
    MarksAll tokens before (members n inNamespace)
      fun ms => before ++ ms.flatMap Member.starts := by
  induction n generalizing before inNamespace with
  | zero =>
    refine marks_membersUntil _ fun _ => marks_member (rules_marks 0) _ fun start => ?_
    refine .next (.plain .runOut) fun _ => .next (.plain plain_refuse) fun _ => ?_
    exact .next (.plain (plain_rangeFrom start)) fun _ => .pure (List.append_nil _)
  | succ n ih =>
    refine marks_membersUntil _ fun _ => marks_member (rules_marks _) _ fun start => ?_
    refine marks_nestedDeclaration (marks_refused (fun _ => rfl) start) ?_
    exact marks_declarationBody (rules_marks n) (ih true) (marks_classMembers n) start

theorem marks_compilationUnit (n : Nat) :
    MarksAll tokens before (compilationUnit n)
      fun u => before ++ (u.marks .everywhere).map Mark.start := by
  refine .next (.plain (plain_usingDirectives (rules_marks n))) fun _ => ?_
  refine .bind (marks_members n false) fun _ => .next (.plain plain_current) fun _ => .pure ?_
  simp [CompilationUnit.marks]

/-- The casts and labels of a unit begin with tokens of their own, in the order of the text. -/
theorem starts_sublist_parseUnit {stream : TokenStream} {maxDepth : Nat}
    {diagnostics : Array Diagnostic} {polls : Polls} {u : CompilationUnit}
    (he : stream.endOfFile.kind = .endOfFile)
    (hu : (parseUnit stream maxDepth diagnostics polls).1 = .ok u) :
    ((u.marks .everywhere).map Mark.start).Sublist (stream.tokens.map Token.start) := by
  let env := Env.of stream maxDepth
  let s := State.start stream diagnostics polls
  have hstart : Marked stream.tokens [] s := ⟨[], rfl, List.nil_sublist _⟩
  have hmarked := marks_compilationUnit env.bound env s he hstart
  have hrun : ((compilationUnit env.bound).run env s).1 = .ok u := hu
  rw [hrun] at hmarked
  obtain ⟨taken, htokens, hmarks⟩ := hmarked
  rw [htokens, List.map_append]
  exact hmarks.trans (List.sublist_append_left _ _)

/-! ### Statements stand outside namespaces -/

/-- A member that may stand in a namespace or outside. -/
def Stands (inNamespace : Bool) (m : Member) : Prop :=
  m.Sorted ∧ (inNamespace = true → Member.globals [m] = [])

theorem stands_namespace {ms : List Member} (h : ∀ m ∈ ms, Stands true m) :
    Member.globals ms = [] ∧ Member.AllSorted ms := by
  refine ⟨List.filterMap_eq_nil_iff.mpr fun m hm => ?_,
    Member.allSorted_iff.mpr fun m hm => (h m hm).1⟩
  exact List.filterMap_eq_nil_iff.mp ((h m hm).2 rfl) m (List.mem_singleton_self m)

theorem stands_member {inNamespace : Bool} {declaration : Nat → Cancellable Member}
    (hd : ∀ start, YieldsAll (declaration start) (Stands inNamespace)) :
    YieldsAll (member r inNamespace declaration) (Stands inNamespace) := by
  have hbad : Yields badGlobalMember (Stands inNamespace) :=
    .next fun _ => .next fun _ => .next fun _ => .next fun _ => .pure ⟨trivial, fun _ => rfl⟩
  have hglobal (h : inNamespace = false) : Yields (globalStatement r) (Stands inNamespace) := by
    refine .withReader (fun _ _ => Iff.rfl) ((Keeps.any _).map fun _ _ => ⟨trivial, ?_⟩)
    rw [h]
    nofun
  refine .next fun t => .next fun s => .ite (hd _) ?_
  cases inNamespace with
  | true => exact .lift hbad
  | false => exact .ite (.lift (hglobal rfl)) (.lift hbad)

theorem stands_namespaceDeclaration {members : Cancellable (List Member)}
    (hm : YieldsAll members fun ms => ∀ m ∈ ms, Stands true m) :
    YieldsAll (namespaceDeclaration r members) (·.Sorted) := by
  refine .next fun _ => .next fun _ => .next fun name => .next fun b => ?_
  have hlast (start : Nat) (us : List UsingDirective) {ms : List Member}
      (hms : ∀ m ∈ ms, Stands true m) :
      YieldsAll (do return NamespaceDeclaration.mk (← rangeFrom start) name us ms) (·.Sorted) :=
    .next fun _ => .pure (stands_namespace hms)
  have hrest (start : Nat) : YieldsAll (do
      let usings ← usingDirectives r
      let members ← members
      if !b then
        let _ ← eat (.punct .closeBrace)
      return NamespaceDeclaration.mk (← rangeFrom start) name usings members) (·.Sorted) :=
    .next fun us => .bind hm fun ms hms =>
      .ite (.next fun _ => hlast start us hms) (hlast start us hms)
  exact .ite (.next fun _ => hrest _) (hrest _)

theorem stands_declarationBody {inNamespace : Bool} {namespaceMembers : Cancellable (List Member)}
    (hn : YieldsAll namespaceMembers fun ms => ∀ m ∈ ms, Stands true m)
    (classMembers : Cancellable (List ClassMember)) (start : Nat) :
    YieldsAll (declarationBody r namespaceMembers classMembers start) (Stands inNamespace) := by
  refine .next fun _ => .ite ?_ (.next fun _ => ?_)
  · exact (stands_namespaceDeclaration hn).map fun _ h => ⟨h, fun _ => rfl⟩
  · exact (KeepsAll.any _).map fun _ _ => ⟨trivial, fun _ => rfl⟩

theorem stands_members (n : Nat) (inNamespace : Bool) :
    YieldsAll (members n inNamespace) fun ms => ∀ m ∈ ms, Stands inNamespace m := by
  have hrefused (inNamespace : Bool) (start : Nat) :
      Yields (Member.incomplete <$> rangeFrom start) (Stands inNamespace) :=
    yields_refused (fun _ => ⟨trivial, fun _ => rfl⟩) start
  induction n generalizing inNamespace with
  | zero =>
    refine yields_membersUntil _ (stands_member fun start => ?_)
    exact .next fun _ => .next fun _ => .lift (hrefused _ start)
  | succ n ih =>
    refine yields_membersUntil _ (stands_member fun start => ?_)
    exact yields_nestedDeclaration (hrefused _ start) (stands_declarationBody (ih true) _ start)

/-- In the tree of a unit no statement stands in a namespace. -/
theorem allSorted_parseUnit {stream : TokenStream} {maxDepth : Nat}
    {diagnostics : Array Diagnostic} {polls : Polls} {u : CompilationUnit}
    (hu : (parseUnit stream maxDepth diagnostics polls).1 = .ok u) :
    Member.AllSorted u.members := by
  have hunit (n : Nat) : YieldsAll (compilationUnit n) fun u => Member.AllSorted u.members :=
    .next fun _ => .bind (stands_members n false) fun _ hms => .next fun _ =>
      .pure (Member.allSorted_iff.mpr fun m hm => (hms m hm).1)
  exact (hunit _ (.of stream maxDepth) (.start stream diagnostics polls) trivial).1 u hu

/-- Every text is parsed to a tree in which no two casts or labels begin at one place and no
statement stands in a namespace. -/
theorem exists_parseUnit_scan (text : String) (maxDepth : Nat) :
    ∃ u s, parseUnit (scan text).1 maxDepth (scan text).2 none = (.ok u, s) ∧ s.polls = none ∧
      ((u.marks .everywhere).map Mark.start).Nodup ∧ Member.AllSorted u.members := by
  obtain ⟨hkind, -, hin⟩ := scan_inOrder text
  have hplace : ∀ r : Range, r.On fun _ => True := fun _ => ⟨trivial, trivial⟩
  have hspan : ∀ d ∈ (scan text).2, d.span.On fun _ => True := fun _ _ => ⟨trivial, trivial⟩
  obtain ⟨u, s, hrun, -, hpolls, -⟩ :=
    exists_ok_parseUnit maxDepth trivial (fun t _ => hplace t.range) hspan
  have hu := congrArg Prod.fst hrun
  have hnodup := hin.tokens.nodup_starts.sublist (starts_sublist_parseUnit hkind hu)
  exact ⟨u, s, hrun, hpolls, hnodup, allSorted_parseUnit hu⟩

end Parser

end CSharpFront
