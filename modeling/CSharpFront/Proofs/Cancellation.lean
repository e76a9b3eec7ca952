import CSharpFront.Compilation
import CSharpFront.Proofs.Parser.Heedless
import CSharpFront.Proofs.Parser.Keeps
import Mathlib.Algebra.Ring.Nat
/-!
Cancellation is all or nothing. A stage asks a number of times that depends on the text alone; if
one of these questions finds that it has been cancelled, it gives up, and otherwise its result is
the same as if nobody could ever cancel it. Stages that follow each other share the questions.

The parser asks before each member that it reads, and the binder before each member that it binds.
Main statement: what comes of a compilation that is cancelled after some questions.
-/

namespace CSharpFront

/-! ### Members -/

mutual

/-- How many members a type has, with those inside them. Only some types are entered. -/
def TypeDeclaration.countMembers (enters : Identifier → Bool) : TypeDeclaration → Nat
  | ⟨_, _, _, i, members⟩ => if enters i then ClassMember.countAll enters members else 0

/-- How many members there are inside a member. -/
def ClassMember.countInside (enters : Identifier → Bool) : ClassMember → Nat
  | .nestedType d => d.countMembers enters
  | .field _ | .method _ | .conversion _ | .incomplete _ => 0

def ClassMember.countAll (enters : Identifier → Bool) : List ClassMember → Nat
  | [] => 0
  | m :: ms => 1 + (m.countInside enters + ClassMember.countAll enters ms)

end

mutual

/-- How many members there are inside a member. -/
def Member.countInside (enters : Identifier → Bool) : Member → Nat
  | .namespaceMember n => n.countMembers enters
  | .typeMember d => d.countMembers enters
  | .globalStatement _ | .incomplete _ => 0

def Member.countAll (enters : Identifier → Bool) : List Member → Nat
  | [] => 0
  | m :: ms => 1 + (m.countInside enters + Member.countAll enters ms)

/-- How many members a namespace has, with those inside them. -/
def NamespaceDeclaration.countMembers (enters : Identifier → Bool) : NamespaceDeclaration → Nat
  | ⟨_, _, _, members⟩ => Member.countAll enters members

end

/-- Every type is entered while a unit is parsed. -/
abbrev everyType : Identifier → Bool := fun _ => true

/-- A type without a name is passed over while a unit is bound. -/
abbrev everyNamedType : Identifier → Bool := fun i => !i.isMissing

/-- One question for each member that is parsed, and one for each that is bound. -/
def CompilationUnit.questions (u : CompilationUnit) : Nat :=
  Member.countAll everyType u.members + Member.countAll everyNamedType u.members

theorem ClassMember.countAll_eq_sum (enters : Identifier → Bool) (ms : List ClassMember) :
    ClassMember.countAll enters ms = (ms.map (1 + ·.countInside enters)).sum := by
  induction ms with
  | nil => rfl
  | cons m ms ih => rw [countAll, ih, List.map_cons, List.sum_cons, Nat.add_assoc]

theorem Member.countAll_eq_sum (enters : Identifier → Bool) (ms : List Member) :
    Member.countAll enters ms = (ms.map (1 + ·.countInside enters)).sum := by
  induction ms with
  | nil => rfl
  | cons m ms ih => rw [countAll, ih, List.map_cons, List.sum_cons, Nat.add_assoc]

/-! ### Questions -/

namespace Polls

/-- The answer to a number of questions, asked one after the other until one finds it cancelled. -/
def askTimes : Nat → Polls → Except Cancelled Polls
  | 0, polls => .ok polls
  | n + 1, polls => polls.ask >>= askTimes n

theorem askTimes_one (polls : Polls) : polls.askTimes 1 = polls.ask := bind_pure _

theorem askTimes_add (m n : Nat) (polls : Polls) :
    polls.askTimes (m + n) = polls.askTimes m >>= askTimes n := by
  induction m generalizing polls with
  | zero => rw [Nat.zero_add]; rfl
  | succ m ih =>
    calc
      polls.askTimes (m + 1 + n) = polls.ask >>= askTimes (m + n) := by rw [Nat.succ_add]; rfl
      _ = polls.ask >>= fun left => left.askTimes m >>= askTimes n := bind_congr ih
      _ = polls.askTimes (m + 1) >>= askTimes n := (bind_assoc _ _ _).symm

theorem askTimes_none (n : Nat) : askTimes n none = .ok none := by
  induction n with
  | zero => rfl
  | succ n ih => exact ih

theorem askTimes_some (n k : Nat) :
    askTimes n (some k) = if k < n then .error .cancelled else .ok (some (k - n)) := by
  induction n generalizing k with
  | zero => rfl
  | succ n ih =>
    cases k with
    | zero => rfl
    | succ k =>
      show askTimes n (some k) = _
      simp only [ih, Nat.succ_lt_succ_iff, Nat.add_sub_add_right]

end Polls

/-- A stage of a compilation, which uses up some of the questions that are left. -/
abbrev Stage := StateT Polls (Except Cancelled)

/-- A stage that is all or nothing: it asks a number of times and then has one result. Something
holds of that number and the result. -/
def Stage.Asks {α : Type} (post : Nat → α → Prop) (m : Stage α) : Prop :=
  ∃ n a, post n a ∧ ∀ polls, m polls = (polls.askTimes n).map (a, ·)

namespace Stage.Asks

variable {α β : Type} {post : Nat → α → Prop} {after : Nat → β → Prop} {m : Stage α}

theorem pure {a : α} (h : post 0 a) : Asks post (Pure.pure a) := ⟨0, a, h, fun _ => rfl⟩

/-- Two stages that share the questions. -/
theorem bind {f : α → Stage β} (hm : Asks post m)
    (hf : ∀ i a, post i a → Asks (fun j b => after (i + j) b) (f a)) : Asks after (m >>= f) := by
  obtain ⟨i, a, ha, hm⟩ := hm
  obtain ⟨j, b, hb, hf⟩ := hf i a ha
  refine ⟨i + j, b, hb, fun polls => ?_⟩
  show (m polls >>= fun r => f r.1 r.2) = _
  rw [hm, Polls.askTimes_add]
  cases polls.askTimes i with
  | ok left => exact hf left
  | error e => rfl

end Stage.Asks

/-! ### Parsing -/

namespace Parser

variable {α β : Type}

/-- What a parser comes to, with the questions that are left given back apart from its state. -/
def outcome : Except Cancelled α × State → Except Cancelled ((α × State) × Polls)
  | (.ok a, s) => .ok ((a, { s with polls := none }), s.polls)
  | (.error e, _) => .error e

/-- A parser as a stage that starts from some state. -/
def Cancellable.stage (p : Cancellable α) (env : Env) (s : State) : Stage (α × State) :=
  fun polls => outcome (p.run env { s with polls })

/-- A parser that is all or nothing. -/
def Asks (post : Nat → α → Prop) (p : Cancellable α) : Prop :=
  ∀ env s, Stage.Asks (fun n r => post n r.1) (p.stage env s)

theorem stage_bind (p : Cancellable α) (f : α → Cancellable β) (env : Env) (s : State) :
    (p >>= f).stage env s = p.stage env s >>= fun (a, t) => (f a).stage env t := by
  funext polls
  show outcome (ExceptT.bindCont f (p.run env { s with polls }).1 env
    (p.run env { s with polls }).2) = outcome (p.run env { s with polls }) >>= _
  rcases p.run env { s with polls } with ⟨a | e, t⟩ <;> rfl

namespace Asks

variable {post : Nat → α → Prop} {after : Nat → β → Prop} {p : Cancellable α}

theorem pure {a : α} (h : post 0 a) : Asks post (Pure.pure a) :=
  fun _ s => ⟨0, (a, { s with polls := none }), h, fun _ => rfl⟩

theorem bind {f : α → Cancellable β} (hp : Asks post p)
    (hf : ∀ i a, post i a → Asks (fun j b => after (i + j) b) (f a)) : Asks after (p >>= f) := by
  intro env s
  rw [stage_bind]
  exact .bind (hp env s) fun i r hr => hf i r.1 hr env r.2

theorem map {f : α → β} (hp : Asks post p) (h : ∀ n a, post n a → after n (f a)) :
    Asks after (f <$> p) := by
  rw [map_eq_pure_bind]
  exact .bind hp fun n a ha => .pure (h n a ha)

theorem ite {c : Prop} [Decidable c] {q : Cancellable α} (hp : Asks post p) (hq : Asks post q) :
    Asks post (if c then p else q) := by
  split
  · exact hp
  · exact hq

/-- What does not heed cancellation asks nothing. -/
theorem lift {q : P α} [hq : Heedless q] (h : Yields q (post 0)) : Asks post (liftM q) := by
  intro env s
  have hpost : post 0 (q env s).1 := (h env s trivial).1
  refine ⟨0, ((q env s).1, { (q env s).2 with polls := none }), hpost, fun polls => ?_⟩
  show outcome (.ok (q env { s with polls }).1, (q env { s with polls }).2) = _
  rw [hq.run]
  rfl

/-- A step that asks nothing, and whose result does not matter. -/
theorem next {q : P α} [Heedless q] {f : α → Cancellable β} (hf : ∀ a, Asks after (f a)) :
    Asks after (liftM q >>= f) := by
  have hq : Asks (fun n _ => n = 0) (liftM q : Cancellable α) := .lift fun _ _ _ => ⟨rfl, trivial⟩
  refine .bind hq fun i a hi => ?_
  simpa only [hi, Nat.zero_add] using hf a

theorem get {f : State → Cancellable α} (h : ∀ s polls, f { s with polls } = f s)
    (hf : ∀ s, Asks post (f s)) : Asks post (MonadState.get >>= f) := by
  intro env s
  have hstage : (MonadState.get >>= f : Cancellable α).stage env s = (f s).stage env s := by
    funext polls
    rw [← h s polls]
    rfl
  rw [hstage]
  exact hf s env s

theorem iterate {step : α → Cancellable (ForInStep α)}
    (hs : ∀ i a, post i a → Asks (fun j r => post (i + j) r.value) (step a)) (n : Nat) {i : Nat}
    {a : α} (ha : post i a) : Asks (fun j b => post (i + j) b) (iterate step n a) := by
  induction n generalizing i a with
  | zero => exact .next (q := runOut) fun _ => .pure ha
  | succ n ih =>
    refine .bind (hs i a ha) fun j r hr => ?_
    cases r with
    | done b => exact .pure hr
    | yield b => simpa only [Nat.add_assoc] using ih (a := b) hr

theorem loop {step : α → Cancellable (ForInStep α)} {a : α}
    (hs : ∀ i a, post i a → Asks (fun j r => post (i + j) r.value) (step a)) (ha : post 0 a) :
    Asks post (loop a step) := by
  refine .next (q := MonadReader.read) fun env => ?_
  simpa only [Nat.zero_add] using iterate hs env.budget ha

end Asks

theorem asks_poll : Asks (fun n _ => n = 1) poll := by
  intro env s
  refine ⟨1, ((), { s with polls := none }), rfl, fun polls => ?_⟩
  rw [Polls.askTimes_one]
  rcases polls with _ | _ | n <;> rfl

/-- What is left of a level's body when the level is left after it. It is left also if the body
gives up, but nobody learns of that. -/
theorem stage_leaving (body : Cancellable α) (env : Env) (s : State) :
    Cancellable.stage (ExceptT.mk do let r ← body.run; leave 1; return r) env s =
      Cancellable.stage (do let a ← body; leave 1; return a) env s := by
  funext polls
  rw [stage_bind]
  show outcome ((body.run env { s with polls }).1,
    (leave 1 env (body.run env { s with polls }).2).2) =
      outcome (body.run env { s with polls }) >>= _
  rcases body.run env { s with polls } with ⟨a | e, t⟩ <;> rfl

/-- One question for each member, and those that are asked while it is read. -/
theorem asks_membersUntil (ends : TokenKind → Bool) {member : Cancellable α} {inside : α → Nat}
    (hm : Asks (fun n m => inside m = n) member) :
    Asks (fun n ms => (ms.map (1 + inside ·)).sum = n) (membersUntil ends member) := by
  let asked (n : Nat) (ms : List α) : Prop := (ms.map (1 + inside ·)).sum = n
  refine .bind (.loop (fun i ms hi => ?_) rfl : Asks asked _) fun i ms hi => .pure ?_
  · refine .next fun _ => .ite (.pure hi) (.bind asks_poll fun j _ hj => ?_)
    refine .get (fun _ _ => rfl) fun _ => .bind hm fun k m hk => .get (fun _ _ => rfl) fun _ => ?_
    have hcons : ((m :: ms).map (1 + inside ·)).sum = i + (j + (k + 0)) := by
      rw [List.map_cons, List.sum_cons, hk, hi, hj]
      omega
    exact .ite (.next fun _ => .pure hcons) (.pure hcons)
  · rw [List.map_reverse, List.sum_reverse]
    exact hi

theorem asks_nestedDeclaration {post : Nat → α → Prop} {refused : P α} [Heedless refused]
    {body : Cancellable α} (hr : Yields refused (post 0)) (hb : Asks post body) :
    Asks post (nestedDeclaration refused body) := by
  intro env s
  have hstage : (nestedDeclaration refused body).stage env s =
      if (enter env s).1 then
        Cancellable.stage (ExceptT.mk do let r ← body.run; leave 1; return r) env (enter env s).2
      else Cancellable.stage refused env (enter env s).2 := by
    funext polls
    have hrun : (nestedDeclaration refused body).run env { s with polls } =
        (if (enter env { s with polls }).1 then (do let r ← body.run; leave 1; return r)
        else .ok <$> refused : P _) env (enter env { s with polls }).2 := rfl
    rw [Cancellable.stage, hrun, Heedless.run (p := enter)]
    cases (enter env s).1 <;> rfl
  rw [hstage]
  split
  · rw [stage_leaving]
    exact Asks.bind hb (fun _ _ ha => .next fun _ => .pure ha) _ _
  · exact Asks.lift hr _ _

/-! ### Declarations -/

section

variable {r : Rules} [r.Heedless]

theorem asks_classMember {nestedType : Nat → Modifiers → Cancellable ClassMember}
    (hn : ∀ start ms, Asks (fun n m => m.countInside everyType = n) (nestedType start ms)) :
    Asks (fun n m => m.countInside everyType = n) (classMember r nestedType) := by
  refine .next fun t => .next fun ms => .next fun _ => .ite (hn t.start ms) (.lift ?_)
  refine (yields_plainMember_ne_nestedType r t.start ms).imp fun m hm => ?_
  cases m with
  | nestedType d => exact absurd rfl (hm d)
  | field | method | conversion | incomplete => rfl

theorem asks_typeDeclaration {members : Cancellable (List ClassMember)}
    (hm : Asks (fun n ms => ClassMember.countAll everyType ms = n) members) (start : Nat)
    (ms : Modifiers) :
    Asks (fun n d => d.countMembers everyType = n) (typeDeclaration r members start ms) := by
  refine .next fun _ => .next fun _ => .next fun i => .next fun _ => .next fun _ => ?_
  exact .bind hm fun n ms hms => .next fun _ => .next fun _ => .pure hms

theorem asks_classMembers (bound : Nat) :
    Asks (fun n ms => ClassMember.countAll everyType ms = n) (classMembers bound) := by
  induction bound with
  | zero =>
    simp only [ClassMember.countAll_eq_sum]
    refine asks_membersUntil _ (asks_classMember fun start _ => ?_)
    exact .next (q := runOut) fun _ => .next fun _ => .next fun _ => .pure rfl
  | succ bound ih =>
    simp only [ClassMember.countAll_eq_sum]
    refine asks_membersUntil _ (asks_classMember fun start ms => ?_)
    refine asks_nestedDeclaration (yields_refused (fun _ => rfl) start) ?_
    exact (asks_typeDeclaration ih start ms).map fun _ _ h => h

theorem asks_namespaceDeclaration {members : Cancellable (List Member)}
    (hm : Asks (fun n ms => Member.countAll everyType ms = n) members) :
    Asks (fun n d => d.countMembers everyType = n) (namespaceDeclaration r members) := by
  refine .next fun _ => .next fun _ => .next fun _ => .next fun _ => .ite (.next fun _ => ?_) ?_
  -- with braces or without, the members are all that asks
  all_goals
    refine .next fun _ => .bind hm fun _ _ h => .ite ?_ (.next fun _ => .pure h)
    exact .next fun _ => .next fun _ => .pure h

theorem asks_member (inNamespace : Bool) {declaration : Nat → Cancellable Member}
    (hd : ∀ start, Asks (fun n m => m.countInside everyType = n) (declaration start)) :
    Asks (fun n m => m.countInside everyType = n) (member r inNamespace declaration) := by
  refine .next fun t => .get (fun _ _ => rfl) fun _ => ?_
  refine .ite (hd t.start) (.ite (.lift ?_) (.lift ?_))
  · exact .withReader (fun _ _ => .rfl) ((Keeps.any _).map fun _ _ => rfl)
  · exact .next fun _ => .next fun _ => .next fun _ => .next fun _ => .pure rfl

theorem asks_declarationBody {namespaceMembers : Cancellable (List Member)}
    {classMembers : Cancellable (List ClassMember)}
    (hn : Asks (fun n ms => Member.countAll everyType ms = n) namespaceMembers)
    (hc : Asks (fun n ms => ClassMember.countAll everyType ms = n) classMembers) (start : Nat) :
    Asks (fun n m => m.countInside everyType = n)
      (declarationBody r namespaceMembers classMembers start) := by
  refine .next fun _ => .ite ?_ (.next fun ms => ?_)
  · exact (asks_namespaceDeclaration hn).map fun _ _ h => h
  · exact (asks_typeDeclaration hc start ms).map fun _ _ h => h

theorem asks_members (bound : Nat) (inNamespace : Bool) :
    Asks (fun n ms => Member.countAll everyType ms = n) (members bound inNamespace) := by
  induction bound generalizing inNamespace with
  | zero =>
    simp only [Member.countAll_eq_sum]
    refine asks_membersUntil _ (asks_member inNamespace fun start => ?_)
    exact .next (q := runOut) fun _ => .next fun _ => .next fun _ => .pure rfl
  | succ bound ih =>
    simp only [Member.countAll_eq_sum]
    refine asks_membersUntil _ (asks_member inNamespace fun start => ?_)
    refine asks_nestedDeclaration (yields_refused (fun _ => rfl) start) ?_
    exact asks_declarationBody (ih true) (asks_classMembers bound) start

theorem asks_compilationUnit (bound : Nat) :
    Asks (fun n u => Member.countAll everyType u.members = n) (compilationUnit bound) := by
  refine .next fun _ => .bind (asks_members bound false) fun n ms hms => .next fun _ => ?_
  exact .pure hms

end

end Parser

/-! ### Binding -/

namespace Binding

variable {α β : Type}

/-- What a binding comes to, with the questions that are left. -/
def outcome : (Except Cancelled α × Polls) × State → Except Cancelled ((α × State) × Polls)
  | ((.ok a, left), s) => .ok ((a, s), left)
  | ((.error e, _), _) => .error e

/-- A binding as a stage that starts from some state. -/
def Cancellable.stage (m : Cancellable α) (s : State) : Stage (α × State) :=
  fun polls => outcome (m.run polls s)

/-- A binding that is all or nothing, and asks a number of times. -/
def Asks (n : Nat) (m : Cancellable α) : Prop := ∀ s, Stage.Asks (fun k _ => k = n) (m.stage s)

theorem stage_bind (m : Cancellable α) (f : α → Cancellable β) (s : State) :
    (m >>= f).stage s = m.stage s >>= fun (a, t) => (f a).stage t := by
  funext polls
  show outcome (ExceptT.bindCont f (m.run polls s).1.1 (m.run polls s).1.2 (m.run polls s).2) =
    outcome (m.run polls s) >>= _
  rcases m.run polls s with ⟨⟨a | e, left⟩, t⟩ <;> rfl

namespace Asks

variable {n k : Nat} {m : Cancellable α}

theorem pure (a : α) : Asks 0 (Pure.pure a : Cancellable α) := fun _ => .pure rfl

theorem lift (m : BindM α) : Asks 0 (liftM m : Cancellable α) := fun _ => .pure rfl

theorem bind {f : α → Cancellable β} (hm : Asks n m) (hf : ∀ a, Asks k (f a)) :
    Asks (n + k) (m >>= f) := by
  intro s
  rw [stage_bind]
  refine .bind (hm s) fun i r hi => ?_
  subst hi
  obtain ⟨j, t, hj, hstage⟩ := hf r.1 r.2
  exact ⟨j, t, congrArg (i + ·) hj, hstage⟩

theorem map {f : α → β} (hm : Asks n m) : Asks n (f <$> m) := by
  rw [map_eq_pure_bind]
  exact bind hm fun a => pure (f a)

/-- A step that asks nothing. -/
theorem next {m : BindM α} {f : α → Cancellable β} (hf : ∀ a, Asks n (f a)) :
    Asks n (liftM m >>= f) := by
  simpa only [Nat.zero_add] using bind (lift m) hf

/-- What asks, with a step after it that does not. -/
theorem last {f : α → Cancellable β} (hm : Asks n m) (hf : ∀ a, Asks 0 (f a)) :
    Asks n (m >>= f) :=
  bind hm hf

end Asks

theorem asks_poll : Asks 1 poll := by
  intro s
  refine ⟨1, ((), s), rfl, fun polls => ?_⟩
  rw [Polls.askTimes_one]
  rcases polls with _ | _ | n <;> rfl

mutual

theorem asks_typeDeclaration (c : Context) (container : String) :
    (d : TypeDeclaration) → Asks (d.countMembers everyNamedType) (typeDeclaration c container d)
  | ⟨_, _, _, i, ms⟩ => by
    unfold typeDeclaration TypeDeclaration.countMembers everyNamedType
    cases i.isMissing with
    | true => exact .pure ()
    | false => exact asks_classMembers _ _ ms

theorem asks_classMember (c : Context) (owner : String) :
    (m : ClassMember) → Asks (m.countInside everyNamedType) (classMember c owner m)
  | .field f => .lift (field c f)
  | .method m => by
    have hbody (returns? : Option Ty) :
        Asks 0 (liftM (body c returns? m.parameters m.body?) : Cancellable Unit) := .lift _
    unfold classMember
    split
    next type _ => exact .bind (.map (.lift (c.resolve type))) hbody
    · exact .bind (.pure none) hbody
  | .conversion o => .next fun t => .lift (body c (some t) o.parameters o.body?)
  | .nestedType d => asks_typeDeclaration c owner d
  | .incomplete _ => .pure ()

theorem asks_classMembers (c : Context) (owner : String) :
    (ms : List ClassMember) →
      Asks (ClassMember.countAll everyNamedType ms) (classMembers c owner ms)
  | [] => .pure ()
  | m :: ms => .bind asks_poll fun _ =>
    .bind (asks_classMember c owner m) fun _ => asks_classMembers c owner ms

end

mutual

theorem asks_member (c : Context) (container : String) (globals : ScopeChain) :
    (m : Member) → Asks (m.countInside everyNamedType) (member c container globals m)
  | .namespaceMember n => asks_namespaceDeclaration c container globals n
  | .typeMember d => .last (asks_typeDeclaration c container d) fun _ => .pure globals
  | .globalStatement _ => .next fun c => .pure c.scopes
  | .incomplete _ => .pure globals

theorem asks_members (c : Context) (container : String) (globals : ScopeChain) :
    (ms : List Member) →
      Asks (Member.countAll everyNamedType ms) (members c container globals ms)
  | [] => .pure globals
  | m :: ms => .bind asks_poll fun _ =>
    .bind (asks_member c container globals m) fun globals => asks_members c container globals ms

theorem asks_namespaceDeclaration (c : Context) (container : String) (globals : ScopeChain) :
    (n : NamespaceDeclaration) →
      Asks (n.countMembers everyNamedType) (namespaceDeclaration c container globals n)
  | ⟨_, name, _, ms⟩ => asks_members c (qualify container name.dotted) globals ms

end

theorem asks_unit (c : Context) (u : CompilationUnit) :
    Asks (Member.countAll everyNamedType u.members) (unit c u) :=
  .next fun globals => .last (asks_members c "" globals.scopes u.members) fun _ => .pure ()

end Binding

/-! ### Compiling -/

/-- The questions that are left when a compilation ends. -/
def questionsLeft (text : String) (maxDepth : Nat) (polls : Polls) : Polls :=
  let (stream, scanned) := scan text
  match Parser.parseUnit stream maxDepth scanned polls with
  | (.error _, parsed) => parsed.polls
  | (.ok u, parsed) => (bindUnit u parsed.diagnostics parsed.polls).2.1

/-- Compiling a text: scanning, parsing, binding and the walk over what can be reached, of which
parsing and binding ask. The tree is given back beside the bag. -/
def compileStage (text : String) (maxDepth : Nat) : Stage (CompilationUnit × Bag) := do
  let (stream, scanned) := scan text
  let env := Parser.Env.of stream maxDepth
  let (u, parsed) ← (Parser.compilationUnit env.bound).stage env (.start stream scanned none)
  let ds := Declarations.ofMembers u.members
  let (_, bound) ← (Binding.unit (.of ds) u).stage
    { listing := ds.listing, diagnostics := parsed.diagnostics }
  return (u, (Flow.unit ⟨stream, bound.referenced.contains⟩ u bound.diagnostics).toList)

theorem asks_compileStage (text : String) (maxDepth : Nat) :
    (compileStage text maxDepth).Asks fun n r => n = r.1.questions :=
  .bind (Parser.asks_compilationUnit _ _ _) fun i r hi =>
    .bind (Binding.asks_unit _ _ _) fun j _ hj => .pure <| by
      rw [CompilationUnit.questions, hi, hj, Nat.add_zero]

/-- The stage by what its parts come to. -/
theorem compileStage_apply (text : String) (maxDepth : Nat) (polls : Polls) :
    compileStage text maxDepth polls = (do
      let (stream, scanned) := scan text
      let ((u, parsed), left) ←
        Parser.outcome (Parser.parseUnit stream maxDepth scanned polls)
      let (result, left, bound) := bindUnit u parsed.diagnostics left
      let ((_, last), left) ← Binding.outcome ((result, left), bound.state)
      pure ((u, (Flow.unit ⟨stream, last.referenced.contains⟩ u last.diagnostics).toList), left)) :=
  rfl

/-- What a compilation comes to, and what it has parsed and left if it comes to its end. -/
theorem compileText_stage (text : String) (maxDepth : Nat) (polls : Polls) :
    compileText text maxDepth polls = (compileStage text maxDepth polls).map (·.1.2) ∧
      ∀ r, compileStage text maxDepth polls = .ok r →
        (Parser.parseUnit (scan text).1 maxDepth (scan text).2 polls).1 = .ok r.1.1 ∧
          questionsLeft text maxDepth polls = r.2 := by
  rw [compileStage_apply, compileText, questionsLeft]
  rcases scan text with ⟨stream, scanned⟩
  dsimp only
  rcases Parser.parseUnit stream maxDepth scanned polls with ⟨e | u, parsed⟩
  · exact ⟨rfl, nofun⟩
  · dsimp only [Parser.outcome, bind, Except.bind]
    rcases bindUnit u parsed.diagnostics parsed.polls with ⟨e | _, left, bound⟩
    · exact ⟨rfl, nofun⟩
    · refine ⟨rfl, fun r hr => ?_⟩
      cases hr
      exact ⟨rfl, rfl⟩

/-- Cancellation is all or nothing. A compilation that nobody cancels comes to a bag, and asks as
often as there are members to parse and to bind: so many of the questions that it is given are gone
in the end. Whoever cancels it after some number of questions makes it fail if it asks once more,
and otherwise changes nothing. -/
theorem compileUnit_cancelled (o : CompilerOptions) (file text : String) :
    ∃ (u : CompilationUnit) (bag : Bag),
      (Parser.parseUnit (scan text).1 o.depth (scan text).2 none).1 = .ok u ∧
      (compileUnit o none file text).outcome = .ok bag ∧
      (∀ k, questionsLeft text o.depth (some (u.questions + k)) = some k) ∧
      ∀ k, (compileUnit o (some k) file text).outcome =
        if k < u.questions then .error .cancelled else .ok bag := by
  obtain ⟨n, ⟨u, bag⟩, hn, hstage⟩ := asks_compileStage text o.depth
  obtain rfl : n = u.questions := hn
  have houtcome (polls : Polls) : (compileUnit o polls file text).outcome =
      (polls.askTimes u.questions).map fun _ => bag := by
    show compileText text o.depth polls = _
    rw [(compileText_stage text o.depth polls).1, hstage]
    cases polls.askTimes u.questions <;> rfl
  refine ⟨u, bag, ?_, ?_, fun k => ?_, fun k => ?_⟩
  · refine ((compileText_stage text o.depth none).2 ((u, bag), none) ?_).1
    rw [hstage, Polls.askTimes_none]
    rfl
  · rw [houtcome, Polls.askTimes_none]
    rfl
  · refine ((compileText_stage text o.depth (some (u.questions + k))).2 ((u, bag), some k) ?_).2
    rw [hstage, Polls.askTimes_some, if_neg (by omega), Nat.add_sub_cancel_left]
    rfl
  · rw [houtcome, Polls.askTimes_some]
    split <;> rfl

/-- Two members, which are parsed and then bound. -/
example :
    let text := "class A \x7b int x; \x7d"
    (compileText text 8 (some 3)).toOption = none ∧
      (compileText text 8 (some 4)).toOption = some [] ∧
      questionsLeft text 8 (some 9) = some 5 := by
  decide +kernel

end CSharpFront
