import CSharpFront.Parser.Declarations
import CSharpFront.Proofs.Keeps
/-!
Invariants of parsers. The rules are those of a computation with a state; what is read of the
environment or of the state has what the invariant says of it.

A parser yields what its results have wherever it starts. Where a property of the results does not
depend on the tokens, nothing need be known of the state, and a step whose result does not matter
can be passed over.
-/

namespace CSharpFront.Parser

/-- A parser that keeps an invariant and whose results have a property. -/
def Keeps {α : Type} (inv : Env → State → Prop) (p : P α) (post : α → Prop) : Prop :=
  ∀ env, CSharpFront.Keeps (inv env) (p env) post

/-- An invariant that is blind to levels and bounds: it stays when a level is entered or left, and
when a bound is used up. -/
class Blind (inv : Env → State → Prop) : Prop where
  depth {env : Env} {s : State} (d : Nat) :
    inv env s → inv env (s.moveTo { s.toMoment with depth := d })
  ranOut {env : Env} {s : State} (b : Bool) : inv env s → inv env { s with ranOut := b }

namespace Keeps

variable {α β : Type} {inv : Env → State → Prop} {p : P α} {post : α → Prop}

theorem pure {a : α} (h : post a) : Keeps inv (Pure.pure a) post := fun _ => .pure h

theorem bind {f : α → P β} {after : β → Prop} (hp : Keeps inv p post)
    (hf : ∀ a, post a → Keeps inv (f a) after) : Keeps inv (p >>= f) after :=
  fun env => (hp env).bind fun a ha => hf a ha env

theorem imp {after : α → Prop} (hp : Keeps inv p post) (h : ∀ a, post a → after a) :
    Keeps inv p after :=
  fun env => (hp env).imp h

theorem map {f : α → β} {after : β → Prop} (hp : Keeps inv p post)
    (h : ∀ a, post a → after (f a)) : Keeps inv (f <$> p) after :=
  fun env => (hp env).map h

theorem ite {c : Prop} [Decidable c] {q : P α} (hp : c → Keeps inv p post)
    (hq : ¬ c → Keeps inv q post) : Keeps inv (if c then p else q) post := by
  split
  next h => exact hp h
  next h => exact hq h

/-- Two ways to come to the same last step. -/
theorem iteBind {c : Prop} [Decidable c] {q : P α} {f : α → P β} {after : β → Prop}
    (hp : c → Keeps inv p post) (hq : ¬ c → Keeps inv q post)
    (hf : ∀ a, post a → Keeps inv (f a) after) :
    Keeps inv (if c then p >>= f else q >>= f) after :=
  .ite (fun h => (hp h).bind hf) fun h => (hq h).bind hf

/-- A result that may be absent, where it is there. -/
theorem present (hp : Keeps inv p post) : Keeps inv (some <$> p) fun a? => ∀ a ∈ a?, post a := by
  apply hp.map
  rintro a ha _ ⟨rfl⟩
  exact ha

theorem absent : Keeps inv (Pure.pure none : P (Option α)) fun a? => ∀ a ∈ a?, post a := by
  apply pure
  intro a ha
  cases ha

theorem get : Keeps inv MonadState.get fun s => ∃ env, inv env s :=
  fun env _ hs => ⟨⟨env, hs⟩, hs⟩

theorem read : Keeps inv MonadReader.read fun env => ∃ s, inv env s :=
  fun _ s hs => ⟨⟨s, hs⟩, hs⟩

theorem of_modify {f : State → State} (h : ∀ env s, inv env s → inv env (f s)) :
    Keeps inv (modify f) fun _ => True :=
  fun env s hs => ⟨trivial, h env s hs⟩

/-- The environment may change for a while in what the invariant does not speak of. -/
theorem withReader {f : Env → Env} (hf : ∀ env s, inv (f env) s ↔ inv env s)
    (hp : Keeps inv p post) : Keeps inv (withReader f p) post := by
  intro env s hs
  obtain ⟨ha, hs'⟩ := hp (f env) s ((hf env s).mpr hs)
  exact ⟨ha, (hf env _).mp hs'⟩

/-! ### Levels and bounds -/

theorem enter [Blind inv] (hg : Keeps inv refuse fun _ => True) :
    Keeps inv enter fun _ => True := by
  refine .bind .get fun _ _ => .ite (fun _ => .pure trivial) fun _ => ?_
  refine .bind .read fun _ _ => .ite (fun _ => .bind hg fun _ _ => .pure trivial) fun _ => ?_
  exact .bind (.of_modify fun _ _ hs => Blind.depth _ hs) fun _ _ => .pure trivial

theorem leave [Blind inv] (levels : Nat) : Keeps inv (leave levels) fun _ => True :=
  .of_modify fun _ _ hs => Blind.ranOut _ (Blind.depth _ hs)

theorem nested [Blind inv] {refused : P α} (hg : Keeps inv refuse fun _ => True)
    (hr : Keeps inv refused post) (hp : Keeps inv p post) : Keeps inv (nested refused p) post := by
  refine .bind (.enter hg) fun _ _ => .ite (fun _ => ?_) fun _ => hr
  exact .bind hp fun _ ha => .bind (.leave 1) fun _ _ => .pure ha

theorem runOut [Blind inv] : Keeps inv runOut fun _ => True :=
  .of_modify fun _ _ hs => Blind.ranOut _ hs

/-! ### Loops -/

theorem iterate [Blind inv] (post : α → Prop) {step : α → P (ForInStep α)}
    (hs : ∀ a, post a → Keeps inv (step a) (post ·.value)) (n : Nat) {a : α} (ha : post a) :
    Keeps inv (iterate step n a) post := by
  induction n generalizing a with
  | zero => exact .bind .runOut fun _ _ => .pure ha
  | succ n ih =>
    refine .bind (hs a ha) fun r hr => ?_
    cases r with
    | done b => exact .pure hr
    | yield b => exact ih hr

theorem loop [Blind inv] (post : α → Prop) {step : α → P (ForInStep α)} {a : α} (ha : post a)
    (hs : ∀ a, post a → Keeps inv (step a) (post ·.value)) : Keeps inv (loop a step) post :=
  .bind .read fun _ _ => .iterate _ hs _ ha

theorem many [Blind inv] {item : P (Option α)} (hi : Keeps inv item fun a? => ∀ a ∈ a?, post a) :
    Keeps inv (many item) fun as => ∀ a ∈ as, post a := by
  refine .bind (.loop (fun as => ∀ a ∈ as, post a) (by simp) fun as has => ?_)
    fun as has => .pure fun a ha => has a (List.mem_reverse.mp ha)
  refine .bind hi fun a? ha => ?_
  cases a? with
  | some a => exact .pure (List.forall_mem_cons.mpr ⟨ha a rfl, has⟩)
  | none => exact .pure has

end Keeps

/-! ### Parsers that can be cancelled -/

/-- A parser that could be cancelled but is not, and keeps an invariant. -/
def Completes {α : Type} (inv : Env → State → Prop) (p : Cancellable α) (post : α → Prop) : Prop :=
  Keeps inv p.run fun r => ∃ a, r = .ok a ∧ post a

namespace Completes

variable {α β : Type} {inv : Env → State → Prop} {p : Cancellable α} {post : α → Prop}

theorem pure {a : α} (h : post a) : Completes inv (Pure.pure a) post := Keeps.pure ⟨a, rfl, h⟩

theorem bind {f : α → Cancellable β} {after : β → Prop} (hp : Completes inv p post)
    (hf : ∀ a, post a → Completes inv (f a) after) : Completes inv (p >>= f) after := by
  rw [Completes, ExceptT.run_bind]
  refine .bind hp fun r hr => ?_
  obtain ⟨a, rfl, ha⟩ := hr
  exact hf a ha

theorem map {f : α → β} {after : β → Prop} (hp : Completes inv p post)
    (h : ∀ a, post a → after (f a)) : Completes inv (f <$> p) after := by
  rw [Completes, ExceptT.run_map]
  refine .map hp fun r hr => ?_
  obtain ⟨a, rfl, ha⟩ := hr
  exact ⟨f a, rfl, h a ha⟩

theorem lift {q : P α} (hq : Keeps inv q post) : Completes inv (liftM q) post :=
  hq.map fun a ha => ⟨a, rfl, ha⟩

theorem get : Completes inv MonadState.get fun s => ∃ env, inv env s := .lift .get

theorem read : Completes inv MonadReader.read fun env => ∃ s, inv env s := .lift .read

theorem ite {c : Prop} [Decidable c] {q : Cancellable α} (hp : c → Completes inv p post)
    (hq : ¬ c → Completes inv q post) : Completes inv (if c then p else q) post := by
  split
  next h => exact hp h
  next h => exact hq h

theorem iterate [Blind inv] (post : α → Prop) {step : α → Cancellable (ForInStep α)}
    (hs : ∀ a, post a → Completes inv (step a) (post ·.value)) (n : Nat) {a : α} (ha : post a) :
    Completes inv (iterate step n a) post := by
  induction n generalizing a with
  | zero => exact .bind (.lift .runOut) fun _ _ => .pure ha
  | succ n ih =>
    refine .bind (hs a ha) fun r hr => ?_
    cases r with
    | done b => exact .pure hr
    | yield b => exact ih hr

theorem loop [Blind inv] (post : α → Prop) {step : α → Cancellable (ForInStep α)} {a : α}
    (ha : post a) (hs : ∀ a, post a → Completes inv (step a) (post ·.value)) :
    Completes inv (loop a step) post :=
  .bind .read fun _ _ => .iterate _ hs _ ha

end Completes

/-! ### What parsers yield -/

/-- A parser whose results have a property, wherever it starts. -/
abbrev Yields {α : Type} (p : P α) (post : α → Prop) : Prop := Keeps (fun _ _ => True) p post

instance : Blind fun _ _ => True := ⟨fun _ _ => trivial, fun _ _ => trivial⟩

namespace Keeps

variable {α β : Type} {post : α → Prop}

theorem any (p : P α) : Yields p fun _ => True := fun _ _ _ => ⟨trivial, trivial⟩

/-- A step whose result does not matter. -/
theorem next {p : P β} {f : β → P α} (h : ∀ b, Yields (f b) post) : Yields (p >>= f) post :=
  .bind (.any p) fun b _ => h b

end Keeps

section

variable {α : Type} {item : P α} {post : α → Prop}

theorem yields_afterCommas (hi : Yields item post) :
    Yields (afterCommas item) fun as => ∀ a ∈ as, post a :=
  .many (.next fun _ => .ite (fun _ => .present hi) fun _ => .absent)

theorem yields_separated (hi : Yields item post) :
    Yields (separated item) fun as => ∀ a ∈ as, post a := by
  refine .bind hi fun a ha => .bind (yields_afterCommas hi) fun as has => ?_
  exact .pure (List.forall_mem_cons.mpr ⟨ha, has⟩)

end

/-- What is made up for a declaration that is refused has nothing but a range. -/
theorem yields_refused {α : Type} {f : Range → α} {post : α → Prop} (h : ∀ range, post (f range))
    (start : Nat) : Yields (f <$> rangeFrom start) post :=
  (Keeps.any _).map fun range _ => h range

/-- A member that is read where no type begins is none. -/
theorem yields_plainMember_ne_nestedType (r : Rules) (start : Nat) (ms : Modifiers) :
    Yields (plainMember r start ms) fun m => ∀ d, m ≠ .nestedType d := by
  have hmethod (type? : Option TypeSyntax) (i : Identifier) :
      Yields (methodRest r start ms type? i) fun m => ∀ d, m ≠ .nestedType d := by
    have hlast (ps : List Parameter) : Yields (do
        let body? ← methodBody r (ms.contains .asyncMod)
        return ClassMember.method ⟨← rangeFrom start, ms, type?, i, ps, body?⟩)
        fun m => ∀ d, m ≠ .nestedType d :=
      .next fun _ => .next fun _ => .pure nofun
    exact .next fun ps => .ite (fun _ => .next fun _ => hlast ps) fun _ => hlast ps
  have hbad : Yields (do return ClassMember.incomplete (← rangeFrom start))
      fun m => ∀ d, m ≠ .nestedType d :=
    .next fun _ => .pure nofun
  refine .next fun _ => .ite (fun _ => ?_) fun _ => .ite (fun _ => .next fun i => hmethod none i)
    fun _ => .ite (fun _ => ?_) fun _ => ?_
  · exact .next fun _ => .next fun _ => .next fun _ => .next fun _ => .next fun _ => .next fun _ =>
      .pure nofun
  · refine .next fun t => .next fun i => .next fun _ => ?_
    refine .ite (fun _ => hmethod (some t) i) fun _ => ?_
    exact .next fun _ => .next fun _ => .next fun _ => .pure nofun
  · exact .next fun _ => .next fun _ => .ite (fun _ => hbad) fun _ =>
      .next fun _ => .next fun _ => .next fun _ => hbad

/-! ### What parsers yield that can be cancelled -/

/-- A parser that keeps an invariant, and whose results have a property if it is not cancelled. -/
def KeepsAll {α : Type} (inv : Env → State → Prop) (p : Cancellable α) (post : α → Prop) : Prop :=
  Keeps inv p.run fun result => ∀ a, result = .ok a → post a

/-- A parser whose results have a property if it is not cancelled. -/
abbrev YieldsAll {α : Type} (p : Cancellable α) (post : α → Prop) : Prop :=
  KeepsAll (fun _ _ => True) p post

namespace KeepsAll

variable {α β : Type} {inv : Env → State → Prop} {p : Cancellable α} {post : α → Prop}

theorem pure {a : α} (h : post a) : KeepsAll inv (Pure.pure a) post := by
  refine Keeps.pure fun b hb => ?_
  cases hb
  exact h

theorem bind {f : α → Cancellable β} {after : β → Prop} (hp : KeepsAll inv p post)
    (hf : ∀ a, post a → KeepsAll inv (f a) after) : KeepsAll inv (p >>= f) after := by
  rw [KeepsAll, ExceptT.run_bind]
  refine Keeps.bind hp fun result hresult => ?_
  cases result with
  | ok a => exact hf a (hresult a rfl)
  | error e => exact Keeps.pure nofun

theorem imp {after : α → Prop} (hp : KeepsAll inv p post) (h : ∀ a, post a → after a) :
    KeepsAll inv p after :=
  Keeps.imp hp fun _ hresult a ha => h a (hresult a ha)

theorem lift {q : P α} (hq : Keeps inv q post) : KeepsAll inv (liftM q) post := by
  refine Keeps.map hq fun a ha b hb => ?_
  cases hb
  exact ha

theorem map {f : α → β} {after : β → Prop} (hp : KeepsAll inv p post)
    (h : ∀ a, post a → after (f a)) : KeepsAll inv (f <$> p) after := by
  rw [map_eq_pure_bind]
  exact hp.bind fun a ha => .pure (h a ha)

theorem ite {c : Prop} [Decidable c] {q : Cancellable α} (hp : KeepsAll inv p post)
    (hq : KeepsAll inv q post) : KeepsAll inv (if c then p else q) post := by
  split
  · exact hp
  · exact hq

theorem get : KeepsAll inv MonadState.get fun s => ∃ env, inv env s := .lift .get

theorem iterate [Blind inv] (post : α → Prop) {step : α → Cancellable (ForInStep α)}
    (hs : ∀ a, post a → KeepsAll inv (step a) (post ·.value)) (n : Nat) {a : α} (ha : post a) :
    KeepsAll inv (iterate step n a) post := by
  induction n generalizing a with
  | zero => exact .bind (.lift .runOut) fun _ _ => .pure ha
  | succ n ih =>
    refine .bind (hs a ha) fun result hresult => ?_
    cases result with
    | done b => exact .pure hresult
    | yield b => exact ih hresult

theorem loop [Blind inv] (post : α → Prop) {step : α → Cancellable (ForInStep α)} {a : α}
    (ha : post a) (hs : ∀ a, post a → KeepsAll inv (step a) (post ·.value)) :
    KeepsAll inv (loop a step) post :=
  .bind (.lift .read) fun _ _ => .iterate _ hs _ ha

theorem membersUntil [Blind inv] (hpoll : KeepsAll inv poll fun _ => True)
    (hadvance : Keeps inv advance fun _ => True) (ends : TokenKind → Bool)
    (hm : KeepsAll inv p post) : KeepsAll inv (membersUntil ends p) fun ms => ∀ m ∈ ms, post m := by
  have hkind : KeepsAll inv (liftM currentKind) fun _ => True :=
    .lift fun _ _ hs => ⟨trivial, hs⟩
  refine .bind (.loop (fun ms => ∀ m ∈ ms, post m) (by simp) fun ms hms => ?_)
    fun ms hms => .pure fun m h => hms m (List.mem_reverse.mp h)
  refine .bind hkind fun _ _ => .ite (.pure hms) ?_
  refine .bind hpoll fun _ _ => .bind .get fun _ _ => .bind hm fun m h => ?_
  have hcons : ∀ x ∈ m :: ms, post x := List.forall_mem_cons.mpr ⟨h, hms⟩
  exact .bind .get fun _ _ => .ite (.bind (.lift hadvance) fun _ _ => .pure hcons) (.pure hcons)

theorem nestedDeclaration [Blind inv] (hg : Keeps inv refuse fun _ => True) {refused : P α}
    (hr : Keeps inv refused post) (hp : KeepsAll inv p post) :
    KeepsAll inv (nestedDeclaration refused p) post := by
  refine Keeps.nested hg (hr.map fun a ha b h => ?_) hp
  cases h
  exact ha

theorem any (p : Cancellable α) : YieldsAll p fun _ => True :=
  (Keeps.any p.run).imp fun _ _ _ _ => trivial

/-- A step whose result does not matter. -/
theorem next {q : Cancellable β} {f : β → Cancellable α} (h : ∀ b, YieldsAll (f b) post) :
    YieldsAll (q >>= f) post :=
  (any q).bind fun b _ => h b

end KeepsAll

theorem yields_membersUntil {α : Type} (ends : TokenKind → Bool) {member : Cancellable α}
    {post : α → Prop} (hm : YieldsAll member post) :
    YieldsAll (membersUntil ends member) fun ms => ∀ m ∈ ms, post m :=
  .membersUntil (KeepsAll.any _) (Keeps.any _) ends hm

theorem yields_nestedDeclaration {α : Type} {refused : P α} {body : Cancellable α}
    {post : α → Prop} (hr : Yields refused post) (hb : YieldsAll body post) :
    YieldsAll (nestedDeclaration refused body) post :=
  .nestedDeclaration (Keeps.any _) hr hb

end CSharpFront.Parser
