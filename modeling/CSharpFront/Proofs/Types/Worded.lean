import CSharpFront.Binding.Operator
import CSharpFront.Binding.Library
import CSharpFront.Binding.Resolution
import CSharpFront.Proofs.Text.Characters
/-!
Types whose names are fit for a purpose. What is true of the names of the declared types, of plain
texts and of texts that are put together is true of how all types are displayed that are built of
them. Operators, members and conversions of types bring no other names in.
-/

namespace CSharpFront

/-- Texts that may be put together, among them those of plain characters. -/
structure Wording (ok : String → Prop) : Prop where
  append {s t : String} : ok s → ok t → ok (s ++ t)
  plain {s : String} : Text.isPlain s = true → ok s

/-- Of a text nothing may be asked. -/
theorem wording_any : Wording fun _ => True := ⟨fun _ _ => trivial, fun _ => trivial⟩

variable {ok : String → Prop}

namespace Wording

theorem pushn (w : Wording ok) {s : String} (h : ok s) (n : Nat) : ok (s.pushn ',' n) := by
  induction n with
  | zero => exact h
  | succ n ih =>
    have hpush : s.pushn ',' (n + 1) = s.pushn ',' n ++ "," := by
      rw [← String.toList_inj, String.toList_append]
      exact String.toList_push ','
    rw [hpush]
    exact w.append ih (w.plain (by decide))

theorem qualify (w : Wording ok) {container name : String} (hc : ok container) (hn : ok name) :
    ok (qualify container name) := by
  unfold CSharpFront.qualify
  split
  · exact hn
  · exact w.append (w.append hc (w.plain (by decide))) hn

end Wording

namespace Ty

/-- The declared types in a type have good names. -/
def Worded (ok : String → Prop) : Ty → Prop
  | .named name _ => ok name
  | .nullable t | .array t _ | .sequence t | .list t => t.Worded ok
  | .grouping k t => k.Worded ok ∧ t.Worded ok
  | .error | .unlisted _ | .null | .special _ => True

theorem worded_any (t : Ty) : t.Worded fun _ => True := by
  induction t with
  | error | unlisted | null | special | named => trivial
  | nullable t ih | array t rank ih | sequence t ih | list t ih => exact ih
  | grouping k t ihk iht => exact ⟨ihk, iht⟩

theorem ok_display (w : Wording ok) {t : Ty} (h : t.Worded ok) : ok t.display := by
  induction t with
  | error | null => exact w.plain (by decide)
  | unlisted place => exact w.plain (s := "?") (by decide)
  | special s => exact w.plain (by cases s <;> decide)
  | nullable t ih => exact w.append (ih h) (w.plain (by decide))
  | array t rank ih =>
    have hopen := w.append (ih h) (w.plain (s := "[") (by decide))
    exact w.append (w.append hopen (w.pushn (w.plain (by decide)) _)) (w.plain (by decide))
  | sequence t ih | list t ih =>
    exact w.append (w.append (w.append (w.plain (by decide)) (w.plain (by decide))) (ih h))
      (w.plain (by decide))
  | grouping k t ihk iht =>
    have hkey := w.append (w.append (w.plain (s := Generic.grouping.fullName) (by decide))
      (w.plain (s := "<") (by decide))) (ihk h.1)
    exact w.append (w.append (w.append hkey (w.plain (by decide))) (iht h.2)) (w.plain (by decide))
  | named name isStruct => exact h

variable {s t : Ty}

/-! ### Types that are made from others -/

theorem Worded.getD {t? : Option Ty} (h : ∀ t ∈ t?, t.Worded ok) :
    (t?.getD .error).Worded ok := by
  cases t? with
  | none => trivial
  | some t => exact h t rfl

theorem Worded.element? (h : t.Worded ok) : ∀ e ∈ t.element?, e.Worded ok := by
  intro e he
  unfold Ty.element? at he
  split at he
  · obtain rfl := Option.some.inj he
    exact h
  · obtain rfl := Option.some.inj he
    exact h
  · obtain rfl := Option.some.inj he
    exact h
  · obtain rfl := Option.some.inj he
    exact h.2
  · obtain rfl := Option.some.inj he
    trivial
  · cases he

theorem Worded.toNullable (h : t.Worded ok) : t.toNullable.Worded ok := by
  unfold Ty.toNullable
  split
  · exact h
  · exact h

theorem Worded.toArray (h : t.Worded ok) (rank : Nat) : (t.toArray rank).Worded ok := by
  unfold Ty.toArray
  split
  · exact h
  · exact h

theorem worded_arithmetic (s t : Ty) : (s.arithmetic t).Worded ok := by
  unfold Ty.arithmetic
  split
  · split
    · split <;> trivial
    · trivial
  · trivial

theorem Worded.coalesce (hs : s.Worded ok) : (s.coalesce t).Worded ok := by
  unfold Ty.coalesce
  split
  · trivial
  split
  · split
    · exact hs
    · exact hs
  · exact hs

theorem worded_bitwise (s t : Ty) : (s.bitwise t).Worded ok := by
  unfold Ty.bitwise
  split
  · split <;> trivial
  · exact worded_arithmetic s t

theorem Worded.ofBinary (hs : s.Worded ok) (operator : TokenKind) (t : Ty) :
    (Ty.ofBinary operator s t).Worded ok := by
  unfold Ty.ofBinary
  split
  · split
    all_goals
      first
      | trivial
      | exact hs.coalesce
      | exact worded_arithmetic _ _
      | exact worded_bitwise _ _
      | split <;> first | trivial | exact worded_arithmetic _ _
  · trivial

theorem Worded.ofUnary (ht : t.Worded ok) (operator : TokenKind) :
    (Ty.ofUnary operator t).Worded ok := by
  unfold Ty.ofUnary
  split
  · split
    · exact ht
    · trivial
  · exact ht
  · exact ht
  · split
    · trivial
    · exact worded_arithmetic t t
  · exact worded_arithmetic t t

theorem Worded.choice (hs : s.Worded ok) (ht : t.Worded ok) (declared : List DeclaredConversion) :
    (Ty.choice declared s t).Worded ok := by
  unfold Ty.choice
  split
  · exact hs
  split
  · trivial
  split
  · exact ht
  · exact hs
  · trivial

theorem worded_best? {declared : List DeclaredConversion} {ts : List Ty}
    (h : ∀ t ∈ ts, t.Worded ok) : ∀ t ∈ Ty.best? declared ts, t.Worded ok :=
  fun t ht => h t (List.mem_of_find?_eq_some ht)

theorem Worded.indexed (h : t.Worded ok) : t.indexed.Worded ok := by
  unfold Ty.indexed
  split
  · exact h
  · exact h
  · trivial
  · trivial

theorem Worded.libraryMethod (h : t.Worded ok) (name : String) :
    (t.libraryMethod name).Worded ok := by
  have hlist : ((t.element?.map Ty.list).getD .error).Worded ok := by
    refine .getD fun u hu => ?_
    obtain ⟨e, he, rfl⟩ := Option.map_eq_some_iff.mp hu
    exact h.element? e he
  have harray : ((t.element?.map fun e => Ty.toArray e 1).getD .error).Worded ok := by
    refine .getD fun u hu => ?_
    obtain ⟨e, he, rfl⟩ := Option.map_eq_some_iff.mp hu
    exact (h.element? e he).toArray 1
  unfold Ty.libraryMethod
  split
  all_goals
    first
    | trivial
    | exact .getD h.element?
    | exact hlist
    | exact harray
    | split <;> trivial

theorem worded_libraryProperty (t : Ty) (name : String) : (t.libraryProperty name).Worded ok := by
  unfold Ty.libraryProperty
  split <;> trivial

theorem worded_ofGenericName (name : String) {ts : List Ty} (h : ∀ t ∈ ts, t.Worded ok) :
    (Ty.ofGenericName name ts).Worded ok := by
  refine .getD fun t ht => ?_
  obtain ⟨g, -, hg⟩ := Option.bind_eq_some_iff.mp ht
  unfold Ty.ofGeneric? at hg
  split at hg
  next e =>
    obtain rfl := Option.some.inj hg
    exact h e List.mem_cons_self
  next e =>
    obtain rfl := Option.some.inj hg
    exact h e List.mem_cons_self
  next k e =>
    obtain rfl := Option.some.inj hg
    exact ⟨h k List.mem_cons_self, h e (List.mem_cons_of_mem _ List.mem_cons_self)⟩
  · cases hg

end Ty

/-! ### What names mean -/

/-- The types of the names have good names themselves. -/
def NamedTypes.Worded (ok : String → Prop) (ns : NamedTypes) : Prop :=
  ∀ name, ∀ t ∈ ns.find? name, t.Worded ok

def Members.Worded (ok : String → Prop) (ms : Members) : Prop :=
  ∀ owner name, (∀ t ∈ ms.field? owner name, t.Worded ok) ∧ ∀ t ∈ ms.method? owner name, t.Worded ok

namespace Denotation

def Worded (ok : String → Prop) : Denotation → Prop
  | .value t | .type t => t.Worded ok
  | .unknown => True

variable {d : Denotation}

theorem Worded.valueType (h : d.Worded ok) : d.valueType.Worded ok := by
  cases d with
  | value t => exact h
  | type | unknown => trivial

theorem Worded.member (h : d.Worded ok) {ms : Members} (hms : ms.Worded ok) (name : String)
    (isCall : Bool) : (d.member ms name isCall).Worded ok := by
  have hdeclared (t u : Ty)
      (hu : (if isCall then ms.method? t name else ms.field? t name) = some u) : u.Worded ok := by
    split at hu
    · exact (hms t name).2 u hu
    · exact (hms t name).1 u hu
  unfold Denotation.member
  dsimp only
  split
  · trivial
  · split
    next u hu => exact hdeclared _ u hu
    · split
      · exact h
      · trivial
  · split
    · trivial
    split
    next u hu => exact hdeclared _ u hu
    · split
      · exact Ty.Worded.libraryMethod h name
      · exact Ty.worded_libraryProperty _ name

end Denotation

end CSharpFront
