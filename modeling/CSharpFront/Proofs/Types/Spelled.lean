import CSharpFront.Proofs.Syntax.Printing
import CSharpFront.Proofs.Types.Listing
/-!
Types that are built of predefined types, and the words in which they are displayed. The words touch
each other; only after the commas between type arguments there are blanks.
-/

namespace CSharpFront

open Lexeme (mark spelling)

/-! ### Generic names -/

/-- The word of a name. -/
def nameWord (name : String) : Lexeme := ⟨.identifier, name.toList, {}, []⟩

namespace Generic

/-- The namespaces in `System` that one goes through to a generic type. -/
def path : Generic → List String
  | .sequence | .list => ["Collections", "Generic"]
  | .grouping => ["Linq"]

/-- The words of some names, each after a dot. -/
def dotted (names : List String) : List Lexeme := names.flatMap fun n => [mark .dot, nameWord n]

/-- The words of the full name. -/
def words (g : Generic) : List Lexeme :=
  nameWord "System" :: (dotted g.path ++ [mark .dot, nameWord g.simpleName])

theorem ofName?_simpleName (g : Generic) : ofName? g.simpleName g.arity = some g := by
  cases g <;> decide

end Generic

namespace Ty

/-! ### Types without names -/

/-- Whether a type is built of predefined types only. -/
def ofPredefined : Ty → Bool
  | .special _ => true
  | .nullable t | .array t _ | .sequence t | .list t => t.ofPredefined
  | .grouping k t => k.ofPredefined && t.ofPredefined
  | .error | .unlisted _ | .null | .named _ _ => false

/-- How many levels nest in each other where a type is read. Type arguments stand one level further
in. -/
def levels : Ty → Nat
  | .nullable t | .array t _ => t.levels
  | .sequence t | .list t => t.levels + 1
  | .grouping k t => max k.levels t.levels + 1
  | .error | .unlisted _ | .null | .special _ | .named _ _ => 1

theorem levels_pos (t : Ty) : 0 < t.levels := by
  induction t with
  | nullable t ih => exact ih
  | array t rank ih => exact ih
  | sequence | list | grouping => exact Nat.succ_pos _
  | error | unlisted | null | special | named => exact Nat.one_pos

/-- The types that are built of predefined types: null is added to nothing but these. -/
inductive Spelled : Ty → Prop
  | special (s : SpecialType) : Spelled (.special s)
  | nullable {s : SpecialType} (hs : s.isValueType = true) : Spelled (.nullable (.special s))
  | array {t : Ty} {rank : Nat} (hrank : 1 ≤ rank) (h : Spelled t) : Spelled (.array t rank)
  | generic {g : Generic} {ts : List Ty} {t : Ty} (hg : ofGeneric? g ts = some t)
      (hts : ∀ s ∈ ts, Spelled s) : Spelled t

theorem spelled_of_wellBuilt {t : Ty} (h : t.WellBuilt) (hp : t.ofPredefined = true) :
    t.Spelled := by
  induction t with
  | special s => exact .special s
  | nullable t ih =>
    obtain ⟨hvalue, hnullable, ht⟩ := h
    cases t with
    | special s => exact .nullable hvalue
    | nullable t => cases hnullable
    | error | unlisted | null | named => cases hp
    | array | sequence | list | grouping => cases hvalue
  | array t rank ih => exact .array h.2.1 (ih h.2.2 hp)
  | sequence t ih => exact .generic (g := .sequence) rfl (List.forall_mem_singleton.mpr (ih h.2 hp))
  | list t ih => exact .generic (g := .list) rfl (List.forall_mem_singleton.mpr (ih h.2 hp))
  | grouping k t ihk iht =>
    obtain ⟨hk, ht⟩ := Bool.and_eq_true_iff.mp hp
    have hboth : ∀ s ∈ [k, t], s.Spelled :=
      List.forall_mem_cons.mpr ⟨ihk h.2.2.1 hk, List.forall_mem_singleton.mpr (iht h.2.2.2 ht)⟩
    exact .generic (g := .grouping) rfl hboth
  | error | unlisted | null | named => cases hp

theorem Spelled.isError_eq {t : Ty} (h : t.Spelled) : t.isError = false := by
  cases h with
  | special | nullable | array => rfl
  | generic hg =>
    cases t <;> first | rfl | cases ofGeneric?_eq_some_iff.mp hg

/-! ### Their words -/

/-- The words of the brackets of an array. -/
def rankWords (rank : Nat) : List Lexeme :=
  mark .openBracket :: (List.replicate (rank - 1) (mark .comma) ++ [mark .closeBracket])

/-- The words in which a type is displayed; types that are not built of predefined types have none
here. -/
def words : Ty → List Lexeme
  | .special s => [spelling (.keyword s.keyword)]
  | .nullable t => t.words ++ [mark .question]
  | .array t rank => t.words ++ rankWords rank
  | .sequence t => Generic.sequence.words ++ mark .lessThan :: (t.words ++ [mark .greaterThan])
  | .list t => Generic.list.words ++ mark .lessThan :: (t.words ++ [mark .greaterThan])
  | .grouping k t =>
    Generic.grouping.words ++
      mark .lessThan :: (k.words ++ mark .comma :: (t.words ++ [mark .greaterThan]))
  | .error | .unlisted _ | .null | .named _ _ => []

/-- The words of type arguments after the first, each with a comma before it. -/
def moreWords (ts : List Ty) : List Lexeme := ts.flatMap fun t => mark .comma :: t.words

/-- The display of type arguments after the first. -/
def moreText (ts : List Ty) : List Char := ts.flatMap fun t => ',' :: ' ' :: t.display.toList

theorem toList_display_array (t : Ty) (rank : Nat) : (Ty.array t rank).display.toList =
    t.display.toList ++ '[' :: (List.replicate (rank - 1) ',' ++ [']']) := by
  have hcommas (n : Nat) : ("".pushn ',' n).toList = List.replicate n ',' := by
    induction n with
    | zero => rfl
    | succ n ih =>
      have hpush : ("".pushn ',' (n + 1)).toList = ("".pushn ',' n).toList ++ [','] :=
        String.toList_push ','
      rw [hpush, ih, List.replicate_succ']
  rw [display, String.toList_append, String.toList_append, String.toList_append, hcommas,
    List.append_assoc, List.append_assoc]
  rfl

/-- A generic type with its arguments, of which there is one at least. -/
structure IsGeneric (g : Generic) (e : Ty) (es : List Ty) (t : Ty) : Prop where
  arity : (e :: es).length = g.arity
  words : t.words = g.words ++ mark .lessThan :: (e.words ++ (moreWords es ++ [mark .greaterThan]))
  display : t.display.toList =
    g.fullName.toList ++ '<' :: (e.display.toList ++ (moreText es ++ ['>']))
  levels : ∀ s ∈ e :: es, s.levels < t.levels
  parts : t.parts = e :: es

theorem exists_isGeneric {g : Generic} {ts : List Ty} {t : Ty} (h : ofGeneric? g ts = some t) :
    ∃ e es, ts = e :: es ∧ IsGeneric g e es t := by
  have hg := ofGeneric?_eq_some_iff.mp h
  have hparts := parts_of_generic? hg
  cases t with
  | sequence e | list e =>
    obtain ⟨rfl, rfl⟩ := Prod.mk.inj (Option.some.inj hg)
    refine ⟨e, [], rfl, rfl, by simp [Ty.words, moreWords], by simp [Ty.display, moreText], ?_, rfl⟩
    exact List.forall_mem_singleton.mpr (Nat.lt_succ_self _)
  | grouping k e =>
    obtain ⟨rfl, rfl⟩ := Prod.mk.inj (Option.some.inj hg)
    refine ⟨k, [e], rfl, rfl, by simp [Ty.words, moreWords], by simp [Ty.display, moreText], ?_,
      rfl⟩
    refine List.forall_mem_cons.mpr ⟨?_, List.forall_mem_singleton.mpr ?_⟩
    · exact Nat.lt_succ_of_le (Nat.le_max_left _ _)
    · exact Nat.lt_succ_of_le (Nat.le_max_right _ _)
  | _ => cases hg

end Ty

end CSharpFront
