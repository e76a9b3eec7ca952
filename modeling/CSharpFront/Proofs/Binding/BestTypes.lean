import CSharpFront.Compilation
import CSharpFront.Proofs.Binding.Alike
import CSharpFront.Proofs.Binding.Listing
import Mathlib.Data.List.Permutation
import CSharpFront.Proofs.Types.Widening
/-!
The type of an array that is made of its elements alone. It is the array of the first element type
to which all elements convert by themselves. Main statement: the order of the elements matters
exactly where there are two such types, which takes an element that could not be bound or an
operator that leads from the one to the other.
-/

namespace CSharpFront

/-! ### Best types -/

namespace Ty

variable {declared : List DeclaredConversion} {ts us : List Ty} {t u : Ty}

/-- A type among those of the elements to which each of them converts by itself. -/
structure IsBest (declared : List DeclaredConversion) (ts : List Ty) (t : Ty) : Prop where
  mem : t ∈ ts
  ne_null : t ≠ .null
  converts : ∀ s ∈ ts, (s.conversion declared t).isImplicit = true

namespace IsBest

/-- It matters only which types there are. -/
theorem congr (h : ∀ s, s ∈ ts ↔ s ∈ us) (hbest : IsBest declared ts t) : IsBest declared us t :=
  ⟨(h t).mp hbest.mem, hbest.ne_null, fun s hs => hbest.converts s ((h s).mpr hs)⟩

/-- Best types that differ are told apart by nothing that the language itself gives. -/
theorem eq_error_or_operator (ht : IsBest declared ts t) (hu : IsBest declared ts u)
    (hw : ∀ s ∈ ts, s.WellBuilt) (hne : t ≠ u) :
    t = .error ∨ u = .error ∨ t.conversion declared u = .implicitDeclared ∨
      u.conversion declared t = .implicitDeclared := by
  have herror : ∀ s ∈ ts, s.isError = true → s = .error := by
    intro s hs he
    have hs := hw s hs
    cases s <;> simp_all [isError, WellBuilt]
  have hstandard : ∀ s v : Ty, (s.conversion declared v).isImplicit = true →
      s.conversion declared v ≠ .implicitDeclared → (s.standardConversion v).isImplicit = true := by
    intro s v himplicit hdeclared
    unfold conversion at himplicit hdeclared
    grind [Conversion.isImplicit]
  refine Classical.byContradiction fun hother => ?_
  simp only [not_or] at hother
  obtain ⟨hte, hue, htu, hut⟩ := hother
  have hte : t.isError = false := by simpa using mt (herror t ht.mem) hte
  have hue : u.isError = false := by simpa using mt (herror u hu.mem) hue
  have hto := hstandard t u (hu.converts t ht.mem) htu
  have hback := hstandard u t (ht.converts u hu.mem) hut
  have hwt := hw t ht.mem
  have hwu := hw u hu.mem
  exact hne (((widens_iff hwt hwu hte hue).mp hto).antisymm ((widens_iff hwu hwt hue hte).mp hback))

end IsBest

theorem isBest_of_best? (h : best? declared ts = some t) : IsBest declared ts t := by
  have hconverts := List.find?_some h
  simp only [Bool.and_eq_true, decide_eq_true_eq, List.all_eq_true] at hconverts
  exact ⟨best?_mem h, hconverts.1, hconverts.2⟩

theorem not_isBest_of_best? (h : best? declared ts = none) (t : Ty) : ¬ IsBest declared ts t := by
  intro hbest
  have hnone := List.find?_eq_none.mp h t hbest.mem
  simp only [Bool.and_eq_true, decide_eq_true_eq, List.all_eq_true] at hnone
  exact hnone ⟨hbest.ne_null, hbest.converts⟩

/-- A best type that comes first is taken. -/
theorem IsBest.best?_cons (h : IsBest declared (t :: ts) t) : best? declared (t :: ts) = some t := by
  refine List.find?_cons_of_pos ?_
  simp only [Bool.and_eq_true, decide_eq_true_eq, List.all_eq_true]
  exact ⟨h.ne_null, h.converts⟩

/-- The type of an array with elements of some types. -/
def arrayOf (declared : List DeclaredConversion) (ts : List Ty) : Ty :=
  match best? declared ts with
  | some t => t.toArray 1
  | none => .error

theorem arrayOf_cases (declared : List DeclaredConversion) (ts : List Ty) :
    (∃ t, IsBest declared ts t ∧ arrayOf declared ts = t.toArray 1) ∨
      (∀ t, ¬ IsBest declared ts t) ∧ arrayOf declared ts = .error := by
  unfold arrayOf
  cases h : best? declared ts with
  | some t => exact .inl ⟨t, isBest_of_best? h, rfl⟩
  | none => exact .inr ⟨not_isBest_of_best? h, rfl⟩

theorem toArray_injective {rank : Nat} (h : t.toArray rank = u.toArray rank) : t = u := by
  unfold toArray at h
  split at h <;> split at h
  · exact h
  · simp_all [isError]
  · next hu => simp [← h, isError] at hu
  · exact (Ty.array.inj h).1

/-- All orders of the types give one array exactly where one type at most is best. -/
theorem arrayOf_perm_iff :
    (∀ us, us.Perm ts → arrayOf declared us = arrayOf declared ts) ↔
      ∀ t u, IsBest declared ts t → IsBest declared ts u → t = u := by
  constructor
  · intro hall
    have hfirst : ∀ t, IsBest declared ts t → arrayOf declared ts = t.toArray 1 := by
      intro t ht
      have hperm : (t :: ts.erase t).Perm ts := (List.perm_cons_erase ht.mem).symm
      have hbest : IsBest declared (t :: ts.erase t) t := ht.congr fun s => hperm.mem_iff.symm
      rw [← hall _ hperm, arrayOf, hbest.best?_cons]
    intro t u ht hu
    exact toArray_injective ((hfirst t ht).symm.trans (hfirst u hu))
  · intro hunique us hperm
    rcases arrayOf_cases declared us with ⟨t, ht, hus⟩ | ⟨hnone, hus⟩
    · have ht := ht.congr fun s => hperm.mem_iff
      rcases arrayOf_cases declared ts with ⟨u, hu, hts⟩ | ⟨hnone, -⟩
      · rw [hus, hts, hunique t u ht hu]
      · exact absurd ht (hnone t)
    · rcases arrayOf_cases declared ts with ⟨u, hu, -⟩ | ⟨-, hts⟩
      · exact absurd (hu.congr fun s => hperm.mem_iff.symm) (hnone u)
      · rw [hus, hts]

end Ty

/-! ### Arrays -/

/-- A list that is mapped has its orders from the list. -/
theorem exists_perm_of_perm_map {α β : Type} {f : α → β} {as : List α} {bs : List β}
    (h : bs.Perm (as.map f)) : ∃ as' : List α, as'.Perm as ∧ bs = as'.map f := by
  rw [← List.mem_permutations, ← List.map_permutations] at h
  obtain ⟨as', hperm, rfl⟩ := List.mem_map.mp h
  exact ⟨as', List.mem_permutations.mp hperm, rfl⟩

namespace Binding

variable {c : Context} {l : Listing}

theorem fst_implicitArray (c : Context) (expected? : Option Ty) (r braces : Range)
    (es : List Expr) (s : State) :
    (expression c expected? (.implicitArrayCreation r ⟨braces, es⟩) s).1 =
      .value (.arrayOf c.conversions (es.map c.typeOf)) := by
  have hrun : ∀ ts : List Ty, ∀ s : State, ((do
      match Ty.best? c.conversions ts with
      | some t => return .value (← list (t.toArray 1))
      | none => return .value .error : BindM Denotation) s).1 = .value (.arrayOf c.conversions ts) := by
    intro ts s
    unfold Ty.arrayOf
    cases Ty.best? c.conversions ts <;> rfl
  rw [← fst_expressions c es s]
  exact hrun _ _

/-- The type of an array that is made of its elements alone is, for every order of them, the array of
one of the best types, or the error type where no type is the best one. All orders give the same
array exactly where one type at most is the best one. Where two are, one of them is the error type
or a declared operator leads from one of them to the other. -/
theorem implicitArray_orders (hc : c.Listed l) (r braces : Range) (es : List Expr) :
    let Best := Ty.IsBest c.conversions (es.map c.typeOf)
    let arrayOf := fun es => c.typeOf (.implicitArrayCreation r ⟨braces, es⟩)
    (∀ es', es'.Perm es →
      (∀ expected? s, (expression c expected? (.implicitArrayCreation r ⟨braces, es'⟩) s).1 =
        .value (arrayOf es')) ∧
      ((∃ t, Best t ∧ arrayOf es' = t.toArray 1) ∨ (∀ t, ¬ Best t) ∧ arrayOf es' = .error)) ∧
    ((∀ es', es'.Perm es → arrayOf es' = arrayOf es) ↔ ∀ t u, Best t → Best u → t = u) ∧
    ∀ t u, Best t → Best u → t ≠ u →
      t = .error ∨ u = .error ∨ t.conversion c.conversions u = .implicitDeclared ∨
        u.conversion c.conversions t = .implicitDeclared := by
  intro Best arrayOf
  have harray : ∀ es, arrayOf es = .arrayOf c.conversions (es.map c.typeOf) := by
    intro es
    show Denotation.valueType _ = _
    rw [fst_implicitArray]
    rfl
  refine ⟨fun es' hperm => ⟨fun expected? s => ?_, ?_⟩, ?_, fun t u ht hu => ?_⟩
  · rw [harray, fst_implicitArray]
  · have hbest : ∀ t, Ty.IsBest c.conversions (es'.map c.typeOf) t ↔ Best t := by
      have hmem := fun t => (hperm.map c.typeOf).mem_iff (a := t)
      exact fun t => ⟨.congr hmem, .congr fun s => (hmem s).symm⟩
    simpa only [harray, hbest] using Ty.arrayOf_cases c.conversions (es'.map c.typeOf)
  · rw [← Ty.arrayOf_perm_iff]
    simp only [harray]
    constructor
    · intro hall us hus
      obtain ⟨es', hperm, rfl⟩ := exists_perm_of_perm_map hus
      exact hall es' hperm
    · exact fun hall es' hperm => hall _ (hperm.map _)
  · have hlisted := yields_expressions hc es (TypeSyntax.allAvoid_false _) { listing := l } .refl
    rw [fst_expressions] at hlisted
    have hsound := hlisted.1.sound hc.sound
    intro hne
    exact ht.eq_error_or_operator hu (fun s hs => hsound.wellBuilt s (hlisted.2 s hs)) hne

/-- Two variables of classes with operators that lead from each to the other. -/
theorem implicitArray_orders_mutual :
    let a : Identifier := { text := "a", range := .emptyAt 0 }
    let b : Identifier := { text := "b", range := .emptyAt 0 }
    let s : Ty := .named "A" false
    let t : Ty := .named "B" false
    let c : Context :=
      { names := [], members := [], conversions := [⟨s, t, true⟩, ⟨t, s, true⟩],
        scopes := (({} : ScopeChain).shadow "b" ⟨t, b.span⟩).shadow "a" ⟨s, a.span⟩ }
    c.Listed ((({} : Listing).add s).add t) ∧
      ¬ ∀ es, es.Perm [.identifier a, .identifier b] →
        c.typeOf (.implicitArrayCreation (.emptyAt 0) ⟨.emptyAt 0, es⟩) =
          c.typeOf (.implicitArrayCreation (.emptyAt 0)
            ⟨.emptyAt 0, [.identifier a, .identifier b]⟩) := by
  intro a b s t c
  let l : Listing := (({} : Listing).add s).add t
  have hlisted : c.Listed l := by
    have hgrows : Listing.Grows {} l :=
      (Listing.Offers.grows (.named "A" false)).trans (Listing.Offers.grows (.named "B" false))
    have hscopes : c.scopes.Listed l :=
      ScopeChain.Listed.shadow (.shadow (fun n v hv => by cases hv) "b" (by decide)) "a" (by decide)
    have hmembers : c.members.Listed l := by
      intro u n v hv
      rcases hv with hv | hv <;> cases hv
    have hnames : c.names.Listed l := by
      intro n u hu
      cases hu
    have hfit : c.names.Fit := by
      intro n u hu
      cases hu
    have howner : ∀ u, c.owner? = some u → u ∈ l.types := by
      intro u hu
      cases hu
    exact ⟨hgrows.sound Listing.sound_first, hnames, hfit, hmembers, hscopes, howner⟩
  refine ⟨hlisted, fun hall => ?_⟩
  have hbest := implicitArray_orders hlisted (.emptyAt 0) (.emptyAt 0) [.identifier a, .identifier b]
  have hs : Ty.IsBest c.conversions ([.identifier a, .identifier b].map c.typeOf) s :=
    ⟨by decide +kernel, by decide, by decide +kernel⟩
  have ht : Ty.IsBest c.conversions ([.identifier a, .identifier b].map c.typeOf) t :=
    ⟨by decide +kernel, by decide, by decide +kernel⟩
  exact absurd (hbest.2.1.mp hall s t hs ht) (by decide)

/-- The arrays of the same elements in one order and in the other are of different types, as the
complaints about them say. -/
theorem compileSource_twoBestTypes :
    (compileSource "class A { public static implicit operator B(A a) { } }
      class B { public static implicit operator A(B b) { } }
      class C { void M(A a, B b) { bool x = new[] { a, b }; bool y = new[] { b, a }; } }").map
      (fun d => (d.message, d.arguments)) =
    [(.noImplicitConversion, ["A[]", "bool"]), (.noImplicitConversion, ["B[]", "bool"])] := by
  rw [compileSource_ofList]
  decide +kernel

end Binding

end CSharpFront
