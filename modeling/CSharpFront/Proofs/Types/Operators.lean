import CSharpFront.Proofs.Binding.Alike
/-!
Conversion operators as a set. Each operator gives a conversion of its own between two types, and
where several are declared the conversion is the strongest of theirs and the standard one. Main
statement: neither the order nor the repetition of operators matters, and one more operator never
makes a conversion weaker.
-/

namespace CSharpFront

/-! ### The stronger of two conversions -/

namespace Conversion

/-- Conversions in order. The stronger one asks less of a text. -/
def strength : Conversion → Nat
  | .none => 0
  | .explicitOnly => 1
  | .implicitDeclared => 2
  | .implicitStandard => 3
  | .identity => 4

def stronger (c d : Conversion) : Conversion := if c.strength < d.strength then d else c

theorem stronger_assoc (c d e : Conversion) :
    (c.stronger d).stronger e = c.stronger (d.stronger e) := by
  cases c <;> cases d <;> cases e <;> rfl

/-- What operators give, by whether one of them applies without a cast and whether one applies. -/
def ofOperators (withoutCast withCast : Bool) : Conversion :=
  if withoutCast then .implicitDeclared else if withCast then .explicitOnly else .none

theorem ofOperators_or (i a i' a' : Bool) (h : i' = true → a' = true) :
    ofOperators (i || i') (a || a') = (ofOperators i a).stronger (ofOperators i' a') := by
  revert i a i' a'
  decide

/-- What a conversion can become where one more operator is declared. -/
def outcomes : Conversion → List Conversion
  | .identity => [.identity]
  | .implicitStandard => [.implicitStandard]
  | .implicitDeclared => [.implicitDeclared]
  | .explicitOnly => [.explicitOnly, .implicitDeclared]
  | .none => [.none, .explicitOnly, .implicitDeclared]

theorem stronger_ofOperators_mem_outcomes (c : Conversion) (i a : Bool) :
    c.stronger (ofOperators i a) ∈ c.outcomes := by
  cases c <;> revert i a <;> decide

end Conversion

/-! ### What one operator gives -/

namespace DeclaredConversion

/-- The conversion that the operator alone gives. -/
def conversion (c : DeclaredConversion) (s t : Ty) : Conversion :=
  .ofOperators (c.appliesImplicitly s t) (c.applies s t)

variable {c : DeclaredConversion} {s t : Ty}

/-- An operator that needs no cast works with one. -/
theorem applies_of_appliesImplicitly (h : c.appliesImplicitly s t = true) :
    c.applies s t = true := by
  have hpossible : ∀ d : Conversion, d.isImplicit = true → d.isPossible = true := by
    intro d
    cases d <;> decide
  simp only [appliesImplicitly, Bool.and_eq_true] at h
  simp only [applies, Bool.and_eq_true]
  exact ⟨hpossible _ h.1.2, hpossible _ h.2⟩

end DeclaredConversion

/-! ### What several operators give -/

namespace Ty

variable (declared : List DeclaredConversion) (s t : Ty)

/-- The operators asked one after another. The first one that needs no cast ends the search, and one
that does is kept as the best so far. -/
def searchOperators (s t : Ty) (best : Conversion) : List DeclaredConversion → Conversion
  | [] => best
  | c :: rest =>
    if !c.applies s t then s.searchOperators t best rest
    else if c.appliesImplicitly s t then .implicitDeclared
    else s.searchOperators t .explicitOnly rest

theorem searchOperators_eq (best : Conversion) :
    s.searchOperators t best declared =
      if declared.any (·.appliesImplicitly s t) then .implicitDeclared
      else if declared.any (·.applies s t) then .explicitOnly
      else best := by
  induction declared generalizing best with
  | nil => rfl
  | cons c rest ih =>
    by_cases happlies : c.applies s t
    · by_cases himplicit : c.appliesImplicitly s t
      · simp [searchOperators, happlies, himplicit]
      · simp [searchOperators, happlies, himplicit, ih]
    · have himplicit : ¬ c.appliesImplicitly s t = true :=
        fun h => happlies (DeclaredConversion.applies_of_appliesImplicitly h)
      simp [searchOperators, happlies, himplicit, ih]

/-- Operators that are asked later add what they give, wherever the search before them ended. -/
theorem searchOperators_concat (c : DeclaredConversion) :
    s.searchOperators t .none (declared ++ [c]) =
      (s.searchOperators t .none declared).stronger (c.conversion s t) := by
  simp only [searchOperators_eq, List.any_append, List.any_cons, List.any_nil, Bool.or_false]
  exact Conversion.ofOperators_or _ _ _ _ DeclaredConversion.applies_of_appliesImplicitly

/-- The conversion is the stronger one of the standard conversion and what the operators give. -/
theorem conversion_eq_stronger :
    s.conversion declared t =
      (s.standardConversion t).stronger (s.searchOperators t .none declared) := by
  rw [searchOperators_eq, conversion]
  cases s.standardConversion t <;> cases declared.any (·.appliesImplicitly s t) <;>
    cases declared.any (·.applies s t) <;> rfl

theorem conversion_concat (c : DeclaredConversion) :
    s.conversion (declared ++ [c]) t = (s.conversion declared t).stronger (c.conversion s t) := by
  rw [conversion_eq_stronger, searchOperators_concat, ← Conversion.stronger_assoc,
    ← conversion_eq_stronger]

end Ty

/-! ### Tables -/

namespace Universe

/-- The operators of a table are a set. Tables with the same ones give the same conversions, whatever
their order and however often each is declared. One more never makes a conversion weaker. -/
theorem conversion_operators (u : Universe) (s t : Ty) :
    (∀ v : Universe, (∀ c, c ∈ v.conversions ↔ c ∈ u.conversions) →
      v.conversion s t = u.conversion s t) ∧
    ∀ c, (u.declareConversion c).conversion s t ∈ (u.conversion s t).outcomes := by
  constructor
  · intro v hv
    exact Ty.conversion_congr hv s t
  · intro c
    have hadded : (u.declareConversion c).conversion s t =
        (u.conversion s t).stronger (c.conversion s t) :=
      Ty.conversion_concat u.conversions s t c
    rw [hadded]
    exact Conversion.stronger_ofOperators_mem_outcomes _ _ _

/-- One operator that needs a cast and one that needs none, in one order and in the other, where the
second is declared twice. -/
theorem conversion_operators_repeated :
    let cast : DeclaredConversion := ⟨.named "Matrix" false, .bool, false⟩
    let implicit : DeclaredConversion := ⟨.named "Matrix" false, .bool, true⟩
    let u : Universe := { conversions := [cast, implicit] }
    let v : Universe := { conversions := [implicit, cast, implicit] }
    (∀ c, c ∈ v.conversions ↔ c ∈ u.conversions) ∧
      v.conversion (.named "Matrix" false) .bool = u.conversion (.named "Matrix" false) .bool ∧
      u.conversion (.named "Matrix" false) .bool = .implicitDeclared := by
  intro cast implicit u v
  have hsame : ∀ c, c ∈ v.conversions ↔ c ∈ u.conversions := by
    intro c
    simp only [u, v, List.mem_cons, List.not_mem_nil, or_false]
    grind
  refine ⟨hsame, (conversion_operators u _ _).1 v hsame, ?_⟩
  simp [conversion, Ty.conversion, u, cast, implicit, DeclaredConversion.appliesImplicitly,
    Ty.standardConversion, Conversion.isImplicit, Ty.isError, Ty.isInterface]

end Universe

end CSharpFront
