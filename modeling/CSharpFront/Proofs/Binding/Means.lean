import CSharpFront.Binding.Resolution
import CSharpFront.Proofs.Types.Spelled
/-!
Syntax that means a type. Where the type is listed together with all that is within it, the syntax
is resolved to it whatever the names of a text mean, and nothing is listed.
-/

namespace CSharpFront

namespace TypeSyntax

/-- Syntax that means a type in every listing that holds it. -/
def Means (type : TypeSyntax) (t : Ty) : Prop :=
  ∀ names, ∀ l : Listing, l.Sound → t ∈ l.types → type.resolve names l = (t, l)

/-- A type that is listed stays where it is. -/
theorem listed_of_mem {l : Listing} {t : Ty} (h : t ∈ l.types) : listed t l = (t, l) := by
  have hadd : l.add t = l := by
    unfold Listing.add
    split
    · rfl
    · rw [if_pos (List.contains_iff_mem.mpr h)]
  show (t, l.add t) = (t, l)
  rw [hadd]

theorem means_predefined (r : Range) (s : SpecialType) :
    (TypeSyntax.predefined r s).Means (.special s) := by
  intro names l _ _
  rw [resolve]
  rfl

/-- What the parts of a type mean is listed where the type is. -/
theorem Means.part {type : TypeSyntax} {s t : Ty} (h : type.Means s) (hs : s ∈ t.parts)
    (names : NamedTypes) {l : Listing} (hl : l.Sound) (ht : t ∈ l.types) :
    type.resolve names l = (s, l) :=
  h names l hl (hl.part_mem ht hs)

theorem means_nullable {type : TypeSyntax} {s : SpecialType} (h : type.Means (.special s))
    (hs : s.isValueType = true) (r : Range) :
    (TypeSyntax.nullable r type).Means (.nullable (.special s)) := by
  intro names l hl ht
  have hnull : (Ty.special s).toNullable = .nullable (.special s) := by
    simp [Ty.toNullable, Ty.isError, Ty.isNullable, Ty.underlying?, Ty.isValueType, hs]
  rw [resolve]
  show listed (type.resolve names l).1.toNullable (type.resolve names l).2 = _
  rw [h.part (List.mem_singleton_self _) names hl ht, hnull]
  exact listed_of_mem ht

theorem means_array {type : TypeSyntax} {t : Ty} (h : type.Means t) (ht : t.isError = false)
    {rank : Nat} (hrank : 1 ≤ rank) (r : Range) :
    (TypeSyntax.array r type rank).Means (.array t rank) := by
  intro names l hl hmem
  have harray : t.toArray rank = .array t rank := by
    simp [Ty.toArray, ht, Nat.max_eq_left hrank]
  rw [resolve]
  show listed ((type.resolve names l).1.toArray rank) (type.resolve names l).2 = _
  rw [h.part (List.mem_singleton_self _) names hl hmem, harray]
  exact listed_of_mem hmem

theorem bind_apply {α β : Type} (m : StateM Listing α) (f : α → StateM Listing β) (l : Listing) :
    (m >>= f) l = f (m l).1 (m l).2 := rfl

/-- Type arguments that mean listed types. -/
theorem resolveAll_means {types : List TypeSyntax} {ts : List Ty}
    (h : List.Forall₂ Means types ts) (hts : ∀ t ∈ ts, t.isError = false) (names : NamedTypes)
    {l : Listing} (hl : l.Sound) (hmem : ∀ t ∈ ts, t ∈ l.types) :
    resolveAll names types l = (some ts, l) := by
  induction h with
  | nil => rfl
  | @cons type t types ts htype _ ih =>
    obtain ⟨ht, hts⟩ := List.forall_mem_cons.mp hts
    obtain ⟨hmem, hmems⟩ := List.forall_mem_cons.mp hmem
    have hfirst : type.resolve names l = (t, l) := htype names l hl hmem
    have hrest : resolveAll names types l = (some ts, l) := ih hts hmems
    rw [resolveAll, bind_apply, hfirst]
    simp only [ht, Bool.false_eq_true, if_false]
    rw [bind_apply, hrest]
    rfl

theorem means_generic {g : Generic} {ts : List Ty} {t : Ty} (hg : Ty.ofGeneric? g ts = some t)
    (harity : ts.length = g.arity) (hts : ∀ s ∈ ts, s.isError = false) {types : List TypeSyntax}
    (h : List.Forall₂ Means types ts) {i : Identifier} (hi : i.text = g.simpleName) (r : Range) :
    (TypeSyntax.generic r i types).Means t := by
  intro names l hl ht
  have hparts := Ty.parts_of_generic? (Ty.ofGeneric?_eq_some_iff.mp hg)
  have harguments : resolveAll names types l = (some ts, l) :=
    resolveAll_means h hts names hl fun s hs => hl.part_mem ht (hparts ▸ hs)
  have hname : Ty.ofGenericName i.text ts = t := by
    rw [Ty.ofGenericName, hi, harity, g.ofName?_simpleName, Option.bind_some, hg, Option.getD_some]
  rw [resolve, bind_apply, harguments, ← hname]
  exact listed_of_mem (hname.symm ▸ ht)

/-- A dotted name that ends in type arguments means what its last part means. -/
theorem means_qualified {i : Identifier} {types : List TypeSyntax} {t : Ty} {r : Range}
    (h : (TypeSyntax.generic r i types).Means t) (s : Range) (left : TypeSyntax) :
    (TypeSyntax.qualified s left (.generic r i types)).Means t := by
  intro names l hl ht
  rw [resolve]
  exact h names l hl ht

end TypeSyntax

end CSharpFront
