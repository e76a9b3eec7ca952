import CSharpFront.Compilation
import CSharpFront.Proofs.Binding.Listing
import CSharpFront.Proofs.Parser.PlacesDeclarations
/-!
Types that are built on `void` or on that of null, though no type syntax of a text says so.
Inference from the elements of an array does not look for `void`, inference from the results of a
query not for null, and inference from groups for neither. The library then makes arrays and lists of
what these hold.
-/

namespace CSharpFront.Binding

/-- Where no type syntax of a unit builds on `void`, hollow types come from inference alone. -/
theorem founded_bindUnit {u : CompilationUnit} (h : ∀ type ∈ u.typeNodes, type.buildsOnVoid = false)
    (diagnostics : Array Diagnostic) (polls : Polls) :
    (bindUnit u diagnostics polls).2.2.listing.Founded := by
  have havoid : TypeSyntax.AllAvoid True (Member.allTypeNodes u.members) :=
    fun type ht _ => h type (List.mem_append_right _ ht)
  exact (gains_bindUnit u havoid diagnostics polls).founded trivial Listing.founded_first

/-- In every text whose type syntax does not build on `void`, wherever binding ends, a hollow type is
an array of one dimension, a list, a sequence of nulls or a grouping, and never a nullable type. There
is none unless an inference came upon one: upon an array of `void`, a sequence of nulls or a grouping
of one of the two. -/
theorem bindUnit_hollow (text : String) (maxDepth : Nat) (polls : Polls) :
    ∃ u parsed,
      Parser.parseUnit (scan text).1 maxDepth (scan text).2 none = (.ok u, parsed) ∧
      ((∀ type ∈ u.typeNodes, type.buildsOnVoid = false) →
        let l := (bindUnit u parsed.diagnostics polls).2.2.listing
        (∀ t ∈ l.types, t.isHollow = true → t.isMisbuilt = true) ∧
        ((∃ t ∈ l.types, t.isHollow = true) ↔ ∃ t ∈ l.types, t.isMisinferred = true)) := by
  obtain ⟨u, parsed, hparse⟩ := Parser.exists_parseUnit_eq (scan text).1 maxDepth (scan text).2
  refine ⟨u, parsed, hparse, fun h => ?_⟩
  have hfounded := founded_bindUnit h parsed.diagnostics polls
  refine ⟨hfounded.misbuilt, hfounded.misinferred, fun ⟨t, ht, hmis⟩ => ?_⟩
  exact ⟨t, ht, Ty.isHollow_of_isMisinferred hmis⟩

/-- Whether the type syntax of a text builds on `void`, and the types that come up in it. -/
def surveyed (text : String) : Option (Bool × List Ty) :=
  let (result, parsed) := Parser.parseUnit (scan text).1 maxParseDepth (scan text).2 none
  result.toOption.map fun u =>
    (u.typeNodes.any (·.buildsOnVoid), (bindUnit u parsed.diagnostics none).2.2.listing.types)

theorem surveyed_ofList (cs : List Char) :
    surveyed (String.ofList cs) =
      (let scanned := Scanner.run #[] #[] ⟨0, cs⟩
      match Parser.parseUnit scanned.1 maxParseDepth scanned.2 none with
      | (.error _, _) => none
      | (.ok u, parsed) =>
        some (u.typeNodes.any (·.buildsOnVoid),
          (bindUnit u parsed.diagnostics none).2.2.listing.types)) := by
  unfold surveyed
  rw [scan_ofList]
  grind [Except.toOption]

/-- The list of the elements of an array. -/
theorem bindUnit_hollow_list :
    let text := "class C { void M() { var a = new[] { 1 }.ToList(); } }"
    ∃ u parsed, Parser.parseUnit (scan text).1 maxParseDepth (scan text).2 none = (.ok u, parsed) ∧
      (∀ type ∈ u.typeNodes, type.buildsOnVoid = false) ∧
      let l := (bindUnit u parsed.diagnostics none).2.2.listing
      .list .int ∈ l.types ∧ ∀ t ∈ l.types, t.isHollow = false := by
  intro text
  obtain ⟨u, parsed, hparse, hhollow⟩ := bindUnit_hollow text maxParseDepth none
  have hsurvey : (surveyed text).map
      (fun x => (x.1, x.2.contains (.list .int), x.2.any Ty.isMisinferred)) =
        some (false, true, false) := by
    rw [surveyed_ofList]
    decide +kernel
  simp only [surveyed, hparse, Except.toOption, Option.map_some, Option.some.injEq,
    Prod.mk.injEq, List.any_eq_false, List.contains_iff_mem] at hsurvey
  obtain ⟨htypes, hlist, hnone⟩ := hsurvey
  have htypes : ∀ type ∈ u.typeNodes, type.buildsOnVoid = false := by simpa using htypes
  refine ⟨u, parsed, hparse, htypes, hlist, fun t ht => Bool.eq_false_iff.mpr fun hollow => ?_⟩
  obtain ⟨s, hs, hmis⟩ := (hhollow htypes).2.mp ⟨t, ht, hollow⟩
  exact hnone s hs hmis

/-- The array of what a method yields that returns nothing. -/
theorem surveyed_voidArray :
    (surveyed "class C { void F() { } void M() { var x = new[] { F() }; } }").map
      (fun (buildsOnVoid, types) => (buildsOnVoid, types.filter Ty.isHollow)) =
        some (false, [.array .void 1]) := by
  rw [surveyed_ofList]
  decide +kernel

/-- Results that are null, groups of such results, and what the library makes of both. -/
example :
    (surveyed "class C { void M(int[] a) { var n = from i in a select null;
      var l = n.ToList(); var g = from i in n group i by i; } }").map
      (fun (buildsOnVoid, types) => (buildsOnVoid, types.filter Ty.isHollow)) =
        some (false, [.sequence .null, .list .null, .grouping .null .null]) := by
  rw [surveyed_ofList]
  decide +kernel

end CSharpFront.Binding
