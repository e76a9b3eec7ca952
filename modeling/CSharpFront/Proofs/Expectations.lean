import CSharpFront.Diagnostic.Expectation
import CSharpFront.Proofs.Text.Positions
/-!
What the description of a diagnostic fixes. A description holds no offsets, only the text that the
diagnostic covers and the line and column where it starts. Positions grow with the boundaries of a
text and the covered text has the length of the span, so the two give the span back. Main statement:
a description is met by what agrees with the diagnostic, and by nothing else.
-/

namespace CSharpFront

/-- A walk comes to each position by one cut of the text only. -/
theorem Text.eq_of_walk_eq {here : LinePosition} {cs : List Char} {p q : Nat} (hp : Offset cs p)
    (hq : Offset cs q) (h : walk here cs p = walk here cs q) : p = q := by
  have hself (l : LinePosition) : l.before l = false := by simp [LinePosition.before]
  rcases Nat.lt_trichotomy p q with hlt | heq | hlt
  · have hbefore : (walk here cs p).before (walk here cs q) = true := before_walk hp hq hlt
    rw [h, hself] at hbefore
    cases hbefore
  · exact heq
  · have hbefore : (walk here cs q).before (walk here cs p) = true := before_walk hq hp hlt
    rw [h, hself] at hbefore
    cases hbefore

theorem LineMap.eq_of_positionOf_eq {text : String} {p q : Nat} (hp : Text.IsBoundary text p)
    (hq : Text.IsBoundary text q) (h : (ofText text).positionOf p = (ofText text).positionOf q) :
    p = q := by
  rw [positionOf_ofText_eq_walk, positionOf_ofText_eq_walk] at h
  exact Text.eq_of_walk_eq (Text.isBoundary_iff_offset.mp hp) (Text.isBoundary_iff_offset.mp hq) h

namespace Text

variable {text : String} {s t : Span}

/-! ### Slices fix their spans -/

theorem eq_append_of_dropBytes? {cs ds : List Char} {n : Nat} (h : dropBytes? cs n = some ds) :
    ∃ before, cs = before ++ ds ∧ byteCount before = n := by
  fun_induction dropBytes? cs n with
  | case1 cs => exact ⟨[], (Option.some.inj h).symm ▸ rfl, rfl⟩
  | case2 => cases h
  | case3 c cs n hle ih =>
    obtain ⟨before, rfl, hbefore⟩ := ih h
    exact ⟨c :: before, rfl, by rw [byteCount_cons, hbefore]; omega⟩
  | case4 => cases h

theorem eq_append_of_takeBytes? {cs ds : List Char} {n : Nat} (h : takeBytes? cs n = some ds) :
    ∃ after, cs = ds ++ after ∧ byteCount ds = n := by
  fun_induction takeBytes? cs n generalizing ds with
  | case1 cs => exact ⟨cs, (Option.some.inj h) ▸ rfl, (Option.some.inj h) ▸ rfl⟩
  | case2 => cases h
  | case3 c cs n hle ih =>
    obtain ⟨es, hes, rfl⟩ := Option.map_eq_some_iff.mp h
    obtain ⟨after, rfl, hafter⟩ := ih hes
    exact ⟨after, rfl, by rw [byteCount_cons, hafter]; omega⟩
  | case4 => cases h

/-- What has a slice lies between two boundaries, and the slice is as long as it is. -/
theorem on_of_slice?_eq_some {slice : String} (h : slice? text s = some slice) :
    s.On (IsBoundary text) ∧ slice.utf8ByteSize = s.length := by
  obtain ⟨inside, hinside, rfl⟩ := Option.map_eq_some_iff.mp h
  obtain ⟨rest, hrest, htake⟩ := Option.bind_eq_some_iff.mp hinside
  obtain ⟨before, htext, hbefore⟩ := eq_append_of_dropBytes? hrest
  obtain ⟨after, rfl, hlength⟩ := eq_append_of_takeBytes? htake
  have hstands : StandsAt inside text.toList s.start := ⟨before, after, htext, hbefore⟩
  have hrange := hstands.range_on
  rw [hlength] at hrange
  exact ⟨⟨hrange.start, hrange.stop⟩, by rw [← byteCount_eq_utf8ByteSize, hlength]⟩

/-- A span that has a slice is told by it and by the position of its start. -/
theorem eq_of_slice?_eq {slice : String} (hs : slice? text s = some slice)
    (ht : slice? text t = some slice)
    (hpos : (LineMap.ofText text).positionOf s.start = (LineMap.ofText text).positionOf t.start) :
    s = t := by
  obtain ⟨hon, hlength⟩ := on_of_slice?_eq_some hs
  obtain ⟨hon', hlength'⟩ := on_of_slice?_eq_some ht
  refine Span.ext ?_ (hlength.symm.trans hlength')
  exact LineMap.eq_of_positionOf_eq hon.start hon'.start hpos

end Text

/-! ### Descriptions -/

/-- What a description fixes: all of the diagnostic, but the severity only if it was changed. -/
structure Diagnostic.AsDescribed (d e : Diagnostic) : Prop where
  code : e.code = d.code
  span : e.span = d.span
  arguments : e.arguments = d.arguments
  severity : d.severity ≠ d.message.severity → e.severity = d.severity

namespace Expectation

variable {source : String} {d e : Diagnostic}

theorem isMet_iff (e : Expectation) (source : String) (d : Diagnostic) :
    e.isMet source d = true ↔ d.code = e.code ∧
      (∀ squiggle ∈ e.squiggle?, Text.slice? source d.span = some squiggle) ∧
      (∀ arguments ∈ e.arguments?, d.arguments = arguments) ∧
      (∀ location ∈ e.location?, (LineMap.ofText source).positionOf d.span.start = location) ∧
      ∀ severity ∈ e.severity?, d.severity = severity := by
  simp only [isMet, Bool.and_eq_true, Option.all_eq_true, beq_iff_eq, Option.mem_def, and_assoc]
  grind

theorem isMet_of_iff (hd : d.span.On (Text.IsBoundary source)) (e : Diagnostic) :
    (of source d).isMet source e = true ↔ d.AsDescribed e := by
  obtain ⟨slice, hslice⟩ := Option.isSome_iff_exists.mp (Text.isSome_slice? hd)
  have hseverity : (∀ s ∈ (of source d).severity?, e.severity = s) ↔
      (d.severity ≠ d.message.severity → e.severity = d.severity) := by
    simp only [of]
    split
    next h => simp [h]
    next h => simp [h]
  rw [isMet_iff, hseverity]
  simp only [of, hslice, Option.getD_some, Option.mem_def, Option.some.injEq, forall_eq']
  constructor
  · rintro ⟨hcode, hsquiggle, harguments, hlocation, hseverity⟩
    exact ⟨hcode, Text.eq_of_slice?_eq hsquiggle hslice hlocation, harguments, hseverity⟩
  · rintro ⟨hcode, hspan, harguments, hseverity⟩
    exact ⟨hcode, by rw [hspan, hslice], harguments, by rw [hspan], hseverity⟩

end Expectation

/-! ### Lists of descriptions -/

namespace Bag

variable {source : String}

theorem meets_iff (b : Bag) (source : String) (es : List Expectation) :
    b.meets source es = true ↔ List.Forall₂ (fun e d => e.isMet source d = true) es b := by
  have hzip : b.meets source es = true ↔
      List.Forall₂ (fun d e => e.isMet source d = true) b es := by
    rw [meets, List.forall₂_iff_zip, Bool.and_eq_true, beq_iff_eq, List.all_eq_true]
    exact and_congr_right fun _ => ⟨fun h d e hmem => h (d, e) hmem, fun h p hmem => h hmem⟩
  exact hzip.trans ⟨fun h => h.flip, fun h => h.flip⟩

/-- A list is accepted when it meets the expectations one by one. -/
theorem check_eq_ok_iff (b : Bag) (source : String) (es : List Expectation) :
    b.check source es = .ok () ↔ List.Forall₂ (fun e d => e.isMet source d = true) es b := by
  rw [← meets_iff, check]
  split
  next h => simp [h]
  next h => simp [h]

/-- Of diagnostics that lie within a text, descriptions are met by those that agree with them, one
by one. -/
theorem check_descriptions (source : String) (described : Bag)
    (h : ∀ d ∈ described, d.span.On (Text.IsBoundary source)) :
    (∀ d ∈ described, ∀ e, (Expectation.of source d).isMet source e = true ↔ d.AsDescribed e) ∧
      ∀ actual : Bag, actual.check source (described.map (Expectation.of source)) = .ok () ↔
        List.Forall₂ Diagnostic.AsDescribed described actual := by
  have hmet : ∀ d ∈ described, ∀ e,
      (Expectation.of source d).isMet source e = true ↔ d.AsDescribed e :=
    fun d hd e => Expectation.isMet_of_iff (h d hd) e
  refine ⟨hmet, fun actual => ?_⟩
  rw [check_eq_ok_iff, List.forall₂_map_left_iff, List.forall₂_iff_zip, List.forall₂_iff_zip]
  refine and_congr_right fun _ => ⟨fun hall d e hde => ?_, fun hall d e hde => ?_⟩
  · exact (hmet d (List.of_mem_zip hde).1 e).mp (hall hde)
  · exact (hmet d (List.of_mem_zip hde).1 e).mpr (hall hde)

/-- A text with a break of two characters and a letter of two bytes before the end of the span. -/
theorem check_descriptions_secondLine :
    let source := "x\r\né;"
    let described : Bag := [{ Diagnostic.of .unreachableCode ⟨3, 2⟩ with severity := .error }]
    (∀ d ∈ described, d.span.On (Text.IsBoundary source)) ∧
      described.check source (described.map (Expectation.of source)) = .ok () := by
  intro source described
  have hspan : ∀ d ∈ described, d.span.On (Text.IsBoundary source) := by
    intro d hd
    rw [List.mem_singleton.mp hd]
    have htext : source.toList = ['x', '\r', '\n', 'é', ';'] := by decide
    constructor <;> rw [Text.isBoundary_iff_offset, htext]
    · exact ⟨['x', '\r', '\n'], ⟨['é', ';'], rfl⟩, rfl⟩
    · exact ⟨['x', '\r', '\n', 'é'], ⟨[';'], rfl⟩, rfl⟩
  refine ⟨hspan, ((check_descriptions source described hspan).2 described).mpr ?_⟩
  exact .cons ⟨rfl, rfl, rfl, fun _ => rfl⟩ .nil

end Bag

end CSharpFront
