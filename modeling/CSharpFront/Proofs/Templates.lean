import CSharpFront.Diagnostic.Template
import CSharpFront.Proofs.Text.Characters
/-!
What filling a template comes to. A template is put together of segments: texts in which no brace
opens, and places with their numbers. Main statement: each place takes its argument as it is, one
without an argument stays as it is written, and so does all else.
-/

namespace CSharpFront.Template

variable {args : List String} {cs : List Char}

/-! ### Single steps -/

theorem mem_of_argument? {a : String} (h : argument? args cs = some a) : a ∈ args := by
  unfold argument? at h
  split at h
  · obtain ⟨n, -, hn⟩ := Option.bind_eq_some_iff.mp h
    exact List.mem_of_getElem? hn
  · cases h

/-- What is in neither the template nor an argument is not in the text. -/
theorem notMem_fillChars {c : Char} (hargs : ∀ a ∈ args, c ∉ a.toList) (cs : List Char)
    (hcs : c ∉ cs) : c ∉ fillChars args cs := by
  fun_induction fillChars args cs with
  | case1 => exact hcs
  | case2 cs a ha ih =>
    have hafter : c ∉ afterPlace cs := fun hmem =>
      hcs (List.mem_cons_of_mem _
        ((List.dropWhile_sublist _).mem (List.mem_of_mem_tail hmem)))
    simp [hargs a (mem_of_argument? ha), ih hafter]
  | case3 cs _ ih | case4 _ cs _ ih =>
    obtain ⟨hd, hcs⟩ := not_or.mp (mt List.mem_cons.mpr hcs)
    simp [hd, ih hcs]

theorem fillChars_append {cs : List Char} (h : '{' ∉ cs) (ds : List Char) :
    fillChars args (cs ++ ds) = cs ++ fillChars args ds := by
  induction cs with
  | nil => rfl
  | cons c cs ih =>
    obtain ⟨hc, hcs⟩ := not_or.mp (mt List.mem_cons.mpr h)
    rw [List.cons_append, fillChars, if_neg (Ne.symm hc), ih hcs, List.cons_append]

theorem fillChars_of_notMem {cs : List Char} (h : '{' ∉ cs) : fillChars args cs = cs := by
  have happend : fillChars args (cs ++ []) = cs ++ fillChars args [] := fillChars_append h []
  rwa [List.append_nil, fillChars, List.append_nil] at happend

/-! ### Segments -/

/-- A piece of a template. -/
inductive Segment
  /-- Text in which no brace opens. -/
  | literal (text : String) (h : '{' ∉ text.toList)
  /-- A place, by the decimal digits of its number. -/
  | place (digits : List Char) (hne : digits ≠ []) (h : digits.all Char.isDigit = true)

namespace Segment

def written : Segment → String
  | literal text _ => text
  | place digits _ _ => String.ofList ('{' :: (digits ++ ['}']))

/-- The segment with its argument, if it is a place that has one. -/
def filled (args : List String) : Segment → String
  | literal text _ => text
  | place digits hne h => args.getD (Nat.ofDigitChars 10 digits 0) (place digits hne h).written

end Segment

section Place

variable {digits : List Char}

theorem ne_closing_of_isDigit (h : ∀ c ∈ digits, c.isDigit = true) : ∀ c ∈ digits, c ≠ '}' := by
  rintro _ hc rfl
  exact absurd (h _ hc) (by decide)

theorem opening_notMem_of_isDigit (h : ∀ c ∈ digits, c.isDigit = true) :
    '{' ∉ digits ++ ['}'] := by
  intro hmem
  rcases List.mem_append.mp hmem with hmem | hmem
  · exact absurd (h _ hmem) (by decide)
  · exact absurd hmem (by decide)

theorem signedDecimalBelow?_of_isDigit (bound : Nat) (hne : digits ≠ [])
    (h : ∀ c ∈ digits, c.isDigit = true) :
    Text.signedDecimalBelow? bound digits =
      if Nat.ofDigitChars 10 digits 0 < bound then some (Nat.ofDigitChars 10 digits 0)
      else none := by
  have hdigits : ∀ c ∈ digits, Text.isDigit c = true := fun c hc =>
    Text.isDigit_of_isDigit (h c hc)
  have hall : digits.all Text.isDigit = true := List.all_eq_true.mpr hdigits
  have hdecimal : Text.decimal? digits = some (Nat.ofDigitChars 10 digits 0) := by
    simp [Text.decimal?, hne, hall, Text.digitsValue_of_isDigit hdigits]
  unfold Text.signedDecimalBelow?
  split
  next r _ => exact absurd (h '+' List.mem_cons_self) (by decide)
  next => simp only [hdecimal]

/-- A place whose number fits takes the argument of that number. -/
theorem argument?_place (hargs : args.length ≤ placeBound) (hne : digits ≠ [])
    (h : ∀ c ∈ digits, c.isDigit = true) (rest : List Char) :
    argument? args (digits ++ '}' :: rest) = args[Nat.ofDigitChars 10 digits 0]? := by
  have hnumber : (digits ++ '}' :: rest).takeWhile (· ≠ '}') = digits := by
    rw [List.takeWhile_append_of_pos fun c hc => decide_eq_true (ne_closing_of_isDigit h c hc),
      List.takeWhile_cons_of_neg (by simp), List.append_nil]
  have hclosed : (digits ++ '}' :: rest).contains '}' = true := by simp
  rw [argument?, if_pos hclosed, hnumber, signedDecimalBelow?_of_isDigit placeBound hne h]
  split
  · rfl
  next hlarge =>
    rw [List.getElem?_eq_none (Nat.le_trans hargs (Nat.le_of_not_lt hlarge))]
    rfl

theorem afterPlace_place (h : ∀ c ∈ digits, c.isDigit = true) (rest : List Char) :
    afterPlace (digits ++ '}' :: rest) = rest := by
  rw [afterPlace,
    List.dropWhile_append_of_pos fun c hc => decide_eq_true (ne_closing_of_isDigit h c hc),
    List.dropWhile_cons_of_neg (by simp), List.tail_cons]

end Place

/-- Filling goes on after a segment as if it had begun there. -/
theorem fillChars_written_append (hargs : args.length ≤ placeBound) (s : Segment)
    (rest : List Char) :
    fillChars args (s.written.toList ++ rest) =
      (s.filled args).toList ++ fillChars args rest := by
  cases s with
  | literal text h => exact fillChars_append h rest
  | place digits hne hall =>
    have h : ∀ c ∈ digits, c.isDigit = true := List.all_eq_true.mp hall
    have hwritten : (Segment.place digits hne hall).written.toList ++ rest =
        '{' :: (digits ++ '}' :: rest) := by
      simp [Segment.written]
    rw [hwritten, fillChars, if_pos rfl, argument?_place hargs hne h]
    simp only [Segment.filled, List.getD_eq_getElem?_getD]
    cases args[Nat.ofDigitChars 10 digits 0]? with
    | some a => simp only [afterPlace_place h, Option.getD_some]
    | none =>
      -- the brace is passed by, and what follows it up to the next segment opens no place
      have hskip : fillChars args (digits ++ ['}'] ++ rest) =
          digits ++ ['}'] ++ fillChars args rest :=
        fillChars_append (opening_notMem_of_isDigit h) rest
      rw [List.append_assoc, List.singleton_append] at hskip
      simp only [Option.getD_none, hskip, Segment.written, String.toList_ofList,
        List.cons_append]

theorem fillChars_flatMap_written (hargs : args.length ≤ placeBound) (segments : List Segment) :
    fillChars args (segments.flatMap fun s => s.written.toList) =
      segments.flatMap fun s => (s.filled args).toList := by
  induction segments with
  | nil => exact fillChars_of_notMem List.not_mem_nil
  | cons s segments ih =>
    rw [List.flatMap_cons, List.flatMap_cons, fillChars_written_append hargs, ih]

/-! ### No arguments -/

theorem argument?_nil (cs : List Char) : argument? [] cs = none := by
  cases h : argument? [] cs with
  | none => rfl
  | some a => exact absurd (mem_of_argument? h) List.not_mem_nil

theorem fillChars_nil (cs : List Char) : fillChars [] cs = cs := by
  induction cs with
  | nil => exact fillChars_of_notMem List.not_mem_nil
  | cons c cs ih => simp only [fillChars, argument?_nil, ih, ite_self]

/-! ### The whole template -/

/-- Filling a template fills its segments one by one, whatever the arguments contain, and without
arguments it changes nothing. No list of arguments is longer than the numbers of places can say. -/
theorem fill_join_written :
    (∀ args : List String, args.length ≤ placeBound → ∀ segments : List Segment,
      fill (String.join (segments.map Segment.written)) args =
        String.join (segments.map (Segment.filled args))) ∧
      ∀ template, fill template [] = template := by
  refine ⟨fun args hargs segments => ?_, fun template => ?_⟩
  · rw [fill, ← String.toList_inj, String.toList_ofList, String.toList_join, String.toList_join,
      List.flatMap_map, List.flatMap_map]
    exact fillChars_flatMap_written hargs segments
  · rw [fill, fillChars_nil, String.ofList_toList]

/-- Arguments with braces in them, a place with a zero in front, and one without an argument. -/
theorem fill_join_written_braces :
    ["\x7b1\x7d", "\x7d\x7b0"].length ≤ placeBound ∧
      fill "\x7b0\x7da\x7db\x7b01\x7d\x7b2\x7d" ["\x7b1\x7d", "\x7d\x7b0"] =
        "\x7b1\x7da\x7db\x7d\x7b0\x7b2\x7d" := by
  have h := fill_join_written.1 ["\x7b1\x7d", "\x7d\x7b0"] (by decide)
    [.place ['0'] (by decide) rfl, .literal "a\x7db" (by decide),
      .place ['0', '1'] (by decide) rfl, .place ['2'] (by decide) rfl]
  exact ⟨by decide, h⟩

end CSharpFront.Template
