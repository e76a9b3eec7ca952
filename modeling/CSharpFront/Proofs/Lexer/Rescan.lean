import CSharpFront.Proofs.Lexer.LineEnds
import CSharpFront.Proofs.Lexer.Words
import CSharpFront.Proofs.Syntax.Relaid
/-!
Tokens written one to a line. Each token of a text stands alone on its line, without the gap before
it, and the scanner finds the same tokens again, those with faults as well: nothing that a reader
looks at beyond the end of its lexeme would be changed by a line feed.
-/

namespace CSharpFront

/-! ### Lexemes that have no end -/

namespace Lexeme

/-- Whether a lexeme is a verbatim string without an end. -/
def IsOpen (l : Lexeme) : Prop := l.flags.verbatim = true ∧ l.flags.unterminated = true

theorem verbatim_number (c : Char) (cs : List Char) : (number c cs).flags.verbatim = false := by
  unfold number
  split
  · split
    · rfl
    split
    · rfl
    split <;> rfl
  · rfl

theorem verbatim_identifier (c : Char) (cs : List Char) :
    (identifier c cs).flags.verbatim = false := by
  simp only [identifier]
  split <;> rfl

theorem text_verbatimString_of_open {cs : List Char}
    (h : (verbatimString cs).flags.unterminated = true) :
    (verbatimString cs).text = '@' :: '"' :: cs := by
  have hopen : (verbatimBody {} cs).isClosed = false := by
    simpa [verbatimString, literal] using h
  have hlength := length_verbatimBody_of_open {} cs hopen
  have htake : cs.take (verbatimBody {} cs).length = cs :=
    List.take_of_length_le (by rw [hlength]; exact Nat.le_add_left _ _)
  simp only [verbatimString, literal, htake, List.cons_append, List.nil_append]

/-- A verbatim string without an end takes all the characters that are left. -/
theorem text_of_isOpen {cs : List Char} {l : Lexeme} (h : read? cs = some l) (hl : l.IsOpen) :
    l.text = cs := by
  obtain ⟨hverbatim, hopen⟩ := hl
  have hnot {m : Lexeme} (hm : some m = some l) (hv : m.flags.verbatim = false) : False := by
    obtain rfl := Option.some.inj hm
    rw [hv] at hverbatim
    cases hverbatim
  rcases cs with _ | ⟨c, cs⟩
  · cases h
  simp only [read?] at h
  split at h
  · exact (hnot h rfl).elim
  split at h
  · exact (hnot h rfl).elim
  split at h
  next hat =>
    rcases cs with _ | ⟨d, cs⟩
    · cases h
    simp only [verbatim?] at h
    split at h
    next hd =>
      obtain rfl := Option.some.inj h
      rw [text_verbatimString_of_open hopen, hat, hd]
    next hd =>
    split at h
    · obtain rfl := Option.some.inj h
      cases hopen
    · cases h
  next hat =>
  split at h
  · exact (hnot h (verbatim_number c cs)).elim
  split at h
  · exact (hnot h (verbatim_identifier c cs)).elim
  · obtain ⟨p, -, hp⟩ := Option.map_eq_some_iff.mp h
    exact (hnot (congrArg some hp) rfl).elim

/-- The token of a lexeme, wherever it stands. -/
def bareToken (l : Lexeme) : Token := (Scanner.tokenAt 0 l).bare

end Lexeme

/-! ### Where no gap begins -/

theorem Gap.BeginsNone.text_append {cs text more : List Char} (h : Gap.BeginsNone cs)
    (ht : text <+: cs) (hne : text ≠ []) (hm : EndsLine more) : Gap.BeginsNone (text ++ more) := by
  obtain ⟨rest, rfl⟩ := ht
  rcases text with _ | ⟨c, _ | ⟨d, text⟩⟩
  · exact absurd rfl hne
  · refine ⟨h.1, h.2.1, fun _ => ?_⟩
    rcases hm.cases with rfl | ⟨more, rfl⟩ <;> simp
  · exact h

/-! ### Lexemes one to a line -/

/-- Lexemes that a scanner can have read one after the other: each where no gap begins, and none
after one without an end. -/
inductive Readable : List Lexeme → Prop
  | nil : Readable []
  | cons {l : Lexeme} {ls : List Lexeme} {cs : List Char} (hgap : Gap.BeginsNone cs)
      (hread : Lexeme.read? cs = some l) (hopen : l.IsOpen → ls = []) (h : Readable ls) :
      Readable (l :: ls)

/-- The texts of lexemes, with a line feed between them. -/
def lines (ls : List Lexeme) : List Char := ['\n'].intercalate (ls.map (·.text))

/-- What comes after the first of some lexemes. -/
def linesAfter (ls : List Lexeme) : List Char := ls.flatMap fun l => '\n' :: l.text

theorem lines_cons (l : Lexeme) (ls : List Lexeme) : lines (l :: ls) = l.text ++ linesAfter ls := by
  induction ls generalizing l with
  | nil => simp [lines, linesAfter]
  | cons m ls ih =>
    have htail : lines (m :: ls) = m.text ++ linesAfter ls := ih m
    simp only [lines, List.map_cons, List.intercalate_cons_cons] at htail ⊢
    rw [htail]
    simp [linesAfter]

theorem endsLine_linesAfter (ls : List Lexeme) : EndsLine (linesAfter ls) := by
  cases ls with
  | nil => exact endsLine_nil
  | cons l ls => exact endsLine_lineFeed _

/-- What each lexeme says of itself is its text. -/
theorem Readable.map_source {ls : List Lexeme} (h : Readable ls) :
    ls.map (·.bareToken.source) = ls.map (·.text) := by
  induction h with
  | nil => rfl
  | @cons l ls cs hgap hread hopen h ih =>
    let g : Gap := ⟨0, false, [], cs, some l⟩
    have hsource : l.bareToken.source = l.text :=
      Scanner.source_tokenAfter (g := g) (Lexeme.readFrom_read? hread)
    rw [List.map_cons, List.map_cons, hsource, ih]

theorem Gap.beginsNone_rest_read (pos : Nat) (lineBreak : Bool) (problems : Bag) (cs : List Char)
    {l : Lexeme} (h : (read pos lineBreak problems cs).lexeme? = some l) :
    BeginsNone (read pos lineBreak problems cs).rest := by
  fun_induction read pos lineBreak problems cs with
  | case1 => cases h
  | case2 _ _ _ _ _ _ ih => exact ih h
  | case3 _ _ _ _ _ _ _ ih => exact ih h
  | case4 _ _ _ _ _ _ _ _ _ ih => exact ih h
  | case5 _ _ _ _ _ _ _ _ _ _ ih => exact ih h
  | case6 pos lineBreak problems c cs hl hb hline hblock =>
    refine ⟨by simpa using hl, by simpa using hb, fun hc => ⟨fun hn => ?_, fun hn => ?_⟩⟩
    · exact hline ⟨hc, hn⟩
    · exact hblock ⟨hc, hn⟩
  | case7 _ _ _ _ _ _ _ _ _ _ ih => exact ih h

namespace Scanner

variable {tokens : Array Token} {problems : Array Diagnostic} {pos : Nat} {cs : List Char}
  {l : Lexeme} {ls : List Lexeme}

/-- A run that finds some lexemes, whatever their places and their faults. -/
structure Finds (tokens : Array Token) (ls : List Lexeme) (r : TokenStream × Array Diagnostic) :
    Prop where
  tokens : ∃ ts, r.1.tokens = tokens.toList ++ ts ∧ ts.map Token.bare = ls.map Lexeme.bareToken
  endOfFile : r.1.endOfFile.bare = (lastToken 0).bare

theorem finds_nil (pos : Nat) : Finds tokens [] (run tokens problems ⟨pos, []⟩) := by
  rw [run_nil]
  exact ⟨⟨[], by simp, rfl⟩, rfl⟩

theorem Finds.eq_nil (h : Finds tokens ls (run tokens problems ⟨pos, []⟩)) : ls = [] := by
  obtain ⟨ts, hts, hbare⟩ := h.tokens
  rw [run_nil] at hts
  have hnil : ts = [] := by simpa using hts
  rw [hnil] at hbare
  exact List.map_eq_nil_iff.mp hbare.symm

theorem Finds.push {t : Token} {r : TokenStream × Array Diagnostic} (ht : t.bare = l.bareToken)
    (h : Finds (tokens.push t) ls r) : Finds tokens (l :: ls) r := by
  obtain ⟨⟨ts, hts, hbare⟩, hlast⟩ := h
  refine ⟨⟨t :: ts, by rw [hts]; simp, ?_⟩, hlast⟩
  rw [List.map_cons, List.map_cons, hbare, ht]

theorem Finds.map_bare {r : TokenStream × Array Diagnostic} (h : Finds #[] ls r) :
    r.1.tokens.map Token.bare = ls.map Lexeme.bareToken := by
  obtain ⟨ts, hts, hbare⟩ := h.tokens
  rw [hts, ← hbare]
  rfl

theorem Finds.toList_bare {r : TokenStream × Array Diagnostic} (h : Finds #[] ls r) :
    r.1.toList.map Token.bare = ls.map Lexeme.bareToken ++ [(lastToken 0).bare] := by
  rw [TokenStream.toList, List.map_append, h.map_bare, List.map_singleton, h.endOfFile]

/-- Whatever is scanned, the lexemes that are found could be read again. -/
theorem exists_finds_run (tokens : Array Token) (problems : Array Diagnostic) (s : Scanner) :
    ∃ ls, Readable ls ∧ Finds tokens ls (run tokens problems s) := by
  fun_induction run tokens problems s with
  | case1 tokens problems s h =>
    refine ⟨[], .nil, ⟨[], by simp, rfl⟩, ?_⟩
    simp only [next, h]
    rfl
  | case2 tokens problems s l h ih =>
    obtain ⟨ls, hls, hfinds⟩ := ih
    have hread := (Gap.lexeme?_read s.pos false [] s.rest).symm.trans h
    have hgap := Gap.beginsNone_rest_read s.pos false [] s.rest h
    have htoken : s.next.token.bare = l.bareToken := by
      simp only [next, h]
      rfl
    refine ⟨l :: ls, .cons hgap hread (fun hopen => ?_) hls, .push htoken hfinds⟩
    -- nothing is left after a string without an end
    have hafter : s.next.after.rest = [] := by
      simp only [next, h, Lexeme.text_of_isOpen hread hopen, List.drop_length]
    have hend : s.next.after = ⟨s.next.after.pos, []⟩ := by rw [← hafter]
    rw [hend] at hfinds
    exact hfinds.eq_nil

/-- A lexeme at the end of a line, after a gap that comes before it. -/
theorem finds_cons {rest more : List Char} {lineBreak : Bool} {stop : Nat}
    (hgap : Gap.BeginsNone cs) (hread : Lexeme.read? cs = some l) (hm : EndsLine more)
    (hopen : l.IsOpen → more = [])
    (hrest : Gap.read pos false [] rest = Gap.read stop lineBreak [] (l.text ++ more))
    (h : ∀ (tokens : Array Token) (problems : Array Diagnostic) (pos : Nat),
      Finds tokens ls (run tokens problems ⟨pos, more⟩)) :
    Finds tokens (l :: ls) (run tokens problems ⟨pos, rest⟩) := by
  have htext := (Lexeme.readFrom_read? hread).text
  have hagain : Lexeme.read? (l.text ++ more) = some l :=
    Lexeme.read?_text_append hread hm fun hv hu => hopen ⟨hv, hu⟩
  have hbegins := hgap.text_append htext (Lexeme.text_ne_nil_of_read? hread) hm
  rw [Gap.read_of_beginsNone hbegins hagain] at hrest
  rw [run_of_some (l := l) (by rw [hrest])]
  have hnext : (next ⟨pos, rest⟩).after = ⟨(next ⟨pos, rest⟩).after.pos, more⟩ := by
    simp only [next, hrest, List.drop_left]
  have htoken : (next ⟨pos, rest⟩).token.bare = l.bareToken := by
    simp only [next, hrest]
    rfl
  rw [hnext]
  exact .push htoken (h _ _ _)

/-- Lines that follow each other are read one by one. -/
theorem finds_linesAfter (h : Readable ls) (tokens : Array Token)
    (problems : Array Diagnostic) (pos : Nat) :
    Finds tokens ls (run tokens problems ⟨pos, linesAfter ls⟩) := by
  induction h generalizing tokens problems pos with
  | nil => exact finds_nil pos
  | @cons l ls cs hgap hread hopen h ih =>
    have hrest : Gap.read pos false [] (linesAfter (l :: ls)) =
        Gap.read (pos + 1) true [] (l.text ++ linesAfter ls) := by
      rw [linesAfter, List.flatMap_cons, List.cons_append, Gap.read, if_pos (by decide)]
      rfl
    exact finds_cons hgap hread (endsLine_linesAfter ls) (fun hl => by rw [hopen hl]; rfl) hrest ih

theorem finds_lines (h : Readable ls) (tokens : Array Token)
    (problems : Array Diagnostic) (pos : Nat) :
    Finds tokens ls (run tokens problems ⟨pos, lines ls⟩) := by
  cases h with
  | nil => exact finds_nil pos
  | @cons l ls cs hgap hread hopen h =>
    rw [lines_cons]
    exact finds_cons hgap hread (endsLine_linesAfter ls) (fun hl => by rw [hopen hl]; rfl) rfl
      (finds_linesAfter h)

end Scanner

/-! ### The text of the tokens -/

theorem mapM_slice? {text : String} {ts : List Token}
    (h : ∀ t ∈ ts, Text.slice? text t.span = some (String.ofList t.source)) :
    ts.mapM (Text.slice? text ·.span) = some (ts.map (String.ofList ·.source)) := by
  induction ts with
  | nil => rfl
  | cons t ts ih =>
    obtain ⟨ht, hts⟩ := List.forall_mem_cons.mp h
    simp [ht, ih hts]

/-- Written one to a line, the tokens of a text are scanned as they were: with the same kinds and
texts, and with the same flags but for the line breaks before them. -/
theorem scan_lines (text : String) :
    ∃ slices, (scan text).1.tokens.mapM (Text.slice? text ·.span) = some slices ∧
      (scan ("\n".intercalate slices)).1.toList.map Token.bare =
        (scan text).1.toList.map Token.bare := by
  obtain ⟨ls, hls, hfinds⟩ := Scanner.exists_finds_run #[] #[] (.ofText text)
  change Scanner.Finds #[] ls (scan text) at hfinds
  have hslices := mapM_slice? fun t ht =>
    (scan_tiles text).slices t (List.mem_append_left _ ht)
  have hsources : (scan text).1.tokens.map Token.source = ls.map (·.text) := by
    have hbare := congrArg (List.map Token.source) hfinds.map_bare
    rw [List.map_map, List.map_map] at hbare
    exact hbare.trans hls.map_source
  have hjoined : ("\n".intercalate ((scan text).1.tokens.map (String.ofList ·.source))).toList =
      lines ls := by
    rw [String.toList_intercalate, lines, ← hsources, List.map_map]
    exact congrArg _ (List.map_congr_left fun t _ => String.toList_ofList)
  have hagain := Scanner.finds_lines hls #[] #[] 0
  rw [← hjoined] at hagain
  exact ⟨_, hslices, hagain.toList_bare.trans hfinds.toList_bare.symm⟩

end CSharpFront
