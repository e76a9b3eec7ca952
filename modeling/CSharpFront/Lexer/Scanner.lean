import CSharpFront.Lexer.Gap
/-!
Scanning a text into its tokens. A scanner holds what is left of the text and where that begins;
each step passes a gap and reads one token, and at the end of the text every step finds the end of
file again.
-/

namespace CSharpFront

/-- What is left of a text, and the offset at which it begins. -/
structure Scanner where
  pos : Nat
  rest : List Char

namespace Scanner

def ofText (text : String) : Scanner := ⟨0, text.toList⟩

/-- A token that has been read, with the scanner after it and the faults found on the way. -/
structure Step where
  token : Token
  after : Scanner
  problems : Bag

/-- The faults of a lexeme that stands at `pos`, as diagnostics. -/
def placed (pos : Nat) (problems : List Problem) : Bag :=
  problems.map fun p => .of p.message (.between (pos + p.start) (pos + p.stop))

/-- The text of a token: that of its lexeme, of a verbatim identifier without the `@`. -/
def tokenText (l : Lexeme) : String :=
  String.ofList (if l.kind = .identifier ∧ l.flags.verbatim = true then l.text.tail else l.text)

def endOfFile (g : Gap) : Token :=
  ⟨.endOfFile, .emptyAt g.stop, "", { afterLineBreak := g.hasLineBreak }⟩

/-- The token of the lexeme that follows a gap. -/
def tokenAfter (g : Gap) (l : Lexeme) : Token where
  kind := l.kind
  range := ⟨g.stop, g.stop + Text.byteCount l.text⟩
  text := tokenText l
  flags := { l.flags with afterLineBreak := g.hasLineBreak }

def next (s : Scanner) : Step :=
  let g := Gap.read s.pos false [] s.rest
  match g.lexeme? with
  | none => ⟨endOfFile g, ⟨g.stop, []⟩, g.problems⟩
  | some l =>
    let t := tokenAfter g l
    ⟨t, ⟨t.stop, g.rest.drop l.text.length⟩, g.problems ++ placed g.stop l.problems⟩

theorem length_rest_next {s : Scanner} {l : Lexeme}
    (h : (Gap.read s.pos false [] s.rest).lexeme? = some l) :
    s.next.after.rest.length < s.rest.length := by
  have hle := Gap.length_rest_read s.pos false [] s.rest
  rw [Gap.lexeme?_read] at h
  have hne := List.length_pos_iff.mpr (Lexeme.text_ne_nil_of_read? h)
  have hpos : 0 < (Gap.read s.pos false [] s.rest).rest.length := by
    rcases hr : (Gap.read s.pos false [] s.rest).rest with _ | ⟨c, cs⟩
    · rw [hr] at h; simp [Lexeme.read?] at h
    · simp
  simp only [next, Gap.lexeme?_read, h, List.length_drop]
  omega

/-- All tokens from here on, after those already read. -/
def run (tokens : Array Token) (problems : Array Diagnostic) (s : Scanner) :
    TokenStream × Array Diagnostic :=
  match _h : (Gap.read s.pos false [] s.rest).lexeme? with
  | none => (⟨tokens.toList, s.next.token⟩, problems ++ s.next.problems)
  | some _ => run (tokens.push s.next.token) (problems ++ s.next.problems) s.next.after
termination_by s.rest.length
decreasing_by exact length_rest_next _h

end Scanner

/-- The tokens of a text, with the faults found in it in the order of the text. -/
def scan (text : String) : TokenStream × Array Diagnostic :=
  Scanner.run #[] #[] (.ofText text)

/-- A text by its characters. Closed runs evaluate from these much faster than from the text. -/
theorem scan_ofList (cs : List Char) : scan (String.ofList cs) = Scanner.run #[] #[] ⟨0, cs⟩ := by
  rw [scan, Scanner.ofText, String.toList_ofList]

theorem scan_ofList_append (cs ds : List Char) :
    scan (String.ofList cs ++ String.ofList ds) = Scanner.run #[] #[] ⟨0, cs ++ ds⟩ := by
  rw [← String.ofList_append, scan_ofList]

end CSharpFront
