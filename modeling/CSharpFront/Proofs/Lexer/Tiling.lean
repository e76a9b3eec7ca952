import CSharpFront.Lexer.Scanner
import CSharpFront.Proofs.Lexer.Lexeme
/-!
How the scanner divides a text. The text is a row of pieces, each beginning where the one before it
ends: tokens, and between them the fillers of the gaps. No byte is left out and none is in two
pieces. What is reported about gaps is reported about the fillers, in their order.
-/

namespace CSharpFront

/-- A character that begins no piece of a text but itself. -/
structure BeginsNothing (c : Char) (rest : List Char) : Prop where
  lineEnd : Text.isLineEnd c = false
  blank : Text.isBlank c = false
  digit : Text.isDigit c = false
  identifier : Text.isIdentifierStart c = false
  quote : c ≠ '"' ∧ c ≠ '\''
  punctuation : ∀ p : Punctuator, p.text.toList.head? ≠ some c
  /-- An `@` begins a string or an identifier if one follows it. -/
  verbatim : c = '@' → ∀ d ∈ rest.head?, d ≠ '"' ∧ Text.isIdentifierStart d = false

/-- A stretch of a gap. -/
inductive Filler
  | lineEnd (c : Char)
  | blank (c : Char)
  | lineComment (body : List Char)
  | blockComment (body : List Char)
  /-- A block comment without an end. -/
  | openComment (body : List Char)
  | unexpected (c : Char)

namespace Filler

def source : Filler → List Char
  | .lineEnd c | .blank c | .unexpected c => [c]
  | .lineComment body => '/' :: '/' :: body
  | .blockComment body => '/' :: '*' :: (body ++ ['*', '/'])
  | .openComment body => '/' :: '*' :: body

/-- Whether a filler is what it says, before what follows it. A line comment goes up to the end of
its line, a block comment up to the first end of one, and one without an end up to the end of the
text. -/
def Stands (rest : List Char) : Filler → Prop
  | .lineEnd c => Text.isLineEnd c = true
  | .blank c => Text.isBlank c = true
  | .lineComment body =>
    (∀ c ∈ body, Text.isLineEnd c = false) ∧ ∀ c ∈ rest.head?, Text.isLineEnd c = true
  | .blockComment body => ¬ ['*', '/'] <:+: body ++ ['*']
  | .openComment body => ¬ ['*', '/'] <:+: body ∧ rest = []
  | .unexpected c => BeginsNothing c rest

/-- What is reported about a filler that begins at an offset. -/
def reports (pos : Nat) : Filler → Bag
  | .unexpected c => [.of .unexpectedCharacter ⟨pos, c.utf8Size⟩ [String.singleton c]]
  | .openComment _ => [.of .unterminatedComment ⟨pos, 2⟩]
  | _ => []

/-- What is reported about a filler lies over the first of its characters. -/
theorem exists_span_of_mem_reports (f : Filler) {pos : Nat} {d : Diagnostic}
    (h : d ∈ f.reports pos) :
    ∃ front back, f.source = front ++ back ∧ d.span = ⟨pos, Text.byteCount front⟩ := by
  cases f with
  | unexpected c =>
    obtain rfl := List.mem_singleton.mp h
    exact ⟨[c], [], rfl, by simp [Diagnostic.of]⟩
  | openComment body =>
    obtain rfl := List.mem_singleton.mp h
    exact ⟨['/', '*'], body, rfl, rfl⟩
  | lineEnd | blank | lineComment | blockComment => exact absurd h List.not_mem_nil

end Filler

/-- Whether a message is about a gap. -/
def Message.isOfGap : Message → Bool
  | .unexpectedCharacter | .unterminatedComment => true
  | _ => false

/-- The characters of a token as they stand in the text, with the `@` of a verbatim identifier. -/
def Token.source (t : Token) : List Char :=
  if t.kind = .identifier ∧ t.flags.verbatim = true then '@' :: t.text.toList else t.text.toList

/-- A stretch of a text: of a gap, or a token. -/
inductive Piece
  | filler (f : Filler)
  | token (t : Token)

namespace Piece

def tokens : List Piece → List Token
  | [] => []
  | .filler _ :: ps => tokens ps
  | .token t :: ps => t :: tokens ps

/-- What is reported about the fillers of a row of pieces that begins at an offset. -/
def reports : Nat → List Piece → Bag
  | _, [] => []
  | pos, .filler f :: ps => f.reports pos ++ reports (pos + Text.byteCount f.source) ps
  | pos, .token t :: ps => reports (pos + Text.byteCount t.source) ps

theorem tokens_append (ps qs : List Piece) : tokens (ps ++ qs) = tokens ps ++ tokens qs := by
  induction ps with
  | nil => rfl
  | cons p ps ih => cases p <;> simp [tokens, ih]

theorem tokens_map_filler (fs : List Filler) : tokens (fs.map .filler) = [] := by
  induction fs with
  | nil => rfl
  | cons f fs ih => exact ih

theorem isOfGap_of_mem_reports (ps : List Piece) (pos : Nat) :
    ∀ d ∈ reports pos ps, d.message.isOfGap = true := by
  induction ps generalizing pos with
  | nil => simp [reports]
  | cons p ps ih =>
    cases p with
    | token t => exact ih _
    | filler f =>
      intro d hd
      rcases List.mem_append.mp hd with hd | hd
      · cases f with
        | unexpected | openComment =>
          obtain rfl := List.mem_singleton.mp hd
          rfl
        | lineEnd | blank | lineComment | blockComment => exact absurd hd List.not_mem_nil
      · exact ih _ d hd

end Piece

/-- A row of pieces that makes up the characters from an offset on. -/
inductive Tiling : Nat → List Char → List Piece → Prop
  | done (pos : Nat) : Tiling pos [] []
  | filler {pos : Nat} {rest : List Char} {ps : List Piece} (f : Filler) (h : f.Stands rest)
      (t : Tiling (pos + Text.byteCount f.source) rest ps) :
      Tiling pos (f.source ++ rest) (.filler f :: ps)
  | token {pos : Nat} {rest : List Char} {ps : List Piece} (t : Token) (hk : t.kind ≠ .endOfFile)
      (hs : t.source ≠ []) (hr : t.range = ⟨pos, pos + Text.byteCount t.source⟩)
      (ht : Tiling (pos + Text.byteCount t.source) rest ps) :
      Tiling pos (t.source ++ rest) (.token t :: ps)

namespace Tiling

variable {pos : Nat} {cs : List Char} {ps : List Piece}

theorem bounds_of_mem_tokens (h : Tiling pos cs ps) :
    ∀ t ∈ Piece.tokens ps, pos ≤ t.start ∧ t.start < t.stop ∧ t.stop ≤ pos + Text.byteCount cs := by
  induction h with
  | done => simp [Piece.tokens]
  | filler f _ _ ih =>
    intro t ht
    have := ih t ht
    rw [Text.byteCount_append]
    omega
  | token u _ hs hr _ ih =>
    intro t ht
    have := Text.byteCount_pos hs
    rw [Text.byteCount_append]
    rcases List.mem_cons.mp ht with rfl | ht
    · simp only [Token.start, Token.stop, hr]
      omega
    · have := ih t ht
      omega

/-- Every token ends before the next begins. -/
theorem pairwise_stop_le_start (h : Tiling pos cs ps) :
    (Piece.tokens ps).Pairwise fun t u => t.stop ≤ u.start := by
  induction h with
  | done => exact .nil
  | filler f _ _ ih => exact ih
  | token u _ _ hr ht ih =>
    refine .cons (fun t hm => ?_) ih
    have := (ht.bounds_of_mem_tokens t hm).1
    simpa only [Token.stop, hr] using this

theorem kind_ne_of_mem_tokens (h : Tiling pos cs ps) :
    ∀ t ∈ Piece.tokens ps, t.kind ≠ .endOfFile := by
  induction h with
  | done => simp [Piece.tokens]
  | filler f _ _ ih => exact ih
  | token u hk _ _ _ ih =>
    intro t ht
    rcases List.mem_cons.mp ht with rfl | ht
    · exact hk
    · exact ih t ht

/-- Every token stands where it says. -/
theorem exists_standsAt_of_mem_tokens (h : Tiling pos cs ps) :
    ∀ t ∈ Piece.tokens ps, ∃ k, Text.StandsAt t.source cs k ∧
      t.range = ⟨pos + k, pos + k + Text.byteCount t.source⟩ := by
  induction h with
  | done => simp [Piece.tokens]
  | filler f _ _ ih =>
    intro t ht
    obtain ⟨k, hs, hr⟩ := ih t ht
    exact ⟨_, hs.after f.source, by rw [hr, Nat.add_assoc]⟩
  | token u _ _ hr _ ih =>
    intro t ht
    rcases List.mem_cons.mp ht with rfl | ht
    · exact ⟨0, Text.standsAt_zero _ _, hr⟩
    · obtain ⟨k, hs, hr⟩ := ih t ht
      exact ⟨_, hs.after u.source, by rw [hr, Nat.add_assoc]⟩

/-- What is reported about gaps is reported over characters of the text. -/
theorem exists_standsAt_of_mem_reports (h : Tiling pos cs ps) :
    ∀ d ∈ Piece.reports pos ps, ∃ k inside, Text.StandsAt inside cs k ∧
      d.span = ⟨pos + k, Text.byteCount inside⟩ := by
  induction h with
  | done => simp [Piece.reports]
  | filler f _ _ ih =>
    intro d hd
    rcases List.mem_append.mp hd with hd | hd
    · obtain ⟨front, back, hs, hspan⟩ := f.exists_span_of_mem_reports hd
      rw [hs, List.append_assoc]
      exact ⟨0, front, Text.standsAt_zero _ _, hspan⟩
    · obtain ⟨k, inside, hs, hspan⟩ := ih d hd
      exact ⟨_, inside, hs.after f.source, by rw [hspan, Nat.add_assoc]⟩
  | token u _ _ _ _ ih =>
    intro d hd
    obtain ⟨k, inside, hs, hspan⟩ := ih d hd
    exact ⟨_, inside, hs.after u.source, by rw [hspan, Nat.add_assoc]⟩

end Tiling

end CSharpFront
