import Mathlib.Data.List.TakeWhile
import CSharpFront.Proofs.Lexer.Tiling
/-!
Names in a text have no dots: an identifier that the scanner reads is made of letters, digits and
the like.
-/

namespace CSharpFront

namespace Text

theorem isIdentifierPart_dot : isIdentifierPart '.' = false := by decide +kernel

theorem notMem_word {c d : Char} (hd : isIdentifierPart d = false)
    (hc : isIdentifierStart c = true) (cs : List Char) :
    d ∉ c :: cs.takeWhile isIdentifierPart := by
  intro h
  have hpart : isIdentifierPart d = true := by
    rcases List.mem_cons.mp h with rfl | h
    · exact isIdentifierPart_of_start hc
    · exact List.mem_takeWhile_imp h
  rw [hd] at hpart
  cases hpart

end Text

namespace Lexeme

theorem kind_number (c : Char) (cs : List Char) : (number c cs).kind = .numericLiteral := by
  unfold number
  split
  · split
    · rfl
    split
    · rfl
    split <;> rfl
  · rfl

/-- A name is a word, perhaps after an `@`. -/
theorem exists_word_of_identifier {cs : List Char} {l : Lexeme} (h : read? cs = some l)
    (hk : l.kind = .identifier) :
    ∃ c cs, Text.isIdentifierStart c = true ∧
      (l = verbatimIdentifier c cs ∨
        l = ⟨.identifier, c :: cs.takeWhile Text.isIdentifierPart, {}, []⟩) := by
  unfold read? at h
  split at h
  · cases h
  next c cs =>
    split at h
    · obtain rfl := Option.some.inj h
      cases hk
    split at h
    · obtain rfl := Option.some.inj h
      cases hk
    split at h
    · unfold verbatim? at h
      split at h
      next c' cs' =>
        split at h
        · obtain rfl := Option.some.inj h
          cases hk
        split at h
        next hc => exact ⟨c', cs', hc, .inl (Option.some.inj h).symm⟩
        · cases h
      · cases h
    split at h
    · obtain rfl := Option.some.inj h
      rw [kind_number] at hk
      cases hk
    split at h
    next hc =>
      obtain rfl := Option.some.inj h
      unfold identifier at hk ⊢
      dsimp only at hk ⊢
      split at hk
      · cases hk
      next hw => exact ⟨c, cs, hc, .inr rfl⟩
    · obtain ⟨p, -, rfl⟩ := Option.map_eq_some_iff.mp h
      cases hk

end Lexeme

namespace Scanner

theorem not_dot_mem_tokenAfter (g : Gap) {cs : List Char} {l : Lexeme}
    (h : Lexeme.read? cs = some l) (hk : (tokenAfter g l).kind = .identifier) :
    '.' ∉ (tokenAfter g l).text.toList := by
  obtain ⟨c, cs, hc, rfl | rfl⟩ := Lexeme.exists_word_of_identifier h hk
  · have hword := Text.notMem_word Text.isIdentifierPart_dot hc cs
    simpa [tokenAfter, tokenText, Lexeme.verbatimIdentifier] using hword
  · have hword := Text.notMem_word Text.isIdentifierPart_dot hc cs
    simpa [tokenAfter, tokenText] using hword

/-- What holds of every token that is read, and of all that is reported in one step, holds of all
tokens and of all reports. -/
theorem forall_mem_run {good : Token → Prop} {fine : Diagnostic → Prop}
    (hgood : ∀ g cs l, Lexeme.read? cs = some l → good (tokenAfter g l))
    (hfine : ∀ s : Scanner, ∀ d ∈ s.next.problems, fine d) (tokens : Array Token)
    (problems : Array Diagnostic) (s : Scanner) (ht : ∀ t ∈ tokens, good t)
    (hp : ∀ d ∈ problems, fine d) :
    (∀ t ∈ (run tokens problems s).1.tokens, good t) ∧
      ∀ d ∈ (run tokens problems s).2, fine d := by
  have hstep {problems : Array Diagnostic} (s : Scanner) (hp : ∀ d ∈ problems, fine d) :
      ∀ d ∈ problems ++ s.next.problems, fine d := by
    intro d hd
    rw [← Array.mem_toList_iff, Array.toList_appendList, List.mem_append] at hd
    rcases hd with hd | hd
    · exact hp d (Array.mem_toList_iff.mp hd)
    · exact hfine s d hd
  induction tokens, problems, s using run.induct with
  | case1 tokens problems s hnone =>
    unfold run
    split
    · exact ⟨by simpa using ht, hstep s hp⟩
    next l hsome => rw [hnone] at hsome; cases hsome
  | case2 tokens problems s l hsome ih =>
    unfold run
    split
    next hnone => rw [hnone] at hsome; cases hsome
    refine ih (fun t htoken => ?_) (hstep s hp)
    rcases Array.mem_push.mp htoken with htoken | rfl
    · exact ht t htoken
    · have hread := hsome
      rw [Gap.lexeme?_read] at hread
      simp only [next, hsome]
      exact hgood _ _ _ hread

end Scanner

/-- The names in a text have no dots. -/
theorem not_dot_mem_of_mem_scan (text : String) :
    ∀ t ∈ (scan text).1.tokens, t.kind = .identifier → '.' ∉ t.text.toList :=
  (Scanner.forall_mem_run (fun g _ _ => Scanner.not_dot_mem_tokenAfter g)
    (fun _ _ _ => trivial) _ _ _ (by simp) (by simp)).1

end CSharpFront
