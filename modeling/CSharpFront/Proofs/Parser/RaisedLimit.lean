import CSharpFront.Lexer.Scanner
import CSharpFront.Proofs.Parser.NestingDiscipline
/-!
A nesting limit that is raised. Where the limit was not hit, a higher one makes no difference, so
long as looking ahead finds the same types under both. Looking ahead has a limit of its own: on type
arguments that nest deeper it gives up without a word, and the text is then read as something else.
-/

namespace CSharpFront

namespace Lookahead

variable {scan scan' : List Token → Option TypeScan} {ts : List Token}

/-! ### Where looking ahead has levels enough -/

/-- Each level of type arguments begins with a token of its own. -/
def openings (ts : List Token) : Nat := ts.countP (·.kind = .punct .lessThan)

theorem openings_tail (h : kind ts = .punct .lessThan) :
    openings ts.tail + 1 = openings ts := by
  cases ts with
  | nil => cases h
  | cons t ts =>
    have ht : t.kind = .punct .lessThan := h
    simp [openings, ht]

theorem openings_le {us : List Token} (h : us <:+ ts) : openings us ≤ openings ts :=
  h.sublist.countP_le

theorem afterName_congr (h : kind ts = .punct .lessThan → AgreeOn ts.tail scan scan')
    (hs : LeavesSuffix scan) : afterName scan' ts = afterName scan ts := by
  unfold afterName
  split
  next hk => rw [(h hk).typeArguments hs _ List.suffix_rfl]
  · rfl

theorem dottedRest_congr (h : ∀ us, us <:+ ts → afterName scan' us = afterName scan us)
    (hs : LeavesSuffix scan) (n : Nat) : dottedRest scan' n ts = dottedRest scan n ts := by
  induction n generalizing ts with
  | zero => rfl
  | succ n ih =>
    have hdrop : ts.drop 2 <:+ ts := List.drop_suffix 2 ts
    have hname : afterName scan (ts.drop 2) <:+ ts := (hs.afterName _).trans hdrop
    simp only [dottedRest, h _ hdrop]
    split
    · exact ih fun us hus => h us (hus.trans hname)
    · rfl

/-- One level of type arguments: those after each opening are all that matters. -/
theorem type?_congr {n m : Nat}
    (h : ∀ us, us <:+ ts → kind us = .punct .lessThan → AgreeOn us.tail (type? n) (type? m)) :
    type? (m + 1) ts = type? (n + 1) ts := by
  have hs : LeavesSuffix (type? n) := type?_suffix n
  have htail : ts.tail <:+ ts := List.tail_suffix ts
  have hname (us : List Token) (hus : us <:+ ts) :
      afterName (type? m) us = afterName (type? n) us :=
    afterName_congr (h us hus) hs
  have hdots : dottedRest (type? m) ts.length (afterName (type? n) ts.tail) =
      dottedRest (type? n) ts.length (afterName (type? n) ts.tail) :=
    dottedRest_congr (fun us hus => hname us (hus.trans ((hs.afterName _).trans htail))) hs _
  simp only [type?, hname _ htail, hdots]

/-- More levels than there are openings make no difference, by induction on the levels. -/
theorem type?_eq_of_openings_le {n m : Nat} (hle : n ≤ m) (h : openings ts ≤ n) :
    type? (m + 1) ts = type? (n + 1) ts := by
  induction n generalizing m ts with
  | zero =>
    refine type?_congr fun us hus hk => ?_
    have htail := openings_tail hk
    have hle := openings_le hus
    omega
  | succ n ih =>
    obtain ⟨m, rfl⟩ : ∃ k, m = k + 1 := ⟨m - 1, by omega⟩
    refine type?_congr fun us hus hk vs hvs => ih (Nat.le_of_succ_le_succ hle) ?_
    have htail := openings_tail hk
    have hle := openings_le hus
    have hle' := openings_le hvs
    omega

/-- Looking ahead finds the same from a limit on that is no less than the openings. -/
theorem agreeOnTypes_of_openings_le {tokens : List Token} {maxDepth maxDepth' : Nat}
    (hle : maxDepth ≤ maxDepth') (h : openings tokens ≤ maxDepth) :
    AgreeOnTypes tokens maxDepth maxDepth' :=
  fun _ hts => type?_eq_of_openings_le hle (Nat.le_trans (openings_le hts) h)

end Lookahead

namespace Parser

theorem raises_of_agree {stream : TokenStream} (he : stream.endOfFile.kind = .endOfFile)
    {maxDepth maxDepth' : Nat} (hle : maxDepth ≤ maxDepth')
    (htypes : Lookahead.AgreeOnTypes stream.tokens maxDepth maxDepth') :
    Env.Raises stream.tokens (.of stream maxDepth) (.of stream maxDepth') :=
  ⟨rfl, rfl, rfl, he, Nat.lt_succ_self _, hle, htypes⟩

/-- What the limit was not hit in comes out the same under a higher one: the tree, the diagnostics
and every step on the way, as well as where the parser finds that it has been cancelled. -/
theorem parseUnit_raised {stream : TokenStream} (he : stream.endOfFile.kind = .endOfFile)
    {maxDepth maxDepth' : Nat} (hle : maxDepth ≤ maxDepth')
    (htypes : Lookahead.AgreeOnTypes stream.tokens maxDepth maxDepth')
    (before : Array Diagnostic) (polls : Polls)
    (hlimit : ∀ d ∈ (parseUnit stream maxDepth before polls).2.diagnostics,
      d.message ≠ .tooDeep) :
    parseUnit stream maxDepth' before polls = parseUnit stream maxDepth before polls := by
  have hstart := ready_start stream maxDepth before polls
  have hbound : (Env.of stream maxDepth).bound ≤ (Env.of stream maxDepth').bound :=
    Nat.succ_le_succ hle
  have hrun := orderly_compilationUnit hbound _ _ _ (raises_of_agree he hle htypes) hstart
    (Nat.zero_le _)
  refine hrun.same (Bool.eq_false_iff.mpr fun hdeep => ?_)
  -- the flag of the limit goes with its report
  obtain ⟨ds, -, hreported⟩ := (hrun.leads.life.1 _ List.mem_cons_self).2
  rcases hreported with ⟨ht, -⟩ | ⟨-, span, hd⟩
  · exact absurd hdeep (ne_true_of_eq_false ht)
  · exact hlimit (.of .tooDeep span) (hd ▸ Array.mem_push_self) rfl

/-- The tokens of `A<int> x;`. -/
def genericLocal : TokenStream :=
  ⟨[⟨.identifier, ⟨0, 1⟩, "A", {}⟩, ⟨.punct .lessThan, ⟨1, 2⟩, "<", {}⟩,
      ⟨.keyword .kwInt, ⟨2, 5⟩, "int", {}⟩, ⟨.punct .greaterThan, ⟨5, 6⟩, ">", {}⟩,
      ⟨.identifier, ⟨7, 8⟩, "x", {}⟩, ⟨.punct .semicolon, ⟨8, 9⟩, ";", {}⟩],
    ⟨.endOfFile, ⟨9, 9⟩, "", {}⟩⟩

theorem parseUnit_raised_of_genericLocal :
    genericLocal.endOfFile.kind = .endOfFile ∧ 3 ≤ 9 ∧
      Lookahead.AgreeOnTypes genericLocal.tokens 3 9 ∧
      (∀ d ∈ (parseUnit genericLocal 3 #[] none).2.diagnostics, d.message ≠ .tooDeep) ∧
      parseUnit genericLocal 9 #[] none = parseUnit genericLocal 3 #[] none := by
  have htypes : Lookahead.AgreeOnTypes genericLocal.tokens 3 9 :=
    Lookahead.agreeOnTypes_of_openings_le (by decide) (by decide)
  have hlimit : ∀ d ∈ (parseUnit genericLocal 3 #[] none).2.diagnostics,
      d.message ≠ .tooDeep := by decide
  exact ⟨rfl, by decide, htypes, hlimit,
    parseUnit_raised rfl (by decide) htypes #[] none hlimit⟩

/-- A declaration whose type arguments nest to five levels. -/
def deepGenericLocal : String := "A<B,A<B,A<B,A<B,A<B,B>,B>>,B>> x;"

/-- A declaration whose type nests deeper than looking ahead goes is read as expressions with errors
between, and the limit is not reported. -/
theorem parseUnit_not_raised :
    ¬ ∀ (text : String) (maxDepth maxDepth' : Nat), maxDepth ≤ maxDepth' →
      let parsed := parseUnit (scan text).1 maxDepth (scan text).2 none
      let parsed' := parseUnit (scan text).1 maxDepth' (scan text).2 none
      (∀ d ∈ parsed.2.diagnostics, d.message ≠ .tooDeep) →
        parsed'.1 = parsed.1 ∧ parsed'.2.diagnostics = parsed.2.diagnostics := by
  intro h
  have hdiffer :
      (∀ d ∈ (parseUnit (scan deepGenericLocal).1 4 (scan deepGenericLocal).2 none).2.diagnostics,
        d.message ≠ .tooDeep) ∧
      (parseUnit (scan deepGenericLocal).1 7 (scan deepGenericLocal).2 none).2.diagnostics ≠
        (parseUnit (scan deepGenericLocal).1 4 (scan deepGenericLocal).2 none).2.diagnostics := by
    rw [deepGenericLocal, scan_ofList]
    decide +kernel
  exact hdiffer.2 (h deepGenericLocal 4 7 (by decide) hdiffer.1).2

end Parser

end CSharpFront
