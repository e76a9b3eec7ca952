import CSharpFront.Proofs.Citations
import CSharpFront.Proofs.Lexer.LineFeeds
import CSharpFront.Proofs.Lexer.Scan
import CSharpFront.Proofs.Templates
/-!
The lines of a rendered unit. Each diagnostic that is printed ends one line, and no other line feeds
are printed than those of verbatim strings that stand where a member of a type should: their text is
cited as it is written, over as many lines.
-/

namespace CSharpFront

open Text (lineFeeds)

/-! ### Templates -/

/-- A place that is the only one of a template, with its argument. -/
theorem Template.fillChars_place (a : String) {cs ds : List Char} (hcs : '{' ∉ cs)
    (hds : '{' ∉ ds) :
    fillChars [a] (cs ++ '{' :: '0' :: '}' :: ds) = cs ++ a.toList ++ ds := by
  have hone : [a].length ≤ placeBound := by simp [placeBound]
  have hplace : fillChars [a] ('{' :: '0' :: '}' :: ds) = a.toList ++ fillChars [a] ds := by
    have hzero : Nat.ofDigitChars 10 ['0'] 0 = 0 := rfl
    simpa [Segment.written, Segment.filled, hzero] using
      fillChars_written_append hone (.place ['0'] (by decide) rfl) ds
  rw [fillChars_append hcs, hplace, fillChars_of_notMem hds, List.append_assoc]

/-! ### Diagnostics -/

theorem Message.isPlain_id (m : Message) : Text.isPlain m.id = true := by
  cases m <;> decide

theorem Message.isPlain_template (m : Message) : Text.isPlain m.template = true := by
  cases m
  case notStatementExpression | onlyExplicitConversion => decide +kernel
  all_goals exact Text.isPlain_of_eq rfl (by decide +kernel)

theorem Severity.isPlain_name (s : Severity) : Text.isPlain s.name = true := by
  cases s <;> decide

theorem wording_lineFeed : Wording fun s => '\n' ∉ s.toList where
  append hs ht := by simp [hs, ht]
  plain h := Text.lineFeed_notMem_of_isPlain h

namespace Diagnostic

variable {d : Diagnostic} {tokens : List Token}

theorem lineFeeds_join_of_worded (h : d.Worded fun s => '\n' ∉ s.toList) :
    lineFeeds (String.join d.arguments) = 0 := by
  refine Text.lineFeeds_eq_zero ?_
  rw [String.toList_join, List.mem_flatMap]
  rintro ⟨a, ha, hmem⟩
  exact h a ha hmem

theorem lineFeeds_text_of_citesMember (h : d.CitesMember tokens) :
    lineFeeds d.text = lineFeeds (String.join d.arguments) := by
  obtain ⟨t, -, harguments⟩ := h.arguments
  let after := "' in class, record, struct, or interface member declaration"
  have htemplate : Message.invalidMemberToken.template.toList =
      "Invalid token '".toList ++ '{' :: '0' :: '}' :: after.toList := by decide
  have htext : d.text = "Invalid token '" ++ t.text ++ after := by
    rw [Diagnostic.text, Template.fill, h.message, harguments, htemplate,
      Template.fillChars_place t.text (by decide) (by decide)]
    simp only [String.ofList_append, String.ofList_toList]
  have hbefore : lineFeeds "Invalid token '" = 0 := Text.lineFeeds_of_isPlain (by decide)
  have hafter : lineFeeds after = 0 := Text.lineFeeds_of_isPlain (by decide)
  rw [htext, harguments, Text.lineFeeds_append, Text.lineFeeds_append, hbefore, hafter]
  simp [String.join]

/-- The line feeds in the text of a diagnostic are those of its arguments. -/
theorem lineFeeds_text (h : d.Cites (fun s => '\n' ∉ s.toList) tokens) :
    lineFeeds d.text = lineFeeds (String.join d.arguments) := by
  rcases h with h | h
  · rw [lineFeeds_join_of_worded h, Diagnostic.text, Template.fill]
    refine Text.lineFeeds_eq_zero ?_
    rw [String.toList_ofList]
    exact Template.notMem_fillChars h _
      (Text.lineFeed_notMem_of_isPlain d.message.isPlain_template)
  · exact lineFeeds_text_of_citesMember h

theorem lineFeeds_renderAt {file : String} (hfile : '\n' ∉ file.toList) (lines : LineMap) :
    lineFeeds (d.renderAt (some file) lines) = lineFeeds d.text := by
  have hname := Text.lineFeeds_of_isPlain d.severity.isPlain_name
  have hid : lineFeeds d.id = 0 := Text.lineFeeds_of_isPlain d.message.isPlain_id
  have hdigits (n : Nat) : lineFeeds (toString n) = 0 := Text.lineFeeds_toString n
  have hself (s : String) : toString s = s := rfl
  have hsigns : lineFeeds "(" = 0 ∧ lineFeeds "," = 0 ∧ lineFeeds ")" = 0 ∧ lineFeeds ": " = 0 ∧
      lineFeeds " " = 0 := by decide
  obtain ⟨hopen, hcomma, hclose, hcolon, hblank⟩ := hsigns
  simp only [renderAt, render, LinePosition.render, Option.getD_some, Text.lineFeeds_append,
    hself, Text.lineFeeds_eq_zero hfile, hname, hid, hdigits, hopen, hcomma, hclose,
    hcolon, hblank, Nat.zero_add]

end Diagnostic

namespace Bag

variable {b : Bag} {tokens : List Token}

/-- A line for each diagnostic, and one more for each line feed that its arguments bring in. -/
theorem lineFeeds_render (h : ∀ d ∈ b, d.Cites (fun s => '\n' ∉ s.toList) tokens) {file : String}
    (hfile : '\n' ∉ file.toList) (lines : LineMap) :
    lineFeeds (b.render (some file) lines) =
      b.length + lineFeeds (String.join (b.flatMap Diagnostic.arguments)) := by
  induction b with
  | nil => rfl
  | cons d b ih =>
    obtain ⟨hd, hb⟩ := List.forall_mem_cons.mp h
    have hline : lineFeeds (d.renderAt (some file) lines ++ "\n") =
        lineFeeds (String.join d.arguments) + 1 := by
      rw [Text.lineFeeds_append, Diagnostic.lineFeeds_renderAt hfile, Diagnostic.lineFeeds_text hd]
      rfl
    have hlines : lineFeeds (render (d :: b) (some file) lines) =
        lineFeeds (d.renderAt (some file) lines ++ "\n") +
          lineFeeds (render b (some file) lines) := by
      simp only [render, List.map_cons, String.join_cons, Text.lineFeeds_append]
    have harguments : String.join ((d :: b).flatMap Diagnostic.arguments) =
        String.join d.arguments ++ String.join (b.flatMap Diagnostic.arguments) := by
      rw [List.flatMap_cons, String.join_append]
    rw [hlines, hline, ih hb, harguments, Text.lineFeeds_append, List.length_cons]
    omega

end Bag

/-! ### Units -/

namespace CompilerOptions

theorem cites_report? {o : CompilerOptions} {d e : Diagnostic} {ok : String → Prop}
    {tokens : List Token} (h : o.report? d = some e) (hd : d.Cites ok tokens) :
    e.Cites ok tokens := by
  unfold report? at h
  split at h
  · obtain ⟨severity, -, rfl⟩ := Option.map_eq_some_iff.mp h
    exact hd.imp id fun hmember => ⟨hmember.message, hmember.arguments⟩
  · obtain rfl := Option.some.inj h
    exact hd

end CompilerOptions

/-- What is printed about a text cites no line feeds, except with a token in the place of a member. -/
theorem cites_of_mem_visible (o : CompilerOptions) (polls : Polls) (file text : String) :
    ∀ d ∈ (compileUnit o polls file text).visible o,
      d.Cites (fun s => '\n' ∉ s.toList) (scan text).1.tokens := by
  obtain ⟨htokens, hscan⟩ := lineFeed_notMem_of_mem_scan text
  have hwords : ∀ t ∈ (scan text).1.tokens, Parser.literalKind? t.kind = none →
      '\n' ∉ t.text.toList := by
    intro t ht hliteral
    refine htokens t ht ?_
    cases hkind : t.kind <;> simp_all [Token.isVerbatimString, Parser.literalKind?]
  have hend : '\n' ∉ (scan text).1.endOfFile.text.toList := by
    obtain ⟨_, hdivides⟩ := exists_divides_scan text
    rw [hdivides.text]
    exact List.not_mem_nil
  intro d hd
  have hreported := (List.mem_filter.mp hd).1
  unfold UnitResult.reported compileUnit at hreported
  split at hreported
  next bag hbag =>
    obtain ⟨e, he, hreport⟩ := List.mem_filterMap.mp hreported
    exact CompilerOptions.cites_report? hreport
      (compileText_cites wording_lineFeed hwords hend hscan hbag e he)
  · cases hreported

/-- Each diagnostic that is printed ends a line, and nothing else ends one but the line feeds of a
verbatim string that stands where a member of a type should. -/
theorem lineFeeds_render_compileUnit (o : CompilerOptions) (polls : Polls) {file : String}
    (hfile : '\n' ∉ file.toList) (text : String) :
    let unit := compileUnit o polls file text
    lineFeeds (unit.render o) = (unit.visible o).length +
        lineFeeds (String.join ((unit.visible o).flatMap Diagnostic.arguments)) ∧
      ∀ d ∈ unit.visible o, lineFeeds (String.join d.arguments) ≠ 0 →
        d.message = .invalidMemberToken ∧
          ∃ t ∈ (scan text).1.tokens, t.isVerbatimString = true ∧ d.arguments = [t.text] := by
  have hcites := cites_of_mem_visible o polls file text
  refine ⟨Bag.lineFeeds_render hcites hfile _, fun d hd hfeeds => ?_⟩
  rcases hcites d hd with hworded | hmember
  · exact absurd (Diagnostic.lineFeeds_join_of_worded hworded) hfeeds
  obtain ⟨t, ht, harguments⟩ := hmember.arguments
  refine ⟨hmember.message, t, ht, ?_, harguments⟩
  by_contra hplain
  have hline := (lineFeed_notMem_of_mem_scan text).1 t ht (Bool.eq_false_iff.mpr hplain)
  refine hfeeds ?_
  rw [harguments]
  simpa [String.join] using Text.lineFeeds_eq_zero hline

/-- The file ends before the type is closed, and the member that it holds is a string over two
lines. -/
private theorem compileText_verbatimMember :
    compileText "class C\x7b@\"\n\"" maxParseDepth none =
      .ok [.of .invalidMemberToken ⟨8, 4⟩ ["@\"\n\""], .of .closeBraceExpected ⟨12, 0⟩] := by
  rw [compileText, scan_ofList]
  decide +kernel

private theorem visible_verbatimMember :
    (compileUnit {} none "a.cs" "class C\x7b@\"\n\"").visible {} =
      [.of .invalidMemberToken ⟨8, 4⟩ ["@\"\n\""], .of .closeBraceExpected ⟨12, 0⟩] := by
  have houtcome : (compileUnit {} none "a.cs" "class C\x7b@\"\n\"").outcome = .ok _ :=
    compileText_verbatimMember
  rw [UnitResult.visible, UnitResult.reported, houtcome]
  decide

/-- Two diagnostics on three lines. -/
theorem lineFeeds_render_verbatimMember :
    let text := "class C\x7b@\"\n\""
    '\n' ∉ "a.cs".toList ∧
      lineFeeds ((compileUnit {} none "a.cs" text).render {}) =
        ((compileUnit {} none "a.cs" text).visible {}).length +
          lineFeeds (String.join
            (((compileUnit {} none "a.cs" text).visible {}).flatMap Diagnostic.arguments)) ∧
      ((compileUnit {} none "a.cs" text).visible {}).length = 2 := by
  intro text
  have hfile : '\n' ∉ "a.cs".toList := by decide
  have hlines := (lineFeeds_render_compileUnit {} none hfile text).1
  refine ⟨hfile, hlines, ?_⟩
  rw [visible_verbatimMember]
  rfl

/-- Not every diagnostic takes a single line. -/
theorem not_lineFeeds_render_eq_length :
    ¬ ∀ (o : CompilerOptions) (file text : String), '\n' ∉ file.toList →
        lineFeeds ((compileUnit o none file text).render o) =
          ((compileUnit o none file text).visible o).length := by
  intro h
  let text := "class C\x7b@\"\n\""
  have hfile : '\n' ∉ "a.cs".toList := by decide
  have hlines := h {} "a.cs" text hfile
  have hrender : lineFeeds ((compileUnit {} none "a.cs" text).render {}) = _ :=
    Bag.lineFeeds_render (cites_of_mem_visible {} none "a.cs" text) hfile _
  rw [hrender, visible_verbatimMember] at hlines
  revert hlines
  decide

end CSharpFront
