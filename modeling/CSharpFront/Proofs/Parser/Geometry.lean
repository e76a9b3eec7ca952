import CSharpFront.Proofs.Parser.Coverage
import CSharpFront.Proofs.Parser.GrownDeclarations
/-!
Where the nodes of a whole tree stand, and how many of them were made up. Every part of a tree
covers its children in order, except where a declaration of variables has neither a type nor a first
name.
Unless the nesting limit is reported, the parser makes up no more than it reports.
-/

namespace CSharpFront.Parser

variable {stream : TokenStream} {before : Array Diagnostic} {polls : Polls} {u : CompilationUnit}
  {s : State}

/-- Nothing is left to cover at the end of a scanned text. -/
theorem stop_endOfFile_scan (text : String) :
    (scan text).1.endOfFile.stop = (scan text).1.endOfFile.start := by
  obtain ⟨ps, h⟩ := exists_divides_scan text
  rw [Token.stop, Token.start, h.range]
  rfl

theorem settled_start (ho : stream.InOrder) (hk : stream.endOfFile.kind = .endOfFile)
    (hs : stream.endOfFile.stop = stream.endOfFile.start) :
    (State.start stream before polls).toMoment.Settled stream.endOfFile :=
  ⟨hk, hs, ho, Nat.zero_le _, nofun⟩

/-- What has grown when a whole unit has been read. -/
theorem unitGrown_parseUnit (ho : stream.InOrder) (hk : stream.endOfFile.kind = .endOfFile)
    (hs : stream.endOfFile.stop = stream.endOfFile.start) {maxDepth : Nat}
    (h : parseUnit stream maxDepth before polls = (.ok u, s)) (role : String) :
    UnitGrown before.size role u s.toMoment := by
  have hsettled : (State.start stream before polls).toMoment.Settled stream.endOfFile :=
    settled_start ho hk hs
  have hnil : Grown stream.endOfFile 0 before.size []
      (State.start stream before polls).toMoment :=
    .nil (Nat.zero_le _) fun _ => Nat.le_refl _
  obtain ⟨-, -, hunit⟩ := steps_compilationUnit (maxDepth + 1) role (.of stream maxDepth)
    (.start stream before polls) rfl hsettled hnil
  have hrun : (compilationUnit (maxDepth + 1)).run (.of stream maxDepth)
      (.start stream before polls) = (.ok u, s) := h
  rw [hrun] at hunit
  exact hunit u rfl

/-- Every text is parsed to a tree of which each part fits its children. -/
theorem fits_parts_parseUnit (text : String) (maxDepth : Nat) :
    ∃ u s, parseUnit (scan text).1 maxDepth (scan text).2 none = (.ok u, s) ∧
      ∀ p ∈ (u.outline "unit").parts, p.Fits := by
  obtain ⟨hk, -, ho⟩ := scan_inOrder text
  obtain ⟨u, s, hrun⟩ := exists_parseUnit_eq (scan text).1 maxDepth (scan text).2
  have hgrown : UnitGrown (scan text).2.size "unit" u s.toMoment :=
    unitGrown_parseUnit ho hk (stop_endOfFile_scan text) hrun "unit"
  exact ⟨u, s, hrun, hgrown.fits⟩

/-- Not all children lie inside: in `const = 5;` the variable begins where `const` ends, and its
declaration begins at the `=`. -/
theorem not_inside_parts_parseUnit :
    ¬ ∀ (text : String) (maxDepth : Nat) (u : CompilationUnit),
      (parseUnit (scan text).1 maxDepth (scan text).2 none).1 = .ok u →
        ∀ p ∈ (u.outline "unit").parts, ∀ c ∈ p.children, c.range.Inside p.range := by
  intro h
  have hinside : (parseUnit (scan "const = 5;").1 9 (scan "const = 5;").2 none).1.toOption.map
      (fun u => (u.outline "unit").parts.all fun p =>
        p.children.all fun c => decide (c.range.Inside p.range)) = some false := by
    rw [scan_ofList]
    decide +kernel
  obtain ⟨u, s, hrun⟩ := exists_parseUnit_eq (scan "const = 5;").1 9 (scan "const = 5;").2
  rw [hrun] at hinside
  have hall := h "const = 5;" 9 u (congrArg Prod.fst hrun)
  have hfalse := Option.some.inj hinside
  rw [← Bool.not_eq_true, List.all_eq_true] at hfalse
  exact hfalse fun p hp => List.all_eq_true.mpr fun c hc => decide_eq_true (hall p hp c hc)

/-- Recovery is never silent: unless the nesting limit is reported (CS8078), no more rows of the
tree are made up than the parser has reported. -/
theorem placeholders_le_reports (text : String) (maxDepth : Nat) :
    ∃ u s reported, parseUnit (scan text).1 maxDepth (scan text).2 none = (.ok u, s) ∧
      s.diagnostics = (scan text).2 ++ reported ∧
      ((∀ d ∈ reported, d.code ≠ 8078) →
        ((u.outline "unit").rows 0).countP (·.2.isPlaceholder) ≤ reported.size) ∧
      (reported = #[] → ∀ row ∈ (u.outline "unit").rows 0, row.2.isPlaceholder = false) := by
  obtain ⟨hk, -, ho⟩ := scan_inOrder text
  obtain ⟨u, s, hrun⟩ := exists_parseUnit_eq (scan text).1 maxDepth (scan text).2
  have hgrown : UnitGrown (scan text).2.size "unit" u s.toMoment :=
    unitGrown_parseUnit ho hk (stop_endOfFile_scan text) hrun "unit"
  have hb : (scan text).1.tokens.length < (Env.of (scan text).1 maxDepth).budget :=
    Nat.lt_succ_self _
  have hlast : ((compilationUnit (maxDepth + 1)).run (.of (scan text).1 maxDepth)
      (.start (scan text).1 (scan text).2 none)).2 = s := congrArg Prod.snd hrun
  have hleads : Leads (.of (scan text).1 maxDepth) (.start (scan text).1 (scan text).2 none) s :=
    hlast ▸ (Call.unit.leads hk hb (ready_start (scan text).1 maxDepth (scan text).2 none)).1
  -- the limit was hit just if it was reported
  obtain ⟨ds, -, hreported⟩ := (hleads.life.1 s.toMoment List.mem_cons_self).2
  obtain ⟨reported, hds, hdeep⟩ : ∃ reported, s.diagnostics = (scan text).2 ++ reported ∧
      (s.tooDeep = true → ∃ d ∈ reported, d.code = 8078) := by
    rcases hreported with ⟨hlimit, hd⟩ | ⟨-, span, hd⟩
    · exact ⟨ds, hd, fun h => absurd h (by simp [hlimit])⟩
    · refine ⟨ds.push (.of .tooDeep span), by rw [hd, Array.append_push], fun _ => ?_⟩
      exact ⟨.of .tooDeep span, Array.mem_push_self, rfl⟩
  have hcount : ((u.outline "unit").rows 0).countP (·.2.isPlaceholder) =
      (u.outline "unit").placeholders := by
    have hrows := congrArg (List.countP OutlineRow.isPlaceholder)
      (Outline.map_row_parts 0 (u.outline "unit"))
    rw [List.countP_map, List.countP_map] at hrows
    exact hrows.symm
  have hle (h : ∀ d ∈ reported, d.code ≠ 8078) :
      ((u.outline "unit").rows 0).countP (·.2.isPlaceholder) ≤ reported.size := by
    have hcalm : s.tooDeep = false := Bool.eq_false_iff.mpr fun hd => by
      obtain ⟨d, hmem, hcode⟩ := hdeep hd
      exact h d hmem hcode
    have hsize := hgrown.counted hcalm
    rw [hds, Array.size_append] at hsize
    omega
  refine ⟨u, s, reported, hrun, hds, hle, fun hnone row hrow => ?_⟩
  have hzero : ((u.outline "unit").rows 0).countP (·.2.isPlaceholder) ≤ 0 := by
    simpa [hnone] using hle (by simp [hnone])
  have hnot := List.countP_eq_zero.mp (Nat.le_zero.mp hzero) row hrow
  simpa using hnot

end CSharpFront.Parser
