import CSharpFront.Compilation
import CSharpFront.Proofs.Binding.InStepUnit
import CSharpFront.Proofs.Flow.InStep
import CSharpFront.Proofs.Parser.Coverage
import CSharpFront.Proofs.Parser.InStepDeclarations
/-!
What is reported does not depend on the layout. Two texts of the same tokens, whatever the gaps
between them, get the same diagnostics from every stage after the scanner, one by one; only the
places differ. Tokens in order are numbered, and the offsets of two texts correspond by the numbers
of their tokens.
-/

namespace CSharpFront

/-! ### Tokens by their numbers -/

namespace TokenStream.InOrder

variable {s : TokenStream} {i j : Nat}

theorem token_lt (hi : i < s.lastIndex) : s.token i = s.tokens[i] := by
  simp [TokenStream.token, List.getElem?_eq_getElem hi]

theorem start_lt_stop (h : s.InOrder) (hi : i < s.lastIndex) :
    (s.token i).start < (s.token i).stop := by
  rw [token_lt hi]
  exact h.tokens.start_lt_stop _ (List.getElem_mem hi)

theorem stop_le_start (h : s.InOrder) (hij : i < j) (hj : j ≤ s.lastIndex) :
    (s.token i).stop ≤ (s.token j).start := by
  rw [token_lt (Nat.lt_of_lt_of_le hij hj)]
  rcases Nat.lt_or_eq_of_le hj with hj | rfl
  · rw [token_lt hj]
    exact List.pairwise_iff_getElem.mp h.tokens.pairwise i j _ hj hij
  · rw [token_of_lastIndex_le (Nat.le_refl _)]
    exact h.stop_le _ (List.getElem_mem hij)

theorem start_lt_start (h : s.InOrder) (hij : i < j) (hj : j ≤ s.lastIndex) :
    (s.token i).start < (s.token j).start :=
  Nat.lt_of_lt_of_le (h.start_lt_stop (Nat.lt_of_lt_of_le hij hj)) (h.stop_le_start hij hj)

theorem start_inj (h : s.InOrder) (hi : i ≤ s.lastIndex) (hj : j ≤ s.lastIndex) :
    (s.token i).start = (s.token j).start ↔ i = j := by
  refine ⟨fun he => ?_, fun he => he ▸ rfl⟩
  rcases Nat.lt_trichotomy i j with hij | hij | hij
  · exact absurd he (Nat.ne_of_lt (h.start_lt_start hij hj))
  · exact hij
  · exact absurd he.symm (Nat.ne_of_lt (h.start_lt_start hij hi))

/-- A token starts before another stops if it does not come later; the end of file is empty. -/
theorem start_lt_stop_iff (h : s.InOrder) (hend : s.endOfFile.stop = s.endOfFile.start)
    (hi : i ≤ s.lastIndex) (hj : j ≤ s.lastIndex) :
    (s.token i).start < (s.token j).stop ↔ i ≤ j ∧ i < s.lastIndex := by
  rcases Nat.lt_or_eq_of_le hj with hlt | rfl
  · have hstop := h.start_lt_stop hlt
    rcases Nat.lt_trichotomy i j with hij | rfl | hij
    · have hstart := h.start_lt_start hij hj
      omega
    · omega
    · have hle := h.stop_le_start hij hi
      omega
  · have hlast := token_of_lastIndex_le (Nat.le_refl s.lastIndex)
    have hstop : (s.token s.lastIndex).stop = (s.token s.lastIndex).start := by rw [hlast, hend]
    rcases Nat.lt_or_eq_of_le hi with hlt | rfl
    · have hstart := h.start_lt_start hlt hj
      omega
    · omega

end TokenStream.InOrder

/-! ### Streams of the same tokens -/

/-- Two streams of the same tokens, apart from their places and from the line breaks between them,
where what makes a right shift in one makes one in the other. -/
structure TokenStream.SameTokens (s s' : TokenStream) : Prop where
  length_eq : s.tokens.length = s'.tokens.length
  kind (i : Nat) : (s.token i).kind = (s'.token i).kind
  text (i : Nat) : (s.token i).text = (s'.token i).text
  flags (i : Nat) : (s.token i).flags.inLine = (s'.token i).flags.inLine
  touching (i : Nat) : (s.token i).kind = .punct .greaterThan →
    (s.token (i + 1)).kind = .punct .greaterThan ∨
      (s.token (i + 1)).kind = .punct .greaterThanEquals →
    ((s.token (i + 1)).start = (s.token i).stop ↔ (s'.token (i + 1)).start = (s'.token i).stop)

namespace TokenStream.SameTokens

variable {s s' : TokenStream}

/-- Past its tokens a stream repeats its end. -/
theorem token_min (s : TokenStream) (i : Nat) :
    s.token (min i s.lastIndex) = s.token i ∧
      s.token (min i s.lastIndex + 1) = s.token (i + 1) := by
  rcases Nat.lt_or_ge i s.lastIndex with hi | hi
  · rw [Nat.min_eq_left (Nat.le_of_lt hi)]
    exact ⟨rfl, rfl⟩
  · rw [Nat.min_eq_right hi]
    have hle := Nat.le_refl s.lastIndex
    exact ⟨(token_of_lastIndex_le hle).trans (token_of_lastIndex_le hi).symm,
      (token_of_lastIndex_le (Nat.le_succ_of_le hle)).trans
        (token_of_lastIndex_le (Nat.le_succ_of_le hi)).symm⟩

/-- Finitely many numbers decide whether streams are of the same tokens. -/
theorem iff_forall_lt : s.SameTokens s' ↔ s.tokens.length = s'.tokens.length ∧
    ∀ i < s.lastIndex + 1, (s.token i).kind = (s'.token i).kind ∧
      (s.token i).text = (s'.token i).text ∧
      (s.token i).flags.inLine = (s'.token i).flags.inLine ∧
      ((s.token i).kind = .punct .greaterThan →
        (s.token (i + 1)).kind = .punct .greaterThan ∨
          (s.token (i + 1)).kind = .punct .greaterThanEquals →
        ((s.token (i + 1)).start = (s.token i).stop ↔
          (s'.token (i + 1)).start = (s'.token i).stop)) := by
  refine ⟨fun h => ⟨h.length_eq, fun i _ => ⟨h.kind i, h.text i, h.flags i, h.touching i⟩⟩, ?_⟩
  rintro ⟨hlength, h⟩
  have hlast : s.lastIndex = s'.lastIndex := hlength
  have hall (i : Nat) := h (min i s.lastIndex) (Nat.lt_succ_of_le (Nat.min_le_right ..))
  have htokens (i : Nat) := token_min s i
  have htokens' (i : Nat) := hlast ▸ token_min s' i
  simp only [(htokens _).1, (htokens _).2, (htokens' _).1, (htokens' _).2] at hall
  exact ⟨hlength, fun i => (hall i).1, fun i => (hall i).2.1, fun i => (hall i).2.2.1,
    fun i => (hall i).2.2.2⟩

instance (s s' : TokenStream) : Decidable (s.SameTokens s') := decidable_of_iff' _ iff_forall_lt

end TokenStream.SameTokens

/-- A stream as the scanner gives it. -/
structure TokenStream.Scanned (s : TokenStream) : Prop where
  inOrder : s.InOrder
  endOfFile : s.endOfFile.stop = s.endOfFile.start

theorem scanned_scan (text : String) : (scan text).1.Scanned := by
  obtain ⟨_, -, hin⟩ := scan_inOrder text
  obtain ⟨_, h⟩ := exists_divides_scan text
  refine ⟨hin, ?_⟩
  rw [Token.stop, Token.start, h.range]
  rfl

namespace TokenStream.SameTokens

variable {s s' : TokenStream}

theorem lastIndex_eq (h : s.SameTokens s') : s.lastIndex = s'.lastIndex := h.length_eq

/-- How the offsets in two texts of the same tokens correspond. -/
def relayout (h : s.SameTokens s') (hs : s.Scanned) (hs' : s'.Scanned) : Relayout where
  starts p p' := ∃ i ≤ s.lastIndex, p = (s.token i).start ∧ p' = (s'.token i).start
  stops q q' := q = 0 ∧ q' = 0 ∨ ∃ i ≤ s.lastIndex, q = (s.token i).stop ∧ q' = (s'.token i).stop
  lt_iff := by
    rintro _ _ _ _ ⟨i, hi, rfl, rfl⟩ (⟨rfl, rfl⟩ | ⟨j, hj, rfl, rfl⟩)
    · simp only [Nat.not_lt_zero]
    · have hlast := h.lastIndex_eq
      rw [hs.inOrder.start_lt_stop_iff hs.endOfFile hi hj,
        hs'.inOrder.start_lt_stop_iff hs'.endOfFile (hlast ▸ hi) (hlast ▸ hj), hlast]
  eq_iff := by
    rintro _ _ _ _ ⟨i, hi, rfl, rfl⟩ ⟨j, hj, rfl, rfl⟩
    have hlast := h.lastIndex_eq
    rw [hs.inOrder.start_inj hi hj, hs'.inOrder.start_inj (hlast ▸ hi) (hlast ▸ hj)]

variable (h : s.SameTokens s') (hs : s.Scanned) (hs' : s'.Scanned)

theorem relaid {i : Nat} (hi : i ≤ s.lastIndex) :
    (s.token i).Relaid (h.relayout hs hs') (s'.token i) where
  bare := by
    have hk := h.kind i
    have ht := h.text i
    have hf := h.flags i
    simp only [Token.bare, hk, ht, hf]
  start := ⟨i, hi, rfl, rfl⟩
  stop := .inr ⟨i, hi, rfl, rfl⟩

theorem endOfFile : s.endOfFile.Relaid (h.relayout hs hs') s'.endOfFile := by
  have hlast := h.relaid hs hs' (Nat.le_refl s.lastIndex)
  rw [token_of_lastIndex_le (Nat.le_refl _), h.lastIndex_eq,
    token_of_lastIndex_le (Nat.le_refl _)] at hlast
  exact hlast

theorem stops_endOfFile :
    (h.relayout hs hs').stops s.endOfFile.start s'.endOfFile.start := by
  rw [← hs.endOfFile, ← hs'.endOfFile]
  exact (h.endOfFile hs hs').stop

include h in
theorem joined? (i : Nat) : Operator.joined? (s.token i) (s.token (i + 1)) =
    Operator.joined? (s'.token i) (s'.token (i + 1)) := by
  have hfirst := h.kind i
  have hsecond := h.kind (i + 1)
  by_cases hk : (s.token i).kind = .punct .greaterThan
  · by_cases hu : (s.token (i + 1)).kind = .punct .greaterThan ∨
        (s.token (i + 1)).kind = .punct .greaterThanEquals
    · simp only [Operator.joined?, ← hfirst, ← hsecond, h.touching i hk hu]
    · have hnone {t u : Token} (hu : ¬ (u.kind = .punct .greaterThan ∨
          u.kind = .punct .greaterThanEquals)) : Operator.joined? t u = none := by
        unfold Operator.joined?
        split
        · split
          next hu' => exact absurd (.inl hu') hu
          next hu' => exact absurd (.inr hu') hu
          · rfl
        · rfl
      rw [hnone hu, hnone (hsecond ▸ hu)]
  · rw [Operator.joined?, Operator.joined?, if_neg fun hc => hk hc.1,
      if_neg fun hc => hk (hfirst.trans hc.1)]

theorem tokens : (h.relayout hs hs').Tokens s.tokens s'.tokens where
  each := by
    refine List.forall₂_iff_get.mpr ⟨h.length_eq, fun i hi hi' => ?_⟩
    have ht := h.relaid hs hs' (Nat.le_of_lt hi)
    rw [InOrder.token_lt hi, InOrder.token_lt hi'] at ht
    exact ht
  joints := by
    refine List.ext_getElem ?_ fun i hi hi' => ?_
    · simp [Operator.joints, h.length_eq]
    · simp only [Operator.joints, List.length_zipWith, List.length_tail, Nat.lt_min] at hi hi'
      have hj := h.joined? i
      rw [InOrder.token_lt (i := i) hi.1, InOrder.token_lt (i := i) hi'.1,
        InOrder.token_lt (s := s) (i := i + 1) (Nat.add_lt_of_lt_sub hi.2),
        InOrder.token_lt (s := s') (i := i + 1) (Nat.add_lt_of_lt_sub hi'.2)] at hj
      simp only [Operator.joints, List.getElem_zipWith, List.getElem_tail]
      exact hj

end TokenStream.SameTokens

/-! ### All stages -/

/-- What has been reported of a text after each stage. -/
structure Stages where
  scanned : Bag
  parsed : Bag
  bound : Bag
  walked : Bag

/-- Each stage after the scanner adds the same in both layouts. -/
structure Stages.Agree (s s' : Stages) : Prop where
  parser : AgreeAfter s.scanned s'.scanned s.parsed s'.parsed
  binder : AgreeAfter s.parsed s'.parsed s.bound s'.bound
  walk : AgreeAfter s.bound s'.bound s.walked s'.walked

/-- A compilation that keeps what has been reported after each stage. -/
def compileStages (text : String) (maxDepth : Nat) (polls : Polls) : Except Cancelled Stages :=
  let (stream, scanned) := scan text
  match Parser.parseUnit stream maxDepth scanned polls with
  | (.error e, _) => .error e
  | (.ok u, parsed) =>
    match bindUnit u parsed.diagnostics parsed.polls with
    | (.error e, _, _) => .error e
    | (.ok _, _, bound) =>
      .ok ⟨scanned.toList, parsed.diagnostics.toList, bound.state.diagnostics.toList,
        (Flow.unit ⟨stream, bound.isReferenced⟩ u bound.state.diagnostics).toList⟩

theorem compileText_eq_map (text : String) (maxDepth : Nat) (polls : Polls) :
    compileText text maxDepth polls = (compileStages text maxDepth polls).map Stages.walked := by
  unfold compileText compileStages
  dsimp only
  rcases Parser.parseUnit (scan text).1 maxDepth (scan text).2 polls with ⟨_ | u, parsed⟩
  · rfl
  · dsimp only
    rcases bindUnit u parsed.diagnostics parsed.polls with ⟨_ | _, _, bound⟩ <;> rfl

theorem AgreeAfter.trans {a a' b b' c c' : Bag} (hab : AgreeAfter a a' b b')
    (hbc : AgreeAfter b b' c c') : AgreeAfter a a' c c' := by
  obtain ⟨rs, rs', rfl, rfl, hrs⟩ := hab
  obtain ⟨ts, ts', rfl, rfl, hts⟩ := hbc
  exact ⟨rs ++ ts, rs' ++ ts', List.append_assoc .., List.append_assoc .., List.rel_append hrs hts⟩

/-- Options do not look at places. -/
theorem CompilerOptions.report?_agrees (o : CompilerOptions) {d d' : Diagnostic}
    (h : d.Agrees d') : Option.Rel Diagnostic.Agrees (o.report? d) (o.report? d') := by
  unfold CompilerOptions.report?
  rw [h.message]
  split
  · cases o.severity? d'.message with
    | none => exact .none
    | some severity => exact .some ⟨h.message, rfl, h.arguments⟩
  · exact .some h

theorem AgreeAfter.apply (o : CompilerOptions) {a a' b b' : Bag} (h : AgreeAfter a a' b b') :
    AgreeAfter (o.apply a) (o.apply a') (o.apply b) (o.apply b') := by
  obtain ⟨rs, rs', rfl, rfl, hrs⟩ := h
  exact ⟨_, _, List.filterMap_append, List.filterMap_append,
    List.rel_filterMap (fun _ _ hd => o.report?_agrees hd) hrs⟩

theorem Outcomes.imp {α β : Type} {rel rel' : α → β → Prop} {a : Except Cancelled α}
    {b : Except Cancelled β} (h : Outcomes rel a b) (hrel : ∀ a b, rel a b → rel' a b) :
    Outcomes rel' a b := by
  cases h with
  | ok h => exact .ok (hrel _ _ h)
  | error e => exact .error e

theorem Outcomes.map {α β γ δ : Type} {rel : α → β → Prop} {after : γ → δ → Prop} {f : α → γ}
    {g : β → δ} {a : Except Cancelled α} {b : Except Cancelled β} (h : Outcomes rel a b)
    (hf : ∀ a b, rel a b → after (f a) (g b)) : Outcomes after (a.map f) (b.map g) := by
  cases h with
  | ok h => exact .ok (hf _ _ h)
  | error e => exact .error e

/-- Places that correspond are among those of counterparts, or both are not. -/
theorem Relayout.contains_eq {l : Relayout} {ps ps' : List Nat} (h : List.Forall₂ l.starts ps ps')
    {p p' : Nat} (hp : l.starts p p') : ps.contains p = ps'.contains p' := by
  induction h with
  | nil => rfl
  | @cons q q' _ _ hq _ ih =>
    rw [List.contains_cons, List.contains_cons, ih, Bool.beq_eq_decide_eq, Bool.beq_eq_decide_eq,
      decide_eq_decide.mpr (l.eq_iff hp hq)]

theorem compileStages_agree {text text' : String}
    (h : (scan text).1.SameTokens (scan text').1) (maxDepth : Nat) (polls : Polls) :
    Outcomes (fun s s' => s.Agree s' ∧ s.scanned = (scan text).2.toList ∧
        s'.scanned = (scan text').2.toList)
      (compileStages text maxDepth polls) (compileStages text' maxDepth polls) := by
  have hs := scanned_scan text
  have hs' := scanned_scan text'
  let l := h.relayout hs hs'
  have hparse := Parser.parseUnit_inStep (l := ⟨l, (scan text).2, (scan text').2⟩) maxDepth polls
    (h.tokens hs hs') (h.endOfFile hs hs') (h.stops_endOfFile hs hs') (.inl ⟨rfl, rfl⟩)
  unfold compileStages
  dsimp only at hparse ⊢
  generalize Parser.parseUnit (scan text).1 maxDepth (scan text).2 polls = run,
    Parser.parseUnit (scan text').1 maxDepth (scan text').2 polls = run' at hparse ⊢
  rcases run with ⟨result, parsed⟩
  rcases run' with ⟨result', parsed'⟩
  obtain ⟨hresult, hparsed⟩ := hparse
  change Parser.State.Relaid _ parsed parsed' at hparsed
  rcases hresult with hu | e
  · have hbind := Binding.bindUnit_inStep (l := ⟨l, parsed.diagnostics, parsed'.diagnostics⟩) hu
      parsed.polls
    dsimp only at hbind ⊢
    rw [← hparsed.polls]
    generalize bindUnit _ parsed.diagnostics parsed.polls = run,
      bindUnit _ parsed'.diagnostics parsed.polls = run' at hbind ⊢
    rcases run with ⟨result, polls, bound⟩
    rcases run' with ⟨result', polls', bound'⟩
    obtain ⟨hresult, -, hbound⟩ := hbind
    change Binding.State.Relaid _ bound.state bound'.state at hbound
    rcases hresult with _ | e
    · have hcontext : Flow.Context.Relaid l ⟨(scan text).1, bound.isReferenced⟩
          ⟨(scan text').1, bound'.isReferenced⟩ :=
        ⟨Relayout.contains_eq hbound.referenced⟩
      have hwalked := Flow.unit_inStep
        (l := ⟨l, bound.state.diagnostics, bound'.state.diagnostics⟩) hcontext hu
      exact .ok ⟨⟨hparsed.diagnostics, hbound.diagnostics, hwalked⟩, rfl, rfl⟩
    · exact .error e
  · exact .error e

/-- Texts of the same tokens get the same diagnostics in any layout: from the parser, from the
binder and from the walk for what can be reached, one by one, with the same codes, severities and
arguments, and so again after the options have had their say. -/
theorem compileUnit_agrees (o : CompilerOptions) (polls : Polls) (file file' : String)
    {text text' : String} (h : (scan text).1.SameTokens (scan text').1) :
    Outcomes Stages.Agree (compileStages text o.depth polls) (compileStages text' o.depth polls) ∧
      Outcomes
        (fun bag bag' => AgreeAfter (scan text).2.toList (scan text').2.toList bag bag' ∧
          AgreeAfter (o.apply (scan text).2.toList) (o.apply (scan text').2.toList) (o.apply bag)
            (o.apply bag'))
        (compileUnit o polls file text).outcome (compileUnit o polls file' text').outcome := by
  have hstages := compileStages_agree h o.depth polls
  refine ⟨hstages.imp fun _ _ hs => hs.1, ?_⟩
  simp only [compileUnit, compileText_eq_map]
  refine hstages.map fun s s' ⟨hs, hscanned, hscanned'⟩ => ?_
  have hall : AgreeAfter s.scanned s'.scanned s.walked s'.walked :=
    (hs.parser.trans hs.binder).trans hs.walk
  rw [hscanned, hscanned'] at hall
  exact ⟨hall, hall.apply o⟩

/-- Line breaks and comments around a right shift, which has no spaces in it. -/
theorem compileUnit_agrees_shift :
    let text := "int a = true >> b; return; x: ;"
    let text' := "int a=true\n>>/* */b;return\n;x:;"
    (scan text).1.SameTokens (scan text').1 ∧
      Outcomes Stages.Agree (compileStages text maxParseDepth none)
        (compileStages text' maxParseDepth none) := by
  intro text text'
  have htokens : (scan text).1.SameTokens (scan text').1 := by
    rw [scan_ofList, scan_ofList]
    decide +kernel
  exact ⟨htokens, (compileUnit_agrees {} none "a" "b" htokens).1⟩

end CSharpFront
