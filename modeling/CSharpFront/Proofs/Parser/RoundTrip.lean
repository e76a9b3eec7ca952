import CSharpFront.Parser.Declarations
import CSharpFront.Proofs.Parser.Exceeds
/-!
A printed expression is read again as the same tree, up to positions, where the nesting limit leaves
room for its levels; else the limit is reported.
-/

namespace CSharpFront.Parser

/-- What comes of an expression wherever it may stand: it is read if its levels are left there, and
else the limit is hit. -/
structure Settled (env : Env) (e : Expr) : Prop where
  spine : 13 ≤ e.tightness → ReadsSpine env e ∧ ExceedsSpine env e
  unary : 12 ≤ e.tightness → ReadsUnary env e ∧ ExceedsUnary env e
  chain : 0 < e.tightness → ReadsChain env e ∧ ExceedsChain env e
  whole : ReadsWhole env e ∧ ExceedsWhole env e

namespace Settled

variable {env : Env} {e : Expr}

theorem of_whole (htight : e.tightness = 0) (h : ReadsWhole env e) (hdeep : ExceedsWhole env e) :
    Settled env e where
  spine hle := by omega
  unary hle := by omega
  chain hlt := by omega
  whole := ⟨h, hdeep⟩

theorem of_chain (he : env.endOfFile.kind = .endOfFile) (hpos : 0 < e.tightness)
    (hlt : e.tightness < 12) (h : ReadsChain env e) (hdeep : ExceedsChain env e) :
    Settled env e where
  spine hle := by omega
  unary hle := by omega
  chain _ := ⟨h, hdeep⟩
  whole := ⟨readsWhole_of_chain he h hpos, exceedsWhole_of_chain hdeep hpos⟩

theorem of_unary (he : env.endOfFile.kind = .endOfFile) (htight : e.tightness = 12)
    (hoperators : e.operators = 0) (h : ReadsUnary env e) (hdeep : ExceedsUnary env e) :
    Settled env e :=
  have hchain := readsChain_of_unary h hoperators
  have hdeeper := exceedsChain_of_unary hdeep
  { spine := fun hle => by omega
    unary := fun _ => ⟨h, hdeep⟩
    chain := fun _ => ⟨hchain, hdeeper⟩
    whole := ⟨readsWhole_of_chain he hchain (by omega), exceedsWhole_of_chain hdeeper (by omega)⟩ }

theorem of_spine (he : env.endOfFile.kind = .endOfFile) (htight : e.tightness = 13)
    (hoperators : e.operators = 0) (h : ReadsSpine env e) (hdeep : ExceedsSpine env e) :
    Settled env e :=
  have hunary := readsUnary_of_spine he h
  have hchain := readsChain_of_unary hunary hoperators
  have hdeeper := exceedsUnary_of_spine hdeep
  have hdeepest := exceedsChain_of_unary hdeeper
  { spine := fun _ => ⟨h, hdeep⟩
    unary := fun _ => ⟨hunary, hdeeper⟩
    chain := fun _ => ⟨hchain, hdeepest⟩
    whole := ⟨readsWhole_of_chain he hchain (by omega), exceedsWhole_of_chain hdeepest (by omega)⟩ }

/-- By induction on the tree: an operand is read in the way that its place asks for, since it binds
tightly enough for that place. -/
theorem of_printable (he : env.endOfFile.kind = .endOfFile) (ha : env.inAsync = false)
    (h : e.Printable) : Settled env e := by
  induction h with
  | identifier hi =>
    exact of_spine he rfl rfl (readsSpine_identifier ha hi.isMissing) (exceedsSpine_of_reach rfl)
  | @literal l hl => exact of_spine he rfl rfl (readsSpine_literal ha l) (exceedsSpine_of_reach rfl)
  | thisWord r => exact of_spine he rfl rfl (readsSpine_thisWord ha r) (exceedsSpine_of_reach rfl)
  | parenthesized r h ih =>
    obtain ⟨hwhole, hdeep⟩ := ih.whole
    exact of_spine he rfl rfl (readsSpine_parenthesized ha h hwhole r)
      (exceedsSpine_parenthesized ha h hdeep r)
  | @binary r s l f q p hq _ _ hleft hright ihl ihf =>
    have htight := Expr.tightness_binary r s l f hq
    have hrank : p.rank ≤ 10 := by cases p <;> decide
    obtain ⟨hl, hdl⟩ := ihl.chain (by omega)
    obtain ⟨hf, hdf⟩ := ihf.chain (by omega)
    exact of_chain he (by omega) (by omega) (readsChain_binary he hl hf r s hq hleft hright)
      (exceedsChain_binary hl hdl hdf r s hq hleft hright)
  | assignment r s hq _ _ hleft ihl ihf =>
    obtain ⟨hl, hdl⟩ := ihl.chain hleft
    obtain ⟨hf, hdf⟩ := ihf.whole
    exact of_whole rfl (readsWhole_assignment he r s hq hl hf hleft)
      (exceedsWhole_assignment he r s hq hl hdl hdf hleft)
  | conditional r _ _ _ hcond ihc iht ihf =>
    obtain ⟨hc, hdc⟩ := ihc.chain hcond
    obtain ⟨ht, hdt⟩ := iht.whole
    obtain ⟨hf, hdf⟩ := ihf.whole
    exact of_whole rfl (readsWhole_conditional he r hc ht hf hcond)
      (exceedsWhole_conditional he r hc hdc ht hdt hdf hcond)
  | prefixUnary r s hq _ hoperand ih =>
    obtain ⟨h, hdeep⟩ := ih.unary hoperand
    exact of_unary he rfl rfl (readsUnary_prefixUnary h r s hq)
      (exceedsUnary_prefixUnary hdeep r s hq)
  | postfixUnary r s hq _ hoperand ih =>
    obtain ⟨h, hdeep⟩ := ih.spine hoperand
    exact of_spine he rfl rfl (readsSpine_postfixUnary h r s hq)
      (exceedsSpine_postfixUnary h hdeep r s hq)
  | memberAccess r s hq _ hi hoperand ih =>
    obtain ⟨h, hdeep⟩ := ih.spine hoperand
    exact of_spine he rfl rfl (readsSpine_memberAccess h r s hq hi.isMissing)
      (exceedsSpine_memberAccess h hdeep r s hq _)
  | invocation r _ has hoperand hname ih ihs =>
    obtain ⟨h, hdeep⟩ := ih.spine hoperand
    have hreads := fun a ha => (ihs a ha).whole.1
    have hexceeds := fun a ha => (ihs a ha).whole.2
    exact of_spine he rfl rfl (readsSpine_invocation he h r has hreads hname)
      (exceedsSpine_invocation he h hdeep r has hreads hexceeds hname)
  | elementAccess r _ has _ hoperand ih ihs =>
    obtain ⟨h, hdeep⟩ := ih.spine hoperand
    have hreads := fun a ha => (ihs a ha).whole.1
    have hexceeds := fun a ha => (ihs a ha).whole.2
    exact of_spine he rfl rfl (readsSpine_elementAccess he h r has hreads)
      (exceedsSpine_elementAccess he h hdeep r has hreads hexceeds)

end Settled

/-- The words of an expression are scanned as its tokens, without a report. -/
theorem before_print {e : Expr} (h : e.Printable) (maxDepth : Nat) (polls : Polls) :
    Before #[] (Env.of (scan (print e.words)).1 maxDepth) (maxDepth + 1) e.words
      (State.start (scan (print e.words)).1 (scan (print e.words)).2 polls) := by
  obtain ⟨hwritten, -, hreports⟩ := scan_print h.isWritten
  refine ⟨hwritten, ?_, ⟨rfl, hreports⟩, Nat.zero_add _, Nat.lt_succ_self _⟩
  have hchain := h.isOperand.chain
  rw [← hwritten.map_kind] at hchain
  exact hchain

/-- What an expression is printed as is read as this expression again, all of it and without a report,
if the nesting limit leaves room for its levels; if it does not, the limit is all that is reported. -/
theorem parseExpression_print {e : Expr} (h : e.Printable) (maxDepth : Nat) (polls : Polls) :
    let stream := scan (print e.words)
    let result := parseExpression (Env.of stream.1 maxDepth) (.start stream.1 stream.2 polls)
    (e.levels ≤ maxDepth →
      e.Alike result.1 ∧ result.2.rest = [] ∧ result.2.diagnostics = #[] ∧
        result.2.tooDeep = false) ∧
      (maxDepth < e.levels → ∃ span, result.2.diagnostics = #[.of .tooDeep span]) := by
  intro stream result
  have hend : stream.1.endOfFile.kind = .endOfFile := (scan_print h.isWritten).2.1
  have hsettled : Settled (Env.of stream.1 maxDepth) e := .of_printable hend rfl h
  obtain ⟨hwhole, hdeep⟩ := hsettled.whole
  have hbefore := before_print h maxDepth polls
  refine ⟨fun hfits => ?_, fun hexceeds => ?_⟩
  · have hreads := hwhole (maxDepth + 1) [] (Nat.lt_succ_of_le hfits) rfl
    rw [List.append_nil] at hreads
    obtain ⟨e', t, hrun, ht, halike⟩ := hreads #[] _ hbefore
    have hresult : result = (e', t) := hrun
    have hrest : t.rest = [] := by
      have hwritten := ht.written
      cases hrest : t.rest with
      | nil => rfl
      | cons u us => rw [hrest] at hwritten; cases hwritten
    rw [hresult]
    exact ⟨halike, hrest, ht.calm.2, ht.calm.1⟩
  · have hexceed := hdeep (maxDepth + 1) [] (Nat.succ_pos maxDepth) hexceeds rfl
    rw [List.append_nil] at hexceed
    obtain ⟨span, -, hreported⟩ := hexceed #[] _ hbefore
    exact ⟨span, hreported⟩

/-- The tree of `t = a[i++] >> 1 < b.c ? f(this) : (d) ?? -e`, without positions. -/
def sampleAssignment : Expr :=
  let r := Range.emptyAt 0
  let mark (q : Punctuator) : Leaf := ⟨.punct q, r, false⟩
  let name (s : String) : Identifier := ⟨s, r, false, false⟩
  let entry := Expr.elementAccess r (.identifier (name "a"))
    [.postfixUnary r (.identifier (name "i")) (mark .plusPlus)]
  let one := Expr.literal ⟨r, .numeric, "1", {}⟩
  let shifted := Expr.binary r entry (mark .greaterThanGreaterThan) one
  let field := Expr.memberAccess r (.identifier (name "b")) (mark .dot) (name "c")
  let called := Expr.invocation r (.identifier (name "f")) [.thisWord r]
  let other := Expr.binary r (.parenthesized r (.identifier (name "d"))) (mark .questionQuestion)
    (.prefixUnary r (mark .minus) (.identifier (name "e")))
  .assignment r (.identifier (name "t")) (mark .equals)
    (.conditional r (.binary r shifted (mark .lessThan) field) called other)

theorem printable_sampleAssignment : sampleAssignment.Printable := by
  let r := Range.emptyAt 0
  have hplain (s : String) (c : Char) (hs : s = String.ofList [c])
      (hc : Text.isIdentifierStart c = true) (hword : Keyword.ofText? s = none) :
      Identifier.IsPlain ⟨s, r, false, false⟩ :=
    ⟨rfl, ⟨c, [], hs ▸ String.toList_ofList, hc, nofun⟩, fun _ => hword⟩
  have hname (s : String) (c : Char) (hs : s = String.ofList [c])
      (hc : Text.isIdentifierStart c = true) (hword : Keyword.ofText? s = none) :
      Expr.Printable (.identifier ⟨s, r, false, false⟩) :=
    .identifier (hplain s c hs hc hword)
  have hone : Literal.IsClean ⟨r, .numeric, "1", {}⟩ :=
    ⟨⟨.numericLiteral, ⟨0, 1⟩, "1", {}⟩, by decide +kernel, by decide +kernel, rfl, rfl, rfl⟩
  have hindex := Expr.Printable.postfixUnary r r (.inl rfl) (hname "i" 'i' rfl rfl rfl) (by decide)
  have hentry := Expr.Printable.elementAccess r (hname "a" 'a' rfl rfl rfl)
    (List.forall_mem_singleton.mpr hindex) (List.cons_ne_nil _ _) (by decide)
  have hshifted := Expr.Printable.binary (q := .greaterThanGreaterThan) r r rfl hentry
    (.literal hone) (by decide) (by decide)
  have hfield := Expr.Printable.memberAccess r r (.inl rfl) (hname "b" 'b' rfl rfl rfl)
    (hplain "c" 'c' rfl rfl rfl) (by decide)
  have hcondition := Expr.Printable.binary (q := .lessThan) r r rfl hshifted hfield
    (by decide) (by decide)
  have hcalled := Expr.Printable.invocation r (hname "f" 'f' rfl rfl rfl)
    (List.forall_mem_singleton.mpr (.thisWord r)) (by decide) rfl
  have hnegated := Expr.Printable.prefixUnary (q := .minus) r r rfl (hname "e" 'e' rfl rfl rfl)
    (by decide)
  have hother := Expr.Printable.binary (q := .questionQuestion) r r rfl
    (.parenthesized r (hname "d" 'd' rfl rfl rfl)) hnegated (by decide) (by decide)
  exact .assignment r r rfl (hname "t" 't' rfl rfl rfl)
    (.conditional r hcondition hcalled hother (by decide)) (by decide)

/-- An assignment of a choice, with a right shift, an access and a call, under a limit that is just
enough for it and under one that is not. -/
theorem parseExpression_print_sample :
    sampleAssignment.Printable ∧ sampleAssignment.levels = 7 ∧
      (let stream := scan (print sampleAssignment.words)
      let result := parseExpression (Env.of stream.1 7) (.start stream.1 stream.2 none)
      sampleAssignment.Alike result.1 ∧ result.2.rest = [] ∧ result.2.diagnostics = #[] ∧
        result.2.tooDeep = false) ∧
      (let stream := scan (print sampleAssignment.words)
      let result := parseExpression (Env.of stream.1 6) (.start stream.1 stream.2 none)
      ∃ span, result.2.diagnostics = #[.of .tooDeep span]) :=
  have h := printable_sampleAssignment
  ⟨h, by decide, (parseExpression_print h 7 none).1 (by decide),
    (parseExpression_print h 6 none).2 (by decide)⟩

end CSharpFront.Parser
