import CSharpFront.Proofs.Parser.GrownExpressions
/-!
How statements grow. A variable whose name is missing begins where the text before it ends. Unless
it is the first of a declaration that also has no type, some of the declaration stands before it.
-/

namespace CSharpFront

attribute [local simp] Stmt.outline Stmt.outlines Block.outline

theorem Stmt.outlines_eq_flatMap (role : String) (ss : List Stmt) :
    Stmt.outlines role ss = ss.flatMap fun s => [s.outline role] := by
  induction ss with
  | nil => rfl
  | cons s ss ih => rw [outlines, ih, List.flatMap_cons, List.singleton_append]

namespace Parser

variable {last tok : Token} {start reports floor : Nat} {os : List Outline} {r : Rules}
  {m n : Moment} {t : TypeSyntax} {i : Identifier}

/-! ### Declarations of variables -/

/-- What is built from the name of a variable on is built from where the name stands. -/
theorem NameReadAt.grown_start {role : String} (hi : NameReadAt (m.next last) m.prevStop i n)
    (hm : m.Settled last) (hn : n.Settled last)
    (hg : Grown last (m.next last).start reports [i.outline role] n) :
    Grown last i.range.start reports [i.outline role] n ∧ m.prevStop ≤ i.range.start := by
  rcases hi with ⟨hstart, -⟩ | ⟨-, -, pos, hrange, hfloor, hpos⟩
  · rw [hstart]
    exact ⟨hg, hm.prevStop_le⟩
  · have hempty : (i.outline role).range = .emptyAt pos := hrange
    rw [hrange]
    refine ⟨hg.rebase ?_ (Nat.le_trans hpos hn.prevStop_le), hfloor⟩
    rw [hempty]
    exact Nat.le_refl pos

/-- A variable is built from where its name stands. -/
theorem steps_declarator (hr : r.Grow last) (i : Identifier) (role : String) :
    Steps last (Grown last i.range.start reports [i.outline "identifier"]) (declarator r i)
      fun d m => d.identifier = i ∧ d.range.start = i.range.start ∧
        Grown last i.range.start reports [d.outline role] m := by
  have hrest (e? : Option Expr) :
      Steps last (Grown last i.range.start reports
          ([i.outline "identifier"] ++ (e?.map (·.outline "initializer")).toList))
        (do return Declarator.mk (← rangeFrom i.range.start) i e?) fun d m =>
          d.identifier = i ∧ d.range.start = i.range.start ∧
            Grown last i.range.start reports [d.outline role] m := by
    refine steps_rangeFrom.bind fun range => .pure fun m _ ⟨hrange, hg⟩ => ?_
    have hstart : range.start = i.range.start := by rw [hrange]
    exact ⟨rfl, hstart, hg.node hrange rfl⟩
  refine .next (quiet_accept _) fun _ => .ite ?_ (hrest none)
  exact .add (grows_element hr "initializer") fun e => hrest (some e)

/-- A name that is read at a moment, with what is built from where it stands. -/
theorem steps_nameOfVariable (m : Moment) (hm : m.Settled last) :
    Steps last (· = m) identifier fun i n =>
      NameReadAt (m.next last) m.prevStop i n ∧
        Grown last (m.next last).start m.diagnostics.size [i.outline "identifier"] n ∧
        m.prevStop ≤ i.range.start ∧
        Grown last i.range.start m.diagnostics.size [i.outline "identifier"] n := by
  have h : Steps last (· = m) identifier fun i n => NameReadAt (m.next last) m.prevStop i n ∧
      Grown last (m.next last).start m.diagnostics.size [i.outline "identifier"] n := by
    refine (steps_identifier "identifier" (m.next last) m.prevStop).given fun m' _ h => ?_
    rw [h]
    exact ⟨rfl, Nat.le_refl _, .nil (Nat.le_refl _) fun _ => Nat.le_refl _⟩
  refine h.imp fun i n hn ⟨hi, hg⟩ => ?_
  obtain ⟨hg', hle⟩ := hi.grown_start hm hn hg
  exact ⟨hi, hg, hle, hg'⟩

/-- A variable after the first, which stands after a comma. -/
theorem late_declarator (hr : r.Grow last) (role : String) :
    Late last (do let identifier ← identifier; declarator r identifier)
      fun d => [d.outline role] := by
  refine fun start reports => .wherever fun m hm ⟨hle, hg⟩ => ?_
  have hname : Steps last (· = m) identifier fun i n => start ≤ i.range.start ∧
      Grown last i.range.start m.diagnostics.size [i.outline "identifier"] n :=
    (steps_nameOfVariable m hm).imp fun i n _ ⟨_, _, hfloor, hg⟩ => ⟨Nat.le_trans hle hfloor, hg⟩
  have hvariable : Steps last (· = m) (do let identifier ← identifier; declarator r identifier)
      fun d n => start ≤ d.range.start ∧
        Grown last d.range.start m.diagnostics.size [d.outline role] n := by
    refine hname.bind fun i => .wherever fun n _ ⟨hstart, hi⟩ => ?_
    refine ((steps_declarator hr i role).given fun _ _ h => h ▸ hi).imp fun d _ _ ⟨_, hd, hgd⟩ => ?_
    rw [hd]
    exact ⟨hstart, hgd⟩
  refine hvariable.since.imp fun d n _ ⟨m', _, h, hb, hstart, hgd⟩ => ?_
  subst h
  refine hgd.widen hstart fun hn => ?_
  have hcount := hg.counted (hb.not_tooDeep hn)
  rwa [Outline.allPlaceholders_nil, Nat.zero_add] at hcount

/-- What is known once the type of a declaration and the name of its first variable have been read:
the declaration begins at an offset, and the name stands after the type. It stands before that
offset only if both are missing. -/
def Named (last : Token) (start reports : Nat) (t : TypeSyntax) (i : Identifier) (n : Moment) :
    Prop :=
  start ≤ (n.next last).start ∧ (t.range.start < t.range.stop → start ≤ t.range.start) ∧
    (start ≤ i.range.start ∨ (t.outline "type").row.isMissing = true ∧ i.isMissing = true) ∧
    ∃ m first, m.Settled last ∧ m.Before last n ∧ first ≤ i.range.start ∧
      m.prevStop ≤ i.range.start ∧ Grown last first reports [t.outline "type"] m ∧
      Grown last i.range.start m.diagnostics.size [i.outline "identifier"] n

/-- The same once the first variable has been read. -/
structure Headed (last : Token) (start reports : Nat) (t : TypeSyntax) (d : Declarator)
    (n : Moment) : Prop where
  start_le : start ≤ (n.next last).start
  type_inside : t.range.start < t.range.stop → start ≤ t.range.start
  first_inside : start ≤ d.range.start ∨
    (t.outline "type").row.isMissing = true ∧ d.identifier.isMissing = true
  grown : ∃ first, Grown last first reports [t.outline "type", d.outline "declarator"] n

theorem steps_firstDeclarator (hr : r.Grow last) :
    Steps last (Named last start reports t i) (declarator r i) (Headed last start reports t) := by
  refine .wherever fun n hn ⟨hstart, htype, hinside, m, first, hm, hmn, hfirst, hprev, ht, hi⟩ => ?_
  have h : Steps last (· = n) (declarator r i) fun d n' => d.identifier = i ∧
      d.range.start = i.range.start ∧
      Grown last i.range.start m.diagnostics.size [d.outline "declarator"] n' :=
    (steps_declarator hr i "declarator").given fun _ _ h => h ▸ hi
  refine h.since.imp fun d n' _ ⟨_, _, h, hb, hname, hd, hg⟩ => ?_
  subst h
  refine ⟨Nat.le_trans hstart hb.next_le, htype, ?_, first, ?_⟩
  · rw [hname, hd]
    exact hinside
  · exact ht.append (hmn.trans hb) hg hfirst hprev

/-- A declaration over its type and its variables. -/
theorem Headed.node {d : Declarator} {more : List Outline} (h : Headed last start reports t d m)
    (hm : m.Settled last) (hb : m.Before last n)
    (hmore : Grown last (m.next last).start m.diagnostics.size more n) (role : String) :
    Grown last start reports [.node role .variableDeclaration (Grown.rangeAt start n) []
      (t.outline "type" :: d.outline "declarator" :: more)] n := by
  obtain ⟨first, hg⟩ := h.grown
  have hall : Grown last first reports (t.outline "type" :: d.outline "declarator" :: more) n :=
    hg.append hb hmore hg.start_le hm.prevStop_le
  have hstart : start ≤ (n.next last).start := Nat.le_trans h.start_le hb.next_le
  have hstop {o : Outline} (ho : o ∈ t.outline "type" :: d.outline "declarator" :: more)
      (hne : o.range.start < o.range.stop) : o.range.stop ≤ (Grown.rangeAt start n).stop :=
    Nat.le_trans (hall.within o ho hne).2 (Nat.le_max_left _ _)
  -- the first variable may be headless
  have hfirst : (d.outline "declarator").range.Inside (Grown.rangeAt start n) ∨
      Outline.Headless (.node role .variableDeclaration (Grown.rangeAt start n) []
        (t.outline "type" :: d.outline "declarator" :: more)) (d.outline "declarator") ∧
        (d.outline "declarator").range.stop ≤ (Grown.rangeAt start n).stop := by
    have hmem : d.outline "declarator" ∈ t.outline "type" :: d.outline "declarator" :: more :=
      List.mem_cons_of_mem _ List.mem_cons_self
    rcases Nat.lt_or_ge d.range.start d.range.stop with hne | hempty
    · refine h.first_inside.imp (fun hle _ => ⟨hle, hstop hmem hne⟩) fun ⟨ht, hi⟩ => ?_
      exact ⟨⟨rfl, _, _, _, _, rfl, ht, rfl, hi⟩, hstop hmem hne⟩
    · exact .inl fun hne => absurd hne (Nat.not_lt.mpr hempty)
  refine .single hstart rfl (Outline.fitsAll_mk.mpr ⟨⟨Nat.le_max_right _ _, ?_, ?_⟩, hall.fits⟩) ?_
  · refine List.forall_mem_cons.mpr ⟨.inl fun hne => ⟨?_, hstop List.mem_cons_self hne⟩,
      List.forall_mem_cons.mpr ⟨?_, fun o ho => .inl fun hne => ⟨?_, ?_⟩⟩⟩
    · rw [range_outline_type] at hne ⊢
      exact h.type_inside hne
    · exact hfirst
    · exact Nat.le_trans h.start_le (hmore.within o ho hne).1
    · exact hstop (List.mem_cons_of_mem _ (List.mem_cons_of_mem _ ho)) hne
  · exact hall.sorted.imp .inl
  · intro hd
    have hc := hall.counted hd
    rw [Outline.placeholders_mk]
    simpa [OutlineRow.isPlaceholder] using hc

theorem steps_declarators (hr : r.Grow last) (role : String) :
    Steps last (Named last start reports t i) (declarators r start t i)
      fun d => Grown last start reports [d.outline role] := by
  refine (steps_firstDeclarator hr).bind fun d => ?_
  refine (grows_afterCommas (late_declarator hr "declarator")).since.bind fun ds => ?_
  refine steps_rangeFrom.bind fun range => .pure fun n _ ⟨hrange, m, hm, hd, hb, hg⟩ => ?_
  have hnode := hd.node hm hb hg role
  rw [← hrange, ← List.map_eq_flatMap] at hnode
  exact hnode

/-- The name of the first variable after its type, where the type begins with a token. -/
theorem Typed.named (ht : Typed last tok floor reports t m) (hm : m.Settled last)
    (hb : m.Before last n) (hi : NameReadAt (m.next last) m.prevStop i n)
    (hprev : m.prevStop ≤ i.range.start)
    (hg : Grown last i.range.start m.diagnostics.size [i.outline "identifier"] n) :
    Named last tok.start reports t i n := by
  have hstart : tok.start ≤ (m.next last).start := (ht.grown "type").start_le
  refine ⟨Nat.le_trans hstart hb.next_le, ?_, ?_⟩
  · intro hne
    have hw := (ht.grown "type").within _ (List.mem_singleton_self _)
    rw [range_outline_type] at hw
    exact (hw hne).1
  · rcases ht with ht | ht
    · have hle : tok.start ≤ i.range.start := Nat.le_trans ht.start_le hprev
      exact ⟨.inl hle, m, tok.start, hm, hb, hle, hprev, ht.grown "type", hg⟩
    · obtain ⟨pos, rfl, -⟩ := ht.missing
      have hempty : ((TypeSyntax.missing pos).outline "type").range.stop ≤
        ((TypeSyntax.missing pos).outline "type").range.start := Nat.le_refl _
      have hgrown := (ht.grown "type").rebase hempty hm.prevStop_le
      refine ⟨?_, m, m.prevStop, hm, hb, hprev, hprev, hgrown, hg⟩
      refine hi.elim (fun hi => .inl (hi.1 ▸ hstart)) fun hi => .inr ⟨rfl, hi.2.1⟩

/-- The same of a declaration that begins with its type: where a type can begin, it is missing only
past the limit. -/
theorem Typed.named_range (ht : Typed last tok floor reports t m) (hk : tok.kind.beginsType = true)
    (hm : m.Settled last) (hb : m.Before last n) (hi : NameReadAt (m.next last) m.prevStop i n)
    (hprev : m.prevStop ≤ i.range.start)
    (hg : Grown last i.range.start m.diagnostics.size [i.outline "identifier"] n) :
    Named last t.range.start reports t i n := by
  have hnamed := Typed.named ht hm hb hi hprev hg
  rcases ht with ht | ht
  · rw [ht.start_eq]
    exact hnamed
  · obtain ⟨pos, rfl, -, -, hwhy⟩ := ht.missing
    obtain ⟨hd, rfl⟩ := hwhy.resolve_right (by simp [hk])
    obtain ⟨-, -, -, hrest⟩ := hnamed
    have hlast : m.prevStop = last.start := (hm.ended hd).2
    have hle : last.start ≤ i.range.start := hlast ▸ hprev
    refine ⟨?_, fun _ => Nat.le_refl _, .inl hle, hrest⟩
    have heq := hlast.symm.trans (Moment.prevStop_eq_of_tooDeep hm hd)
    exact Nat.le_trans (Nat.le_of_eq heq) hb.next_le

theorem grows_variableDeclaration (hr : r.Grow last) (role : String) :
    Grows last (variableDeclaration r) fun d => [d.outline role] := by
  refine .begin fun tok reports => ?_
  have htype : Steps last (fun m => m.next last = tok ∧ Grown last tok.start reports [] m)
      (r.type true) (Typed last tok 0 reports) :=
    (hr.type true tok 0 reports).given fun m _ h => ⟨h.1, Nat.zero_le _, h.2⟩
  refine htype.bind fun t => ?_
  have hname : Steps last (Typed last tok 0 reports t) identifier
      (Named last tok.start reports t) := by
    refine .wherever fun m hm ht => ?_
    refine (steps_nameOfVariable m hm).since.imp fun i n _ ⟨_, _, h, hb, hi, _, hprev, hg⟩ => ?_
    subst h
    exact ht.named hm hb hi hprev hg
  exact hname.bind fun i => steps_declarators hr role

theorem grows_localDeclaration (hr : r.Grow last) (role : String) :
    Grows last (localDeclaration r) fun s => [s.outline role] := by
  refine .starting fun t reports => .next quiet_get fun _ => .next (quiet_advanceBy _) fun _ => ?_
  refine .add (grows_variableDeclaration hr "declaration") fun _ => ?_
  exact .add (grows_eat "semicolon" _) fun _ => .node (fun _ => rfl) nofun

theorem quiet_startsLocalDeclaration : Quiet last startsLocalDeclaration :=
  quiet_of_moment_eq fun _ _ => rfl

/-! ### Expressions that stand alone -/

theorem quiet_checkStatementExpression (e : Expr) : Quiet last (checkStatementExpression e) :=
  .ite (.pure fun _ _ => id) quiet_report

theorem quiet_checkStatementExpressions (es : List Expr) :
    Quiet last (checkStatementExpressions es) := by
  induction es with
  | nil => exact .pure fun _ _ => id
  | cons e es ih => exact .next (quiet_checkStatementExpression e) fun _ => ih

theorem grows_expressionStatement (hr : r.Grow last) (role : String) :
    Grows last (expressionStatement r) fun s => [s.outline role] := by
  refine .starting fun t reports => .add (hr.expression "expression") fun e => ?_
  refine .add (grows_eat "semicolon" _) fun _ => ?_
  exact .next (quiet_checkStatementExpression e) fun _ => .node (fun _ => rfl) nofun

/-! ### Blocks -/

theorem quiet_skipToStatement : Quiet last skipToStatement :=
  .next quiet_advance fun _ => .next quiet_get fun _ => quiet_advanceBy _

theorem grows_blockStatement? (hr : r.Grow last) (role : String) :
    Grows last (blockStatement? r) fun s? => s?.elim [] fun s => [s.outline role] := by
  refine fun _ _ => .next quiet_currentKind fun _ => .ite (.pure fun _ _ => id) ?_
  refine .next quiet_get fun _ => .bind (hr.statement role _ _) fun s => .next quiet_get fun _ => ?_
  exact .ite (.next quiet_skipToStatement fun _ => .pure fun _ _ => id) (.pure fun _ _ => id)

theorem grows_block (hr : r.Grow last) (role : String) :
    Grows last (block r) fun b => [b.outline role] := by
  refine .starting fun t reports => .add (grows_eat "open" _) fun a => ?_
  refine .add (grows_many (grows_blockStatement? hr "statement")) fun ss => ?_
  refine .add (grows_eat "close" _) fun b => ?_
  exact .node (fun _ => by rw [Block.outline, Stmt.outlines_eq_flatMap]; rfl) (by nofun)

/-! ### Conditions and loops -/

theorem grows_condition (hr : r.Grow last) (role : String) :
    Grows last (condition r) fun e => [e.outline role] :=
  fun _ _ => .next (quiet_eat _) fun _ => .bind (hr.expression role _ _) fun _ =>
    .next (quiet_eat _) fun _ => .pure fun _ _ => id

theorem grows_ifStatement (hr : r.Grow last) (role : String) :
    Grows last (ifStatement r) fun s => [s.outline role] := by
  refine .starting fun t reports => .next (quiet_eat _) fun _ => ?_
  refine .add (grows_condition hr "condition") fun e => .add (hr.statement "statement") fun s => ?_
  have hrest (s? : Option Stmt) : Extends last t.start reports
      ([e.outline "condition", s.outline "statement"] ++ s?.elim [] fun s => [s.outline "else"])
      (do return Stmt.ifElse (← rangeFrom t.start) e s s?) fun s => [s.outline role] := by
    have hout (range : Range) : [Stmt.outline role (.ifElse range e s s?)] =
        [.node role .ifStatement range []
          ([e.outline "condition", s.outline "statement"] ++
            s?.elim [] fun s => [s.outline "else"])] := by
      cases s? <;> simp
    exact .node hout nofun
  refine .next (quiet_accept _) fun _ => ?_
  refine .iteBind (Grows.extends ?_) (.pure fun _ _ hg => by simpa using hg) hrest
  exact (hr.statement "else").map fun _ => rfl

theorem grows_whileStatement (hr : r.Grow last) (role : String) :
    Grows last (whileStatement r) fun s => [s.outline role] := by
  refine .starting fun t reports => .next (quiet_eat _) fun _ => ?_
  refine .add (grows_condition hr "condition") fun _ => .add (hr.statement "statement") fun _ => ?_
  exact .node (fun _ => rfl) nofun

theorem grows_doStatement (hr : r.Grow last) (role : String) :
    Grows last (doStatement r) fun s => [s.outline role] := by
  refine .starting fun t reports => .next (quiet_eat _) fun _ => ?_
  refine .add (hr.statement "statement") fun _ => ?_
  refine .next (quiet_eat _) fun _ => .add (grows_condition hr "condition") fun _ => ?_
  exact .next (quiet_eat _) fun _ => .node (fun _ => rfl) nofun

/-! ### The header of a `for` -/

theorem quiet_skipInList (expected : TokenKind) : Quiet last (skipInList expected) := by
  have hends : Quiet last (do return !endsList (← currentKind)) :=
    .next quiet_currentKind fun _ => .pure fun _ _ => id
  refine .next quiet_currentKind fun _ => .ite hends ?_
  refine .next (quiet_replace _) fun _ => .next quiet_get fun _ => ?_
  exact .next (quiet_advanceBy _) fun _ => hends

theorem quiet_listSeparator : Quiet last listSeparator :=
  .next quiet_currentKind fun _ =>
    .ite (quiet_replace _) (.next (quiet_eat _) fun _ => .pure fun _ _ => id)

theorem grows_forExpressionsRest (hr : r.Grow last) (allowSemicolon : Bool) (role : String) :
    Grows last (forExpressionsRest r allowSemicolon)
      fun es => es.flatMap fun e => [e.outline role] := by
  refine grows_gather fun start reports es => ?_
  refine .next quiet_currentKind fun _ => .ite (.pure fun _ _ => id) (.ite ?_ ?_)
  · refine .next quiet_listSeparator fun _ => .add (hr.expression role) fun e => ?_
    exact .pure fun _ _ hg => by simpa using hg
  · exact .next (quiet_skipInList _) fun _ => .ite (.pure fun _ _ => id) (.pure fun _ _ => id)

theorem grows_forExpressions (hr : r.Grow last) (allowSemicolon : Bool) (role : String) :
    Grows last (forExpressions r allowSemicolon)
      fun es => es.flatMap fun e => [e.outline role] := by
  intro start reports
  have hlist : Extends last start reports [] (do
      let first ← r.expression
      return first :: (← forExpressionsRest r allowSemicolon))
      fun es => es.flatMap fun e => [e.outline role] :=
    .add (hr.expression role) fun _ => .add (grows_forExpressionsRest hr allowSemicolon role)
      fun _ => .pure fun _ _ => id
  refine .next quiet_currentKind fun _ => .ite (.pure fun _ _ => id) (.ite hlist ?_)
  exact .next (quiet_skipInList _) fun _ => .ite hlist (.pure fun _ _ => id)

theorem grows_forInitializer? (hr : r.Grow last) (role : String) :
    Grows last (forInitializer? r) fun i? => i?.elim [] (·.outlines role) := by
  refine fun start reports => .next quiet_startsLocalDeclaration fun _ => .ite ?_ ?_
  · exact .bind (grows_variableDeclaration hr role _ _) fun _ => .pure fun _ _ => id
  refine .next quiet_currentKind fun _ => .ite (.pure fun _ _ => id) ?_
  refine .bind (grows_forExpressions hr false role _ _) fun es => .pure fun m _ hg => ?_
  cases es with
  | nil => exact hg
  | cons e es =>
    have hg : Grown last start reports ((e :: es).flatMap fun e => [e.outline role]) m := hg
    rw [← Expr.outlines_eq_flatMap] at hg
    exact hg

theorem grows_forSemicolon (role : String) : Grows last forSemicolon fun l => [l.outline role] :=
  fun _ _ => .next quiet_currentKind fun _ => .bind (grows_eat role _ _ _) fun _ =>
    .ite (.next quiet_advance fun _ => .pure fun _ _ => id) (.pure fun _ _ => id)

theorem grows_forCondition? (hr : r.Grow last) (role : String) :
    Grows last (forCondition? r) fun e? => (e?.map (·.outline role)).toList :=
  fun _ _ => .next quiet_currentKind fun _ => .ite (.pure fun _ _ => id)
    ((hr.expression role).map (fun _ => rfl) _ _)

theorem grows_forCloseParen (role : String) :
    Grows last forCloseParen fun l => [l.outline role] := by
  refine fun _ _ => .next (quiet_loop (fun _ => ?_) ()) fun _ => grows_eat role _ _ _
  refine .next quiet_currentKind fun _ => .ite ?_ (.pure fun _ _ => id)
  exact .next (quiet_replace _) fun _ => .pure fun _ _ => id

theorem grows_forHeader (hr : r.Grow last) : Grows last (forHeader r) ForHeader.outlines := by
  refine fun start reports => .add (grows_eat "for" _) fun w => ?_
  refine .add (grows_eat "openParen" _) fun o => ?_
  refine .add (grows_forInitializer? hr "initializer") fun i? => ?_
  refine .add (grows_forSemicolon "firstSemicolon") fun s => ?_
  refine .add (grows_forCondition? hr "condition") fun e? => ?_
  refine .add (grows_forSemicolon "secondSemicolon") fun s' => ?_
  let before : List Outline := [w.outline "for"] ++ [o.outline "openParen"] ++
    i?.elim [] (·.outlines "initializer") ++ [s.outline "firstSemicolon"] ++
    (e?.map (·.outline "condition")).toList ++ [s'.outline "secondSemicolon"]
  have hlast (es : List Expr) (o' : Leaf) :
      Extends last start reports
        (before ++ (es.flatMap fun e => [e.outline "incrementor"]) ++ [o'.outline "closeParen"])
        (do checkStatementExpressions es; return ForHeader.mk w o i? s e? s' es o')
        ForHeader.outlines := by
    refine .next (quiet_checkStatementExpressions _) fun _ => .pure fun m _ hg => ?_
    rw [ForHeader.outlines, Expr.outlines_eq_flatMap]
    cases i? <;> exact hg
  refine .next quiet_currentKind fun _ => ?_
  refine .iteBind (.pure fun _ _ hg => ?_) (grows_forExpressions hr true "incrementor").extends
    fun es => ?_
  · simpa using hg
  refine .add (grows_forCloseParen "closeParen") fun o' => ?_
  dsimp only
  split
  · exact .next (quiet_checkStatementExpressions _) fun _ => hlast es o'
  · exact hlast es o'

theorem grows_forStatement (hr : r.Grow last) (role : String) :
    Grows last (forStatement r) fun s => [s.outline role] :=
  .starting fun _ _ => .add (grows_forHeader hr) fun _ => .add (hr.statement "statement") fun _ =>
    .node (fun _ => rfl) nofun

/-! ### Jumps and labels -/

theorem grows_returnStatement (hr : r.Grow last) (role : String) :
    Grows last (returnStatement r) fun s => [s.outline role] := by
  refine .starting fun t reports => ?_
  have hrest (e? : Option Expr) :
      Extends last t.start reports (e?.map (·.outline "expression")).toList
        (do
          let _ ← eat (.punct .semicolon)
          return Stmt.returnValue (← rangeFrom t.start) e?) fun s => [s.outline role] :=
    .next (quiet_eat _) fun _ => .node (fun _ => rfl) nofun
  refine .next (quiet_eat _) fun _ => .next quiet_currentKind fun _ => ?_
  exact .iteBind (.pure fun _ _ => id) ((hr.expression "expression").map (fun _ => rfl) _ _) hrest

theorem steps_jump :
    Steps last (fun m => m.next last = tok ∧ Grown last tok.start reports [] m) jump
      fun range m => range = Grown.rangeAt tok.start m ∧ Grown last tok.start reports [] m :=
  .currentAt <| .drop <| .next quiet_advance fun _ => .next (quiet_eat _) fun _ => steps_rangeFrom

theorem grows_jump {f : Range → Stmt} (kind : NodeKind) {role : String}
    (hf : ∀ range, (f range).outline role = .node role kind range [] [])
    (hk : kind ≠ .incompleteMember) :
    Grows last (do return f (← jump)) fun s => [s.outline role] := by
  refine .of_next fun t reports => steps_jump.bind fun range => .pure fun m _ ⟨hrange, hg⟩ => ?_
  rw [hf, hrange]
  exact hg.node rfl (by simpa [OutlineRow.isPlaceholder] using hk)

theorem grows_gotoStatement (role : String) :
    Grows last gotoStatement fun s => [s.outline role] :=
  .starting fun _ _ => .next (quiet_eat _) fun _ => .add (grows_identifier "label") fun _ =>
    .next (quiet_eat _) fun _ => .node (fun _ => rfl) nofun

theorem grows_labeledStatement (hr : r.Grow last) (role : String) :
    Grows last (labeledStatement r) fun s => [s.outline role] :=
  .starting fun _ _ => .add (grows_identifier "label") fun _ => .next (quiet_eat _) fun _ =>
    .add (hr.statement "statement") fun _ => .node (fun _ => rfl) nofun

theorem grows_wordlessStatement (hr : r.Grow last) (role : String) :
    Grows last (wordlessStatement r) fun s => [s.outline role] :=
  fun _ _ => .next quiet_get fun _ => .ite (grows_labeledStatement hr role _ _) <|
    .next quiet_startsLocalDeclaration fun _ =>
      .ite (grows_localDeclaration hr role _ _) (grows_expressionStatement hr role _ _)

theorem grows_statementBody (hr : r.Grow last) (role : String) :
    Grows last (statementBody r) fun s => [s.outline role] := by
  refine .begin fun t reports => ?_
  split
  · exact .drop (.bind (grows_block hr role _ _) fun _ => .pure fun _ _ => id)
  · exact .take _ rfl rfl (.pure fun _ _ => id)
  · exact .drop (grows_ifStatement hr role _ _)
  · exact .drop (grows_whileStatement hr role _ _)
  · exact .drop (grows_doStatement hr role _ _)
  · exact .drop (grows_forStatement hr role _ _)
  · exact .drop (grows_returnStatement hr role _ _)
  · exact .drop (grows_jump .breakStatement (fun _ => rfl) nofun _ _)
  · exact .drop (grows_jump .continueStatement (fun _ => rfl) nofun _ _)
  · exact .drop (grows_gotoStatement role _ _)
  · exact .drop (grows_localDeclaration hr role _ _)
  · exact .drop (grows_wordlessStatement hr role _ _)

/-! ### All rules -/

/-- At the end of their bound the rules go past the limit. -/
theorem grows_refused {α : Type} {p : P α} {out : α → List Outline} (hp : Refuses last p out) :
    Grows last (do runOut; refuse; p) out :=
  fun start reports => .next quiet_runOut fun _ => steps_refuse.bind fun _ => hp start reports

theorem refuses_missingType : Steps last
    (fun m => m.tooDeep = true ∧ floor ≤ m.prevStop ∧ Grown last tok.start reports [] m)
    missingType (Typed last tok floor reports) := by
  refine .get fun s => .pure fun m hm ⟨hs, hd, hfloor, hg⟩ => .inr ⟨fun role => ?_, m.prevStop, ?_⟩
  · exact grown_refused hg hd (by rw [hs])
  · refine ⟨by rw [hs], hfloor, Nat.le_refl _, .inl ⟨hd, (hm.ended hd).2⟩⟩

theorem refuses_emptyStatement (role : String) :
    Refuses last emptyStatement fun s => [s.outline role] := by
  refine fun start reports => .get fun s => .pure fun m _ ⟨hm, hd, hg⟩ => ?_
  exact grown_refused hg hd (by rw [hm])

theorem refuses_pure {α : Type} {a : α} {out : α → List Outline} (h : out a = []) :
    Refuses last (pure a) out :=
  fun _ _ => .pure fun _ _ hg => h ▸ hg.2

theorem Rules.grow_none : Rules.none.Grow last where
  statement role := grows_refused (refuses_emptyStatement role)
  expression role := grows_refused (refuses_missingExpression role)
  unary role := grows_refused (refuses_missingExpression role)
  type _ _ _ _ := .given (.next quiet_runOut fun _ => steps_refuse.bind fun _ =>
    refuses_missingType) fun _ _ h => h.2
  binaryTail role role' _ _ _ _ _ := .next quiet_runOut fun _ => .next quiet_refuse fun _ =>
    steps_leaveWith _ _ role role'
  postfixTail role role' _ _ _ _ := .next quiet_runOut fun _ => .next quiet_refuse fun _ =>
    steps_leaveWith _ _ role role'
  elements _ := grows_refused (refuses_pure rfl)
  continuationBody _ := grows_refused (refuses_pure rfl)

/-- Whatever the bound, all that the rules build grows in the order of the text. -/
theorem rules_grow (n : Nat) : (rules n).Grow last := by
  induction n with
  | zero => exact Rules.grow_none
  | succ n ih =>
    exact
      { statement := fun role =>
          grows_nested (refuses_emptyStatement role) (grows_statementBody ih role)
        expression := fun role =>
          grows_nested (refuses_missingExpression role) (grows_expressionBody ih role)
        unary := fun role => grows_nested (refuses_missingExpression role) (grows_unaryBody ih role)
        type := fun withRanks tok floor reports => steps_nested
          (fun _ _ _ h => ⟨h.1, h.2.1, h.2.2.of_before (before_depth _ _)⟩)
          (fun _ _ h _ hb hd => ⟨hd, Nat.le_trans h.2.1 hb.prevStop_le, h.2.2.of_before hb⟩)
          refuses_missingType (steps_typeBody ih.type withRanks)
        binaryTail := fun role role' start reports levels least left =>
          steps_binaryTailBody ih levels least left role role'
        postfixTail := fun role role' start reports levels operand =>
          steps_postfixTailBody ih levels operand role role'
        elements := fun role => grows_nested (refuses_pure rfl) (grows_elementsBody ih role)
        continuationBody := fun role => grows_nested (refuses_pure rfl)
          ((grows_queryBody ih role).map fun _ => rfl) }

end Parser

end CSharpFront
