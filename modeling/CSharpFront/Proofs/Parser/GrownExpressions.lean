import CSharpFront.Proofs.Parser.GrownSteps
/-!
How expressions grow. An operand becomes a part of the chain that goes on after it, so what such a
chain adds stands in its place. The brackets of a new array are both in its type and around its
sizes.
-/

namespace CSharpFront

attribute [local simp] Expr.outline Expr.outlines Initializer.outline FromClause.outline
  SortKey.outline SortKey.outlines QueryClause.outline QueryClause.outlines QueryEnding.outline
  QueryBody.outline Continuation.outline

theorem Expr.outlines_eq_flatMap (role : String) (es : List Expr) :
    Expr.outlines role es = es.flatMap fun e => [e.outline role] := by
  induction es with
  | nil => rfl
  | cons e es ih => rw [outlines, ih, List.flatMap_cons, List.singleton_append]

theorem SortKey.outlines_eq_flatMap (role : String) (ks : List SortKey) :
    SortKey.outlines role ks = ks.flatMap fun k => [k.outline role] := by
  induction ks with
  | nil => rfl
  | cons k ks ih => rw [outlines, ih, List.flatMap_cons, List.singleton_append]

theorem QueryClause.outlines_eq_flatMap (role : String) (qs : List QueryClause) :
    QueryClause.outlines role qs = qs.flatMap fun q => [q.outline role] := by
  induction qs with
  | nil => rfl
  | cons q qs ih => rw [outlines, ih, List.flatMap_cons, List.singleton_append]

namespace Parser

variable {last : Token} {start reports : Nat} {os : List Outline} {r : Rules} {role : String}

/-- What is known of rules about the trees that they build. -/
structure Rules.Grow (last : Token) (r : Rules) : Prop where
  statement (role : String) : Grows last r.statement fun s => [s.outline role]
  expression (role : String) : Grows last r.expression fun e => [e.outline role]
  unary (role : String) : Grows last r.unary fun e => [e.outline role]
  type : TypesGrow last r
  binaryTail (role role' : String) (start reports levels least : Nat) (left : Expr) :
    Extends last start reports [left.outline role] (r.binaryTail levels least start left)
      fun e => [e.outline role']
  postfixTail (role role' : String) (start reports levels : Nat) (operand : Expr) :
    Extends last start reports [operand.outline role] (r.postfixTail levels start operand)
      fun e => [e.outline role']
  elements (role : String) : Grows last r.elements fun es => es.flatMap fun e => [e.outline role]
  continuationBody (role : String) :
    Grows last r.continuationBody fun b? => b?.elim [] fun b => [b.outline role]

/-! ### Lists of expressions -/

theorem refuses_missingExpression (role : String) :
    Refuses last missingExpression fun e => [e.outline role] := by
  refine fun start reports => .get fun s => .pure fun m _ ⟨hm, hd, hg⟩ => ?_
  exact grown_refused hg hd (by rw [hm])

theorem grows_initializer (hr : r.Grow last) (role : String) :
    Grows last (initializer r) fun i => [i.outline role] := by
  refine .starting fun t reports => .next (quiet_eat _) fun _ => ?_
  refine .add (hr.elements "element") fun es => .next (quiet_eat _) fun _ => ?_
  have hout (range : Range) : [Initializer.outline role ⟨range, es⟩] =
      [.node role .arrayInitializerExpression range []
        (es.flatMap fun e => [e.outline "element"])] := by
    rw [Initializer.outline, Expr.outlines_eq_flatMap]
  exact .node hout nofun

theorem grows_element (hr : r.Grow last) (role : String) :
    Grows last (element r) fun e => [e.outline role] := by
  refine fun _ _ => .next quiet_currentKind fun _ => .ite ?_ (hr.expression role _ _)
  exact (grows_initializer hr role).map (fun _ => rfl) _ _

theorem grows_elementsBody (hr : r.Grow last) (role : String) :
    Grows last (elementsBody r) fun es => es.flatMap fun e => [e.outline role] := by
  refine grows_gather fun start reports es => ?_
  refine .next quiet_currentKind fun _ => .ite (.pure fun _ _ => id) ?_
  refine .add (grows_element hr role) fun e => .next (quiet_accept _) fun _ => ?_
  exact .ite (.pure fun _ _ hg => by simpa using hg) (.pure fun _ _ hg => by simpa using hg)

theorem grows_optionalInitializer (hr : r.Grow last) (role : String) :
    Grows last (optionalInitializer r) fun i? => i?.elim [] fun i => [i.outline role] :=
  fun _ _ => .next quiet_currentKind fun _ =>
    .ite ((grows_initializer hr role).map (fun _ => rfl) _ _) (.pure fun _ _ => id)

theorem grows_argument (hr : r.Grow last) (role : String) :
    Grows last (argument r) fun e => [e.outline role] :=
  fun _ _ => .next quiet_currentKind fun _ =>
    .ite (.next quiet_advance fun _ => hr.expression _ _ _) (hr.expression _ _ _)

theorem grows_arguments (hr : r.Grow last) (opening closing : Punctuator) (role : String) :
    Grows last (arguments r opening closing) fun es => es.flatMap fun e => [e.outline role] := by
  intro start reports
  have hlast (es : List Expr) :
      Steps last (Grown last start reports (es.flatMap fun e => [e.outline role]))
        (do let _ ← eat (.punct closing); return es)
        fun es => Grown last start reports (es.flatMap fun e => [e.outline role]) :=
    .next (quiet_eat _) fun _ => .pure fun _ _ => id
  refine .next (quiet_eat _) fun _ => .next quiet_currentKind fun _ => ?_
  exact .iteBind (.pure fun _ _ => id) (grows_separated (grows_argument hr role) _ _) hlast

/-! ### New arrays and objects -/

@[simp] theorem range_outline_type (t : TypeSyntax) (role : String) :
    (t.outline role).range = t.range := by
  cases t <;> rfl

/-- The type of a new array that spans its brackets, and the sizes in them. -/
structure Bracketed (last : Token) (start reports : Nat) (sizes : List Outline) (t : TypeSyntax)
    (m : Moment) : Prop where
  grown : Grown last start reports sizes m
  fits : (t.outline "type").FitsAll
  start_le : start ≤ t.range.start
  le_stop : t.range.start ≤ t.range.stop
  stop_le : t.range.stop ≤ m.prevStop
  counted : m.tooDeep = false →
    (t.outline "type").placeholders + Outline.allPlaceholders sizes + reports ≤ m.diagnostics.size

instance (sizes : List Outline) (t : TypeSyntax) :
    Upward last (Bracketed last start reports sizes t) where
  of_before h _ hb :=
    { h with
      grown := h.grown.of_before hb
      stop_le := Nat.le_trans h.stop_le hb.prevStop_le
      counted := fun hd => Nat.le_trans (h.counted (hb.not_tooDeep hd)) hb.size_le }

/-- One more pair of brackets around a type that spans brackets already, or is about to. -/
theorem Bracketed.array {sizes : List Outline} {t : TypeSyntax} {m : Moment} (rank : Nat)
    (h : Bracketed last start reports sizes t m) :
    Bracketed last start reports sizes (.array (Grown.rangeAt t.range.start m) t rank) m := by
  have hle : t.range.start ≤ m.prevStop := Nat.le_trans h.le_stop h.stop_le
  have hstop : max m.prevStop t.range.start = m.prevStop := Nat.max_eq_left hle
  refine ⟨h.grown, ?_, h.start_le, Nat.le_max_right _ _, Nat.le_of_eq hstop, fun hd => ?_⟩
  · have helement : (t.outline "element").FitsAll :=
      (t.alike_outline "type" "element").fitsAll h.fits
    refine Outline.fitsAll_mk.mpr ⟨.of_sorted (Nat.le_max_right _ _) ?_ ?_, ?_⟩
    · intro o ho _
      rw [List.mem_singleton.mp ho, range_outline_type]
      exact ⟨Nat.le_refl _, Nat.le_trans h.stop_le (Nat.le_max_left _ _)⟩
    · exact List.pairwise_singleton _ _
    · intro o ho
      rw [List.mem_singleton.mp ho]
      exact helement
  · have hc := h.counted hd
    have hsame :
        ((TypeSyntax.array (Grown.rangeAt t.range.start m) t rank).outline "type").placeholders =
        (t.outline "type").placeholders := by
      rw [TypeSyntax.outline, Outline.node, Outline.placeholders_mk,
        ← (t.alike_outline "type" "element").placeholders_eq]
      simp [OutlineRow.isPlaceholder]
    rwa [hsame]

/-- A new array over its type, its sizes and what follows its brackets. -/
theorem Bracketed.node {sizes more : List Outline} {t : TypeSyntax} {m n : Moment}
    (h : Bracketed last start reports sizes t m) (hsizes : ∀ o ∈ sizes, o.row.role = "size")
    (hm : m.Settled last) (hb : m.Before last n)
    (hmore : Grown last (m.next last).start m.diagnostics.size more n) (role : String) :
    Grown last start reports [.node role .arrayCreationExpression (Grown.rangeAt start n) []
      (t.outline "type" :: (sizes ++ more))] n := by
  have hrest : Grown last start reports (sizes ++ more) n :=
    h.grown.append hb hmore h.grown.start_le hm.prevStop_le
  have hstop : t.range.stop ≤ n.prevStop := Nat.le_trans h.stop_le hb.prevStop_le
  have hprev := hm.prevStop_le
  have hfits : Outline.Fits (.node role .arrayCreationExpression (Grown.rangeAt start n) []
      (t.outline "type" :: (sizes ++ more))) := by
    refine ⟨Nat.le_max_right _ _, ?_, List.pairwise_cons.mpr ⟨?_, hrest.sorted.imp .inl⟩⟩
    · refine List.forall_mem_cons.mpr ⟨.inl fun _ => ?_, fun o ho => .inl fun hne => ?_⟩
      · rw [range_outline_type]
        exact ⟨h.start_le, Nat.le_trans hstop (Nat.le_max_left _ _)⟩
      · obtain ⟨hstart, hle⟩ := hrest.within o ho hne
        exact ⟨hstart, Nat.le_trans hle (Nat.le_max_left _ _)⟩
    · refine List.forall_mem_append.mpr ⟨fun o ho => .inr ⟨rfl, ?_, hsizes o ho⟩, ?_⟩
      · cases t <;> rfl
      · refine fun o ho => .inl fun _ hne => ?_
        have hstart := (hmore.within o ho hne).1
        rw [range_outline_type]
        have hend := h.stop_le
        omega
  have hall : ∀ o ∈ t.outline "type" :: (sizes ++ more), o.FitsAll :=
    List.forall_mem_cons.mpr ⟨h.fits, hrest.fits⟩
  refine .single hrest.start_le rfl (Outline.fitsAll_mk.mpr ⟨hfits, hall⟩) fun hd => ?_
  have hfirst := h.counted (hb.not_tooDeep hd)
  have hsecond := hmore.counted hd
  rw [Outline.placeholders_mk]
  simp only [Outline.allPlaceholders_cons, Outline.allPlaceholders_append]
  simp [OutlineRow.isPlaceholder]
  omega

theorem grows_sizes (hr : r.Grow last) :
    Grows last (sizes r) fun s => s.1.flatMap fun e => [e.outline "size"] := by
  refine fun start reports => .bind (.loop (fun s : List Expr × Nat => Grown last start reports
    (s.1.reverse.flatMap fun e => [e.outline "size"])) (fun s => ?_) ([], 1)) fun _ =>
    .pure fun _ _ => id
  refine .next quiet_currentKind fun _ => .ite (.pure fun _ _ => id) (.ite ?_ ?_)
  · exact .next quiet_advance fun _ => .pure fun _ _ => id
  · refine .add (hr.expression "size") fun e => .next (quiet_accept _) fun _ => ?_
    exact .ite (.pure fun _ _ hg => by simpa using hg) (.pure fun _ _ hg => by simpa using hg)

/-- Before its brackets are left, the element type of a new array stands before the sizes. -/
theorem Bracketed.of_element {t : TypeSyntax} {sizes : List Outline} {m : Moment}
    (h : Grown last start reports (t.outline "type" :: sizes) m) (hs : start ≤ t.range.start)
    (hp : t.range.start ≤ m.prevStop) : Bracketed last start reports sizes t m := by
  have hfits := h.fits _ List.mem_cons_self
  have hself : t.outline "type" ∈ (t.outline "type").parts := by
    cases t.outline "type"
    rw [Outline.parts_mk]
    exact List.mem_cons_self
  have hle := (hfits _ hself).start_le_stop
  rw [range_outline_type] at hle
  refine ⟨h.sublist (List.sublist_cons_self _ _), hfits, hs, hle, ?_, fun hd => ?_⟩
  · rcases Nat.lt_or_ge t.range.start t.range.stop with hlt | hge
    · have hw := h.within _ List.mem_cons_self
      rw [range_outline_type] at hw
      exact (hw hlt).2
    · exact Nat.le_trans hge hp
  · exact h.counted hd

theorem role_outline (e : Expr) (role : String) : (e.outline role).row.role = role := by
  cases e with
  | initializer i =>
    obtain ⟨_, _⟩ := i
    rfl
  | _ => rfl

theorem steps_arrayCreationRest (hr : r.Grow last) (element : TypeSyntax) (role : String) :
    Steps last (TypeSince last start reports element) (arrayCreationRest r start element)
      fun e => Grown last start reports [e.outline role] := by
  refine .next (quiet_eat _) fun _ => ?_
  have hsizes : Steps last (TypeSince last start reports element) (sizes r) fun s =>
      Bracketed last start reports (s.1.flatMap fun e => [e.outline "size"]) element := by
    refine (grows_sizes hr).since.imp fun s n _ ⟨m, hm, ht, hb, hg⟩ => ?_
    have hall := (ht.grown "type").append hb hg (ht.grown "type").start_le hm.prevStop_le
    exact .of_element hall ht.start_le (Nat.le_trans ht.le_prevStop hb.prevStop_le)
  refine hsizes.bind fun ⟨es, rank⟩ => .next (quiet_eat _) fun _ => ?_
  have hrole : ∀ o ∈ es.flatMap fun e => [e.outline "size"], o.row.role = "size" := by
    intro o ho
    obtain ⟨e, -, ho⟩ := List.mem_flatMap.mp ho
    rw [List.mem_singleton.mp ho]
    exact role_outline e "size"
  -- each pair of brackets is added where the element type begins
  let inv (t : TypeSyntax) (m : Moment) : Prop := t.range.start = element.range.start ∧
    Bracketed last start reports (es.flatMap fun e => [e.outline "size"]) t m
  have hinv (t : TypeSyntax) : Upward last (inv t) := inferInstanceAs (Upward last fun _ => _ ∧ _)
  refine steps_rangeFrom.bind fun range => ?_
  have hranks : Steps last (inv (.array range element rank))
      (rankSpecifiers element.range.start (.array range element rank)) inv := by
    refine steps_rankSpecifiers (fun t rank m _ ⟨hstart, ht⟩ => ⟨rfl, ?_⟩) _
    rw [← hstart]
    exact ht.array rank
  refine .bind (hranks.given fun m _ ⟨hrange, ht⟩ => ?_) fun t => ?_
  · rw [hrange]
    exact ⟨rfl, ht.array rank⟩
  refine (grows_optionalInitializer hr "initializer").since.bind fun i? => ?_
  refine steps_rangeFrom.bind fun range => .pure fun n _ ⟨hrange, m, hm, ⟨_, ht⟩, hb, hg⟩ => ?_
  have hout : Expr.outline role (.arrayCreation range t es i?) =
      .node role .arrayCreationExpression range [] (t.outline "type" ::
        ((es.flatMap fun e => [e.outline "size"]) ++
          i?.elim [] fun i => [i.outline "initializer"])) := by
    cases i? <;> simp [Expr.outlines_eq_flatMap]
  rw [hout, hrange]
  exact ht.node hrole hm hb hg role

theorem grows_objectCreationRest (hr : r.Grow last) (type : TypeSyntax) (role : String) :
    Steps last (Grown last start reports [type.outline "type"]) (objectCreationRest r start type)
      fun e => Grown last start reports [e.outline role] := by
  have hrest (es? : Option (List Expr)) :
      Steps last (Grown last start reports ([type.outline "type"] ++
          es?.elim [] fun es => es.flatMap fun e => [e.outline "argument"]))
        (do
          let initializer? ← optionalInitializer r
          return Expr.objectCreation (← rangeFrom start) type es? initializer?)
        fun e => Grown last start reports [e.outline role] := by
    refine .add (grows_optionalInitializer hr "initializer") fun i? => ?_
    have hout (range : Range) : [Expr.outline role (.objectCreation range type es? i?)] =
        [.node role .objectCreationExpression range
          [if es?.isSome then "arguments" else "noArguments"]
          ([type.outline "type"] ++
            (es?.elim [] fun es => es.flatMap fun e => [e.outline "argument"]) ++
            i?.elim [] fun i => [i.outline "initializer"])] := by
      cases es? <;> cases i? <;> simp [Expr.outlines_eq_flatMap]
    exact .node hout nofun
  refine .next quiet_currentKind fun _ => .ite ?_ (hrest none)
  exact .add (grows_arguments hr _ _ "argument") fun es => hrest (some es)

/-- What `new` creates begins with that word. -/
theorem steps_creation (hr : r.Grow last) {t : Token} (ht : t.kind = .keyword .kwNew)
    (role : String) :
    Steps last (fun m => m.next last = t ∧ Grown last t.start reports [] m) (creation r)
      fun e => Grown last t.start reports [e.outline role] := by
  refine .currentAt ((steps_eat ht (by nofun)).bind fun _ => ?_)
  refine .next (quiet_accept _) fun _ => .ite (.drop ?_) ?_
  · refine .next quiet_get fun _ => .next (quiet_advanceBy _) fun _ => ?_
    refine .next (quiet_eat _) fun _ => ?_
    exact .add (grows_initializer hr "initializer") fun _ => .node (fun _ => rfl) nofun
  · refine (hr.type.since false).bind fun type => .next quiet_currentKind fun _ => ?_
    have hgrown : ∀ m, m.Settled last → TypeSince last t.start reports type m →
        Grown last t.start reports [type.outline "type"] m := fun _ _ h => h.grown "type"
    split
    · exact steps_arrayCreationRest hr type role
    · exact (grows_objectCreationRest hr type role).given hgrown
    · exact (grows_objectCreationRest hr type role).given hgrown
    · refine .given (.next quiet_expectedSpan fun _ => .next quiet_report fun _ => ?_) hgrown
      exact .node (fun _ => rfl) nofun

/-! ### Operands -/

theorem grows_invalidTerm (role : String) : Grows last invalidTerm fun e => [e.outline role] := by
  have hmissing (message : Message) (span : Span) (arguments : List String) :
      Grows last (do report message span arguments; missingExpression)
        fun e => [e.outline role] := by
    refine fun start reports => (steps_report _ _ _).bind fun _ => ?_
    exact .get fun s => .pure fun m _ ⟨hm, hg⟩ => grown_placeholder hg (by rw [hm])
  exact fun _ _ => .next quiet_current fun _ => .ite (hmissing _ _ _ _ _) (hmissing _ _ _ _ _)

theorem grows_primary (hr : r.Grow last) (role : String) :
    Grows last (primary r) fun e => [e.outline role] := by
  refine .begin fun t reports => ?_
  split
  next kind _ => exact .take _ rfl (by cases kind <;> rfl) (.pure fun _ _ => id)
  split
  · exact .take _ rfl rfl (.pure fun _ _ => id)
  split
  · let row : OutlineRow :=
      { role, kind := .node .identifierName, range := t.range
        isVerbatim := t.flags.verbatim, attributes := [t.text] }
    refine .take row rfl rfl ((steps_identifierOf t).bind fun i => .pure fun m _ ⟨hi, hg⟩ => ?_)
    rw [hi]
    exact hg
  · exact .take _ rfl rfl (.pure fun _ _ => id)
  · refine .drop (.next quiet_advance fun _ => .add (hr.expression "expression") fun _ => ?_)
    exact .next (quiet_eat _) fun _ => .node (fun _ => rfl) nofun
  next hk => exact steps_creation hr hk role
  · exact .drop (grows_invalidTerm role _ _)

theorem grows_castExpression (hr : r.Grow last) (role : String) :
    Grows last (castExpression r) fun e => [e.outline role] := by
  refine .starting fun t reports => .next (quiet_eat _) fun _ => ?_
  refine .add (hr.type.grows true "type") fun _ => .next (quiet_eat _) fun _ => ?_
  exact .add (hr.unary "expression") fun _ => .node (fun _ => rfl) nofun

theorem grows_unaryBody (hr : r.Grow last) (role : String) :
    Grows last (unaryBody r) fun e => [e.outline role] := by
  refine .starting fun t reports => .ite ?_ (.next quiet_read fun _ => .ite ?_ ?_)
  · exact .add grows_take fun _ => .add (hr.unary "operand") fun _ => .node (fun _ => rfl) nofun
  · refine .next quiet_advance fun _ => ?_
    exact .add (hr.unary "expression") fun _ => .node (fun _ => rfl) nofun
  refine .next quiet_read fun _ => .next quiet_get fun _ => ?_
  refine .ite (grows_castExpression hr role _ _) ?_
  exact .add (grows_primary hr role) fun e => hr.postfixTail role role _ _ _ e

/-- A chain goes on with what it has read so far in whatever role that is to play. -/
theorem Steps.operand {α : Type} {p : P α} {after : α → Moment → Prop} {e : Expr}
    (role role' : String)
    (hp : Steps last (Grown last start reports [e.outline role']) p after) :
    Steps last (Grown last start reports [e.outline role]) p after :=
  hp.given fun _ _ h => h.expr

theorem steps_postfixStep (hr : r.Grow last) (operand : Expr) (role role' : String) :
    Extends last start reports [operand.outline role] (postfixStep r start operand)
      fun e => [e.outline role'] := by
  have hmember : Extends last start reports [operand.outline role] (do
      let operator ← take
      let name ← identifier
      return Expr.memberAccess (← rangeFrom start) operand operator name)
      fun e => [e.outline role'] :=
    .operand role "expression" <| .add grows_take fun _ => .add (grows_identifier "name") fun _ =>
      .node (fun _ => rfl) nofun
  refine .next quiet_currentKind fun _ => ?_
  split
  · exact hmember
  · exact hmember
  · refine .operand role "expression" (.add (grows_arguments hr _ _ "argument") fun es => ?_)
    exact .node (fun _ => by rw [Expr.outline, Expr.outlines_eq_flatMap]; rfl) (by nofun)
  · refine .operand role "expression" (.add (grows_arguments hr _ _ "argument") fun es => ?_)
    exact .node (fun _ => by rw [Expr.outline, Expr.outlines_eq_flatMap]; rfl) (by nofun)
  · exact .operand role "operand" (.add grows_take fun _ => .node (fun _ => rfl) nofun)

/-- A chain ends with the operand that it has read. -/
theorem steps_leaveWith (levels : Nat) (e : Expr) (role role' : String) :
    Extends last start reports [e.outline role] (do leave levels; return e)
      fun e => [e.outline role'] :=
  .operand role role' (.next (quiet_leave _) fun _ => .pure fun _ _ => id)

theorem quiet_enter : Quiet last enter :=
  (steps_enter (fun _ _ _ => id) fun _ _ h _ _ _ => h).quiet

theorem steps_postfixTailBody (hr : r.Grow last) (levels : Nat) (operand : Expr)
    (role role' : String) :
    Extends last start reports [operand.outline role] (postfixTailBody r levels start operand)
      fun e => [e.outline role'] := by
  refine .next quiet_currentKind fun _ => .ite ?_ (steps_leaveWith _ _ _ _)
  refine .next quiet_enter fun _ => .ite ?_ (steps_leaveWith _ _ _ _)
  exact .bind (steps_postfixStep hr operand role role') fun e =>
    hr.postfixTail role' role' _ _ _ e

/-! ### Operators -/

theorem grows_binary (hr : r.Grow last) (least : Nat) (role : String) :
    Grows last (binary r least) fun e => [e.outline role] :=
  .starting fun _ _ => .add (hr.unary role) fun e => hr.binaryTail role role _ _ _ _ e

/-- An operator that is known to come next, of one token or of two, is taken as a leaf. -/
theorem steps_operator (o : Operator) :
    Steps last (fun m => Operator.next last m.rest = o ∧ Grown last start reports os m)
      (advanceBy o.width)
      fun _ => Grown last start reports (os ++ [o.leaf.outline "operator"]) := by
  refine .wherever fun m hm ⟨ho, hg⟩ => ?_
  have hone (hwidth : o.width = 1) (hrange : o.range = (m.next last).range) :
      Steps last (· = m) (advanceBy o.width) fun _ =>
        Grown last start reports (os ++ [o.leaf.outline "operator"]) := by
    rw [hwidth]
    refine steps_advance.bind fun _ => .pure ?_
    rintro _ - ⟨m', _, rfl, rfl⟩
    exact hg.leaf hm hrange rfl
  match hr : m.rest with
  | [] =>
    rw [hr] at ho
    exact hone (ho ▸ rfl) (by rw [← ho, Moment.next, hr]; rfl)
  | [t] =>
    rw [hr] at ho
    exact hone (ho ▸ rfl) (by rw [← ho, Moment.next, hr]; rfl)
  | t :: u :: ts =>
    have hnext : m.next last = t := by rw [Moment.next, hr]; rfl
    rw [hr, Operator.next] at ho
    split at ho
    next p hp =>
      rw [← ho]
      refine steps_advance.bind fun _ => steps_advance.bind fun _ => .pure ?_
      rintro _ hn ⟨_, hm', ⟨m', _, rfl, rfl⟩, rfl⟩
      have hb := hm.before_taken.trans hm'.before_taken
      have htaken : m'.taken.taken.prevStop = u.stop := by
        rw [Moment.taken_of_cons hr, Moment.taken_of_cons rfl]
      have htu : t.stop ≤ u.start := by
        have hin := hm.inOrder.tokens.pairwise
        rw [hr] at hin
        exact (List.pairwise_cons.mp hin).1 u List.mem_cons_self
      have hlt : ∀ v ∈ m'.rest, v.start < v.stop := hm.inOrder.tokens.start_lt_stop
      rw [hr] at hlt
      have ht := hlt t List.mem_cons_self
      have hu := hlt u (List.mem_cons_of_mem _ List.mem_cons_self)
      have hnil : Grown last t.start m'.diagnostics.size [] m'.taken.taken :=
        .nil (hnext ▸ hb.next_le) fun _ => hb.size_le
      have hleaf : Grown last t.start m'.diagnostics.size
          [Leaf.outline "operator" ⟨.punct p, ⟨t.start, u.stop⟩, false⟩] m'.taken.taken := by
        refine hnil.node ?_ rfl
        show Range.mk t.start u.stop = ⟨t.start, max m'.taken.taken.prevStop t.start⟩
        rw [htaken, Nat.max_eq_left (by omega)]
      exact hg.append hb hleaf (hnext ▸ hg.start_le) (hnext ▸ hm.prevStop_le)
    · exact hone (ho ▸ rfl) (by rw [← ho, hnext])

theorem steps_nextOperator? (least : Nat) {c : Moment → Prop} :
    Steps last c (nextOperator? least) fun found m =>
      (∀ o p, found = some (o, p) → Operator.next last m.rest = o) ∧ c m := by
  refine .read fun env he => .get fun s => ?_
  have hnone : Steps last (fun m => m = s.toMoment ∧ c m) (pure none) fun found m =>
      (∀ (o : Operator) (p : Precedence), found = some (o, p) → Operator.next last m.rest = o) ∧
        c m := .pure fun _ _ h => ⟨nofun, h.2⟩
  dsimp only
  split
  · refine .ite (.pure fun m _ ⟨hm, hc⟩ => ⟨?_, hc⟩) hnone
    rintro _ _ ⟨rfl, rfl⟩
    rw [hm, ← he]
  · exact hnone

/-- An operator is followed by what it is applied to. -/
theorem steps_binaryStep (hr : r.Grow last) (left : Expr) (o : Operator) (p : Precedence)
    (role role' : String) :
    Steps last (fun m => Operator.next last m.rest = o ∧
        Grown last start reports [left.outline role] m)
      (binaryStep r start left o p) fun e => Grown last start reports [e.outline role'] := by
  have htaken (role'' : String) : Steps last (fun m => Operator.next last m.rest = o ∧
        Grown last start reports [left.outline role] m) (advanceBy o.width)
      fun _ => Grown last start reports ([left.outline role''] ++ [o.leaf.outline "operator"]) :=
    Steps.given (steps_operator o) fun _ _ ⟨ho, hg⟩ => ⟨ho, hg.expr⟩
  rw [binaryStep]
  split
  · refine (htaken "expression").bind fun _ => .add (hr.type.grows true "type") fun t => ?_
    refine .node (fun _ => rfl) ?_
    rw [typeTestKind]
    split <;> nofun
  · refine (htaken "left").bind fun _ => .add (grows_binary hr _ "right") fun _ => ?_
    exact .node (fun _ => rfl) nofun

theorem steps_binaryTailBody (hr : r.Grow last) (levels least : Nat) (left : Expr)
    (role role' : String) :
    Extends last start reports [left.outline role] (binaryTailBody r levels least start left)
      fun e => [e.outline role'] := by
  refine (steps_nextOperator? least).bind fun found => ?_
  cases found with
  | none => exact .drop (steps_leaveWith _ _ _ _)
  | some found =>
    obtain ⟨o, p⟩ := found
    have henter : Steps last (fun m =>
        (∀ o' p', some (o, p) = some (o', p') → Operator.next last m.rest = o') ∧
          Grown last start reports [left.outline role] m) enter fun b m =>
        (b = true → Operator.next last m.rest = o ∧
          Grown last start reports [left.outline role] m) ∧
        (b = false → Grown last start reports [left.outline role] m) := by
      refine Steps.given (steps_enter (fun m d _ h => ⟨h.1, h.2.of_before (before_depth m d)⟩)
        fun _ _ h _ hb _ => h.2.of_before hb) fun _ _ h => ⟨h.1 o p rfl, h.2⟩
    refine henter.bind fun b => ?_
    cases b with
    | true =>
      refine .bind
        (.given (steps_binaryStep hr left o p role role') fun _ _ h => h.1 rfl) fun e => ?_
      exact hr.binaryTail role' role' _ _ _ _ e
    | false => exact .given (steps_leaveWith _ _ role role') fun _ _ h => h.2 rfl

theorem grows_conditional (hr : r.Grow last) (role : String) :
    Grows last (conditional r) fun e => [e.outline role] := by
  refine .starting fun t reports => .bind (grows_binary hr _ role _ _) fun e => ?_
  refine .next (quiet_accept _) fun _ => .ite (.operand role "condition" ?_) (.pure fun _ _ => id)
  refine .add (hr.expression "whenTrue") fun _ => .next (quiet_eat _) fun _ => ?_
  exact .add (hr.expression "whenFalse") fun _ => .node (fun _ => rfl) nofun

theorem grows_assignment (hr : r.Grow last) (role : String) :
    Grows last (assignment r) fun e => [e.outline role] := by
  refine .starting fun t reports => .bind (grows_conditional hr "left" _ _) fun e => ?_
  refine .read fun env he => .get fun s => ?_
  dsimp only
  split
  · refine .bind (.given (steps_operator _) fun m _ ⟨hm, hg⟩ => ⟨?_, hg⟩) fun _ => ?_
    · rw [hm, ← he]
    · exact .add (hr.expression "right") fun _ => .node (fun _ => rfl) nofun
  · exact .pure fun _ _ h => h.2.expr

/-! ### Queries -/

theorem grows_fromClause (hr : r.Grow last) (role : String) :
    Grows last (fromClause r) fun c => [c.outline role] := by
  have hrest (start reports : Nat) (type? : Option TypeSyntax) :
      Steps last (Grown last start reports (type?.map (·.outline "type")).toList)
        (do
          let identifier ← identifier
          let _ ← eat (.keyword .kwIn)
          let source ← r.expression
          return FromClause.mk (← rangeFrom start) type? identifier source)
        fun c => Grown last start reports [c.outline role] := by
    refine .add (grows_identifier "identifier") fun _ => .next (quiet_eat _) fun _ => ?_
    refine .add (hr.expression "expression") fun _ => ?_
    exact .node (fun _ => by rw [FromClause.outline, List.append_assoc]; rfl) (by nofun)
  refine .starting fun t reports => .next quiet_advance fun _ => .next quiet_get fun _ => ?_
  exact .ite (hrest _ _ none) (.add (hr.type.grows true "type") fun type => hrest _ _ (some type))

theorem grows_letClause (hr : r.Grow last) (role : String) :
    Grows last (letClause r) fun q => [q.outline role] := by
  refine .starting fun t reports => .next quiet_advance fun _ => ?_
  refine .add (grows_identifier "identifier") fun _ => ?_
  refine .next (quiet_eat _) fun _ => .add (hr.expression "expression") fun _ => ?_
  exact .node (fun _ => rfl) nofun

theorem grows_whereClause (hr : r.Grow last) (role : String) :
    Grows last (whereClause r) fun q => [q.outline role] :=
  .starting fun _ _ => .next quiet_advance fun _ => .add (hr.expression "condition") fun _ =>
    .node (fun _ => rfl) nofun

theorem grows_sortKey (hr : r.Grow last) (role : String) :
    Grows last (sortKey r) fun k => [k.outline role] := by
  refine .starting fun t reports => .add (hr.expression "expression") fun e => ?_
  have hmake (isDescending : Bool) : Extends last t.start reports [e.outline "expression"]
      (do return SortKey.mk (← rangeFrom t.start) e isDescending) fun k => [k.outline role] :=
    .node (fun _ => rfl) nofun
  refine .next quiet_current fun _ => ?_
  split
  · exact .next quiet_advance fun _ => hmake false
  · exact .next quiet_advance fun _ => hmake true
  · exact hmake false

theorem grows_orderByClause (hr : r.Grow last) (role : String) :
    Grows last (orderByClause r) fun q => [q.outline role] := by
  refine .starting fun t reports => .next quiet_advance fun _ => ?_
  refine .add (grows_separated (grows_sortKey hr "ordering")) fun ks => ?_
  exact .node (fun _ => by rw [QueryClause.outline, SortKey.outlines_eq_flatMap]; rfl) (by nofun)

theorem grows_queryClause? (hr : r.Grow last) (role : String) :
    Grows last (queryClause? r) fun q? => q?.elim [] fun q => [q.outline role] := by
  refine fun _ _ => .next quiet_current fun _ => ?_
  split
  · exact .bind (grows_fromClause hr role _ _) fun _ => .pure fun _ _ => id
  · exact .bind (grows_letClause hr role _ _) fun _ => .pure fun _ _ => id
  · exact .bind (grows_whereClause hr role _ _) fun _ => .pure fun _ _ => id
  · exact .bind (grows_orderByClause hr role _ _) fun _ => .pure fun _ _ => id
  · exact .pure fun _ _ => id

theorem grows_queryEnding (hr : r.Grow last) (role : String) :
    Grows last (queryEnding r) fun q => [q.outline role] := by
  refine .starting fun t reports => ?_
  split
  · refine .next quiet_advance fun _ => .add (hr.expression "expression") fun _ => ?_
    exact .node (fun _ => rfl) nofun
  · refine .next quiet_advance fun _ => .add (hr.expression "group") fun _ => ?_
    refine .next (quiet_eatContextual _) fun _ => .add (hr.expression "by") fun _ => ?_
    exact .node (fun _ => rfl) nofun
  · refine (steps_report _ _ _).bind fun _ => .get fun s => .pure fun m _ ⟨hm, hg⟩ => ?_
    exact grown_placeholder hg (by rw [hm])

theorem grows_continuation? (hr : r.Grow last) (role : String) :
    Grows last (continuation? r) fun k? => k?.elim [] fun k => [k.outline role] := by
  refine .starting fun t reports => .ite ?_ (.pure fun _ _ => id)
  refine .next quiet_advance fun _ => .add (grows_identifier "identifier") fun _ => ?_
  refine .add (hr.continuationBody "body") fun b? => ?_
  cases b? with
  | none => exact .pure fun _ _ hg => hg.sublist (List.nil_sublist _)
  | some b => exact .node (fun _ => rfl) nofun

theorem grows_queryBody (hr : r.Grow last) (role : String) :
    Grows last (queryBody r) fun b => [b.outline role] := by
  refine .starting fun t reports => .add (grows_many (grows_queryClause? hr "clause")) fun qs => ?_
  refine .add (grows_queryEnding hr "ending") fun e => ?_
  refine .add (grows_continuation? hr "continuation") fun k? => ?_
  have hout (range : Range) : [QueryBody.outline role ⟨range, qs, e, k?⟩] =
      [.node role .queryBody range [] ((qs.flatMap fun q => [q.outline "clause"]) ++
        [e.outline "ending"] ++ k?.elim [] fun k => [k.outline "continuation"])] := by
    cases k? <;> simp [QueryClause.outlines_eq_flatMap]
  exact .node hout nofun

theorem grows_query (hr : r.Grow last) (role : String) :
    Grows last (query r) fun e => [e.outline role] :=
  .starting fun _ _ => .add (grows_fromClause hr "clause") fun _ =>
    .add (grows_queryBody hr "body") fun _ => .node (fun _ => rfl) nofun

theorem grows_expressionBody (hr : r.Grow last) (role : String) :
    Grows last (expressionBody r) fun e => [e.outline role] :=
  fun _ _ => .next quiet_get fun _ => .ite (grows_query hr role _ _) (grows_assignment hr role _ _)

end Parser

end CSharpFront
