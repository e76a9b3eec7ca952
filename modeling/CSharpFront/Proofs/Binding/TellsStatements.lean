import CSharpFront.Proofs.Binding.Tells
/-!
What the binding of statements tells. The scopes around a statement hold the labels that their blocks
and statements declare, so that a name finds the first declaration in the nearest of them.
-/

namespace CSharpFront

/-! ### The names of statements -/

/-- The variables that a `for` declares. -/
def ForHeader.names (h : ForHeader) : List Identifier :=
  match h.initializer? with
  | some (.declaration d) => d.declarators.map (·.identifier)
  | some (.expressions _) | none => []

mutual

/-- The variables and labels of a statement. -/
def Stmt.names : Stmt → List Identifier
  | .block ⟨_, _, ss, _⟩ => Stmt.allNames ss
  | .localDeclaration _ _ d _ => d.declarators.map (·.identifier)
  | .ifElse _ _ s s? =>
    s.names ++
      match s? with
      | some s => s.names
      | none => []
  | .whileLoop _ _ s | .doLoop _ s _ => s.names
  | .forLoop _ h s => h.names ++ s.names
  | .goto _ l => [l]
  | .labeled _ l s => l :: s.names
  | .empty _ | .expression _ _ _ | .returnValue _ _ | .breakLoop _ | .continueLoop _ => []

def Stmt.allNames : List Stmt → List Identifier
  | [] => []
  | s :: ss => s.names ++ Stmt.allNames ss

end

/-- The labels directly before a statement are among its names. -/
theorem Stmt.labels_subset_names : (s : Stmt) → s.labels ⊆ s.names
  | .labeled _ _ s => List.cons_subset_cons _ (Stmt.labels_subset_names s)
  | .block _ | .empty _ | .localDeclaration .. | .expression .. | .ifElse .. | .whileLoop ..
  | .doLoop .. | .forLoop .. | .returnValue .. | .breakLoop _ | .continueLoop _ | .goto .. =>
    List.nil_subset _

theorem Stmt.flatMap_labels_subset_allNames (ss : List Stmt) :
    ss.flatMap Stmt.labels ⊆ Stmt.allNames ss := by
  induction ss with
  | nil => exact List.nil_subset _
  | cons s ss ih =>
    rw [List.flatMap_cons, Stmt.allNames]
    exact List.append_subset.mpr ⟨List.subset_append_of_subset_left _ s.labels_subset_names,
      List.subset_append_of_subset_right _ ih⟩

/-! ### Labels -/

theorem Identifier.first?_concat (ls : List Identifier) (l : Identifier) (name : String) :
    Identifier.first? (ls ++ [l]) name =
      (Identifier.first? ls name).or
        (if l.isMissing = false ∧ l.text = name then some l else none) := by
  unfold first?
  rw [List.find?_append]
  congr 1
  cases hl : l.isMissing <;> simp [hl]

namespace Binding

variable {ok : String → Prop} {c : Context}

/-- The places of labels that names find in a context. -/
def Context.Sees (c : Context) (around : List (List Identifier)) : Prop :=
  ∀ name, c.scopes.findLabel? name =
    (around.findSome? (Identifier.first? · name)).map (·.range.start)

/-- A context whose innermost scope holds labels of its own. -/
structure Context.SeesOwn (c : Context) (own : List Identifier) (around : List (List Identifier)) :
    Prop where
  own : ∀ name, c.scopes.inner.labels.lookup name =
    (Identifier.first? own name).map (·.range.start)
  around : ∀ name, c.scopes.outer.findSome? (·.labels.lookup name) =
    (around.findSome? (Identifier.first? · name)).map (·.range.start)

namespace Context

variable {own : List Identifier} {around : List (List Identifier)}

theorem SeesOwn.sees (h : c.SeesOwn own around) : c.Sees (own :: around) := by
  intro name
  show (c.scopes.inner :: c.scopes.outer).findSome? _ = _
  rw [List.findSome?_cons, List.findSome?_cons, h.own, h.around]
  cases Identifier.first? own name <;> rfl

theorem Sees.push (h : c.Sees around) : c.push.SeesOwn [] around := ⟨fun _ => rfl, h⟩

end Context

/-- A use of which nothing is reported, and to which no label is noted. -/
theorem Tells.silent {α : Type} {m : BindM α} {post : α → Prop} {use : LabelUse}
    (hr : use.reports = []) (hn : use.noted? = none) (hm : Says ok m post) :
    Tells ok [use] m post := by
  intro s
  obtain ⟨ha, ⟨ds, hds, hlabels, hworded⟩, hnoted⟩ := hm s
  refine ⟨ha, ⟨⟨ds, hds, ?_, hworded⟩, ?_⟩⟩
  · rw [hlabels, List.flatMap_singleton, hr, List.flatMap_nil]
  · rw [hnoted, List.filterMap_cons_none hn]

/-- A report about a label, which is all that comes of a use. -/
theorem tells_report {use : LabelUse} {message : Message} {span : Span} {arguments : List String}
    (hm : message.isOfLabel = true) (hr : use.reports = [.of message span arguments])
    (hn : use.noted? = none) (h : ∀ a ∈ arguments, ok a) :
    Tells ok [use] (report message span arguments) fun _ => True := by
  refine fun s => ⟨trivial, .push (d := .of message span arguments) h ?_ ?_⟩
  · rw [List.flatMap_singleton, hr, Diagnostic.of, hm]
    rfl
  · rw [List.filterMap_cons_none hn]
    rfl

variable {own : List Identifier} {around : List (List Identifier)}

/-- A label is declared unless its scope has one of its name, which stays the first. -/
theorem tells_declareLabel (hc : c.Worded ok) (h : c.SeesOwn own around) {l : Identifier}
    (hl : l.Worded ok) :
    Tells ok [.declaration ⟨l, own⟩] (declareLabel c l)
      fun c' => c'.Worded ok ∧ c'.SeesOwn (own ++ [l]) around := by
  unfold declareLabel
  by_cases hmissing : l.isMissing = true
  · rw [if_pos hmissing]
    refine .silent ?_ rfl (.pure ⟨hc, fun name => ?_, h.around⟩)
    · simp [LabelUse.reports, LabelDeclaration.isRepeated, hmissing]
    · rw [Identifier.first?_concat, h.own]
      simp [hmissing]
  have hpresent : l.isMissing = false := Bool.eq_false_iff.mpr hmissing
  rw [if_neg hmissing]
  have hown := h.own l.text
  unfold ScopeChain.declareLabel?
  cases hlookup : c.scopes.inner.labels.lookup l.text with
  | some place =>
    rw [hlookup] at hown
    obtain ⟨found, hfound, -⟩ := Option.map_eq_some_iff.mp hown.symm
    refine .last (tells_report rfl ?_ rfl (List.forall_mem_singleton.mpr (hl hpresent)))
      fun _ _ => .pure ⟨hc, fun name => ?_, h.around⟩
    · simp [LabelUse.reports, LabelDeclaration.isRepeated, hpresent, hfound]
    · rw [Identifier.first?_concat, h.own]
      by_cases hname : l.text = name
      · rw [← hname, hfound]
        rfl
      · simp [hname]
  | none =>
    rw [hlookup] at hown
    have hnone := Option.map_eq_none_iff.mp hown.symm
    refine .silent ?_ rfl (.pure ⟨hc.withScopes hc.scopes, fun name => ?_, h.around⟩)
    · simp [LabelUse.reports, LabelDeclaration.isRepeated, hnone]
    · show ((l.text, l.range.start) :: c.scopes.inner.labels).lookup name = _
      rw [Identifier.first?_concat, List.lookup_cons]
      by_cases hname : name = l.text
      · rw [hname, hnone]
        simp [hpresent]
      · rw [beq_eq_false_iff_ne.mpr hname, h.own]
        simp [Ne.symm hname]

theorem tells_foldlM_declareLabel (ls : List Identifier) (hls : ∀ l ∈ ls, l.Worded ok)
    (hc : c.Worded ok) (h : c.SeesOwn own around) :
    Tells ok (LabelUse.declarations own ls) (ls.foldlM declareLabel c)
      fun c' => c'.Worded ok ∧ c'.SeesOwn (own ++ ls) around := by
  induction ls generalizing c own with
  | nil =>
    rw [List.append_nil]
    exact .pure ⟨hc, h⟩
  | cons l ls ih =>
    obtain ⟨hl, hls⟩ := List.forall_mem_cons.mp hls
    rw [List.foldlM_cons]
    have hboth := (tells_declareLabel hc h hl).bind fun c' hc' => ih hls hc'.1 hc'.2
    rwa [List.append_assoc] at hboth

/-- The labels before some statements are declared in the innermost scope. -/
theorem tells_declareLabels {ss : List Stmt} (hss : ∀ i ∈ Stmt.allNames ss, i.Worded ok)
    (hc : c.Worded ok) (h : c.SeesOwn [] around) :
    Tells ok (LabelUse.declarations [] (ss.flatMap Stmt.labels)) (declareLabels c ss)
      fun c' => c'.Worded ok ∧ c'.SeesOwn (ss.flatMap Stmt.labels) around :=
  tells_foldlM_declareLabel _ (fun l hl => hss l (Stmt.flatMap_labels_subset_allNames ss hl)) hc h

/-- The labels before a statement that is part of another are in its sight. -/
theorem tells_embed {s : Stmt} (hs : ∀ i ∈ s.names, i.Worded ok) (hc : c.Worded ok)
    (h : c.Sees around) :
    Tells ok (LabelUse.declarations [] s.labels) (embed c s)
      fun c' => c'.Worded ok ∧ c'.Sees (s.labels :: around) := by
  have hnames : ∀ i ∈ Stmt.allNames [s], i.Worded ok := by
    rwa [Stmt.allNames, Stmt.allNames, List.append_nil]
  have hdeclare := tells_declareLabels hnames hc.push h.push
  rw [List.flatMap_singleton] at hdeclare
  cases s with
  | block b => exact .pure ⟨hc, h⟩
  | _ => exact hdeclare.imp fun _ hc' => ⟨hc'.1, hc'.2.sees⟩

theorem tells_goto (h : c.Sees around) {l : Identifier} (hl : l.Worded ok) :
    Tells ok [.goto ⟨l, around⟩] (goto c l) fun _ => True := by
  unfold goto
  by_cases hmissing : l.isMissing = true
  · rw [if_pos hmissing]
    refine .silent ?_ ?_ (.pure trivial)
    · simp [LabelUse.reports, Goto.isLost, hmissing]
    · simp [LabelUse.noted?, Goto.target?, hmissing]
  have hpresent : l.isMissing = false := Bool.eq_false_iff.mpr hmissing
  rw [if_neg hmissing, h]
  cases hfound : around.findSome? (Identifier.first? · l.text) with
  | none =>
    refine tells_report rfl ?_ ?_ (List.forall_mem_singleton.mpr (hl hpresent))
    · simp [LabelUse.reports, Goto.isLost, Goto.target?, hpresent, hfound]
    · simp [LabelUse.noted?, Goto.target?, hfound]
  | some found =>
    refine fun s => ⟨trivial, ⟨⟨[], (List.append_nil _).symm, ?_, List.forall_mem_nil _⟩, ?_⟩⟩
    · simp [LabelUse.reports, Goto.isLost, Goto.target?, hpresent, hfound]
    · simp [LabelUse.noted?, Goto.target?, hpresent, hfound]
      rfl

/-! ### Variables -/

/-- A context after a statement: with the same labels in sight. -/
structure Context.After (ok : String → Prop) (c c' : Context) : Prop where
  worded : c'.Worded ok
  labels : ∀ name, c'.scopes.findLabel? name = c.scopes.findLabel? name

theorem Context.Worded.after (hc : c.Worded ok) : c.After ok c := ⟨hc, fun _ => rfl⟩

theorem Context.After.trans {c' c'' : Context} (h : c.After ok c') (h' : c'.After ok c'') :
    c.After ok c'' :=
  ⟨h'.worded, fun name => (h'.labels name).trans (h.labels name)⟩

theorem Context.Sees.after {c' : Context} (hs : c.Sees around) (h : c.After ok c') :
    c'.Sees around :=
  fun name => (h.labels name).trans (hs name)

theorem says_declare (hc : c.Worded ok) {i : Identifier} (hi : i.Worded ok) {t : Ty}
    (ht : t.Worded ok) : Says ok (c.declare i t) (c.After ok ·) := by
  refine .ite (fun _ => .pure hc.after) fun hpresent => ?_
  split
  next scopes hs =>
    obtain ⟨-, rfl⟩ := ScopeChain.declareLocal?_eq_some_iff.mp hs
    exact .pure ⟨hc.withScopes (hc.scopes.shadow i.text ht),
      fun name => ScopeChain.findLabel?_shadow ..⟩
  · have harguments := List.forall_mem_singleton.mpr (hi (Bool.eq_false_iff.mpr hpresent))
    exact .next (says_report rfl _ harguments) fun _ _ => .pure hc.after

theorem says_inferredType (hc : c.Worded ok) (e? : Option Expr) :
    Says ok (inferredType c e?) (·.Worded ok) := by
  cases e? with
  | none => exact .pure trivial
  | some e =>
    refine .next (says_expression hc none trivial e) fun d hd => .pure ?_
    split
    · trivial
    · exact hd.valueType

theorem says_initialValue (hc : c.Worded ok) {target : Ty} (ht : target.Worded ok) (e : Expr) :
    Says ok (initialValue c target e) fun _ => True :=
  .next (says_expression hc (some target) ht e) fun _ hd =>
    .ite (fun _ => .pure trivial) fun _ => says_assign hc _ hd.valueType ht

theorem says_condition (hc : c.Worded ok) (e : Expr) : Says ok (condition c e) fun _ => True :=
  .next (says_expression hc none trivial e) fun _ hd => says_require hc _ hd.valueType

theorem says_declarator (hc : c.Worded ok) {declared? : Option Ty}
    (ht : ∀ t ∈ declared?, t.Worded ok) {d : Declarator} (hi : d.identifier.Worded ok) :
    Says ok (declarator declared? c d) (c.After ok ·) := by
  obtain ⟨_, i, e?⟩ := d
  unfold declarator
  cases declared? with
  | none => exact .next (says_inferredType hc e?) fun t ht => says_declare hc hi ht
  | some t =>
    have ht := ht t rfl
    cases e? with
    | none => exact says_declare hc hi ht
    | some e => exact .next (says_initialValue hc ht e) fun _ _ => says_declare hc hi ht

theorem says_declarators (hc : c.Worded ok) {declared? : Option Ty}
    (ht : ∀ t ∈ declared?, t.Worded ok) (ds : List Declarator)
    (hds : ∀ i ∈ ds.map (·.identifier), i.Worded ok) :
    Says ok (ds.foldlM (declarator declared?) c) (c.After ok ·) := by
  induction ds generalizing c with
  | nil => exact .pure hc.after
  | cons d ds ih =>
    obtain ⟨hd, hds⟩ := List.forall_mem_cons.mp hds
    rw [List.foldlM_cons]
    refine .next (says_declarator hc ht hd) fun c' h => ?_
    exact (ih h.worded hds).imp fun _ h' => h.trans h'

theorem says_declareVariables (hc : c.Worded ok) {d : VariableDeclaration}
    (hd : ∀ i ∈ d.declarators.map (·.identifier), i.Worded ok) :
    Says ok (declareVariables c d) (c.After ok ·) := by
  unfold declareVariables
  have hall {declared? : Option Ty} (ht : ∀ t ∈ declared?, t.Worded ok) :=
    says_declarators hc ht d.declarators hd
  have hresolve : Says ok (some <$> c.resolve d.type) fun t? => ∀ t ∈ t?, t.Worded ok :=
    (says_resolve hc _).map fun _ ht u hu => Option.some.inj hu ▸ ht
  have hnone : ∀ t ∈ (none : Option Ty), t.Worded ok := by
    intro t ht
    cases ht
  exact .ite (fun _ => hall hnone) fun _ => .next hresolve fun t? ht => hall ht

/-! ### Statements -/

theorem says_forHeader (hc : c.Worded ok) {h : ForHeader} (hh : ∀ i ∈ h.names, i.Worded ok) :
    Says ok (forHeader c h) (c.After ok ·) := by
  obtain ⟨_, _, i?, _, e?, _, es, _⟩ := h
  have hes {c' : Context} (h : c.After ok c') :
      Says ok (do let _ ← expressions c' es; return c') (c.After ok ·) :=
    .next (says_expressions h.worded es) fun _ _ => .pure h
  have hcondition {c' : Context} (h : c.After ok c') (e : Expr) :
      Says ok (do condition c' e; let _ ← expressions c' es; return c') (c.After ok ·) :=
    .next (says_condition h.worded e) fun _ _ => hes h
  cases e? with
  | none =>
    rcases i? with _ | ⟨d⟩ | ⟨is⟩
    · exact hes hc.after
    · exact .next (says_declareVariables hc hh) fun _ h => hes h
    · exact .next (says_expressions hc is) fun _ _ => hes hc.after
  | some e =>
    rcases i? with _ | ⟨d⟩ | ⟨is⟩
    · exact hcondition hc.after e
    · exact .next (says_declareVariables hc hh) fun _ h => hcondition h e
    · exact .next (says_expressions hc is) fun _ _ => hcondition hc.after e

theorem says_returnValue (hc : c.Worded ok) (e? : Option Expr) :
    Says ok (returnValue c e?) fun _ => True := by
  cases e? with
  | none => exact .pure trivial
  | some e =>
    refine .next (says_expression hc none trivial e) fun d hd => ?_
    split
    next target ht =>
      exact .ite (fun _ => .pure trivial) fun _ => says_assign hc _ hd.valueType (hc.returns _ ht)
    · exact .pure trivial

mutual

theorem tells_statement {c : Context} (hc : c.Worded ok) {around : List (List Identifier)}
    (h : c.Sees around) : (s : Stmt) → (∀ i ∈ s.names, i.Worded ok) →
      Tells ok (s.labelUses around) (statement c s) (c.After ok ·)
  | .block ⟨_, _, ss, _⟩, hs => by
    refine .bind (tells_declareLabels hs hc.push h.push) fun c' hc' => ?_
    exact .last (tells_statements hc'.1 hc'.2.sees ss hs) fun _ _ => .pure hc.after
  | .empty _, _ => .pure hc.after
  | .localDeclaration _ _ d _, hs => says_declareVariables hc hs
  | .expression _ e _, _ =>
    .next (says_expression hc none trivial e) fun _ _ => .pure hc.after
  | .ifElse _ e s none, hs => by
    rw [Stmt.names, List.append_nil] at hs
    rw [Stmt.labelUses, List.append_nil]
    refine .next (says_condition hc e) fun _ _ => .bind (tells_embed hs hc h) fun c' hc' => ?_
    exact .last (tells_statement hc'.1 hc'.2 s hs) fun _ _ => .pure hc.after
  | .ifElse _ e s (some s'), hs => by
    obtain ⟨hs, hs'⟩ := List.forall_mem_append.mp hs
    rw [Stmt.labelUses, LabelUse.inScope, List.append_assoc]
    refine .next (says_condition hc e) fun _ _ => .bind (tells_embed hs hc h) fun c' hc' => ?_
    refine .bind (tells_statement hc'.1 hc'.2 s hs) fun _ _ => ?_
    refine .bind (tells_embed hs' hc h) fun c' hc' => ?_
    exact .last (tells_statement hc'.1 hc'.2 s' hs') fun _ _ => .pure hc.after
  | .whileLoop _ e s, hs => by
    have hloop := hc.withLoop true
    refine .next (says_condition hc e) fun _ _ => .bind (tells_embed hs hloop h) fun c' hc' => ?_
    exact .last (tells_statement hc'.1 hc'.2 s hs) fun _ _ => .pure hc.after
  | .doLoop _ s e, hs => by
    have hloop := hc.withLoop true
    refine .bind (tells_embed hs hloop h) fun c' hc' => ?_
    refine .last (tells_statement hc'.1 hc'.2 s hs) fun _ _ => ?_
    exact .next (says_condition hc e) fun _ _ => .pure hc.after
  | .forLoop _ header s, hs => by
    obtain ⟨hheader, hs⟩ := List.forall_mem_append.mp hs
    refine .next (says_forHeader hc.push hheader) fun inner hi => ?_
    have hsees : inner.Sees around := fun name =>
      (hi.labels name).trans ((ScopeChain.findLabel?_push ..).trans (h name))
    refine .bind (tells_embed hs (hi.worded.withLoop true) hsees) fun c' hc' => ?_
    exact .last (tells_statement hc'.1 hc'.2 s hs) fun _ _ => .pure hc.after
  | .returnValue _ e?, _ => .next (says_returnValue hc e?) fun _ _ => .pure hc.after
  | .breakLoop _, _ | .continueLoop _, _ =>
    .ite (fun _ => .pure hc.after) fun _ =>
      .next (says_report rfl _ (List.forall_mem_nil _)) fun _ _ => .pure hc.after
  | .goto _ l, hs =>
    .last (tells_goto h (List.forall_mem_singleton.mp hs)) fun _ _ => .pure hc.after
  | .labeled _ _ s, hs => tells_statement hc h s (List.forall_mem_cons.mp hs).2

theorem tells_statements {c : Context} (hc : c.Worded ok) {around : List (List Identifier)}
    (h : c.Sees around) : (ss : List Stmt) → (∀ i ∈ Stmt.allNames ss, i.Worded ok) →
      Tells ok (Stmt.allLabelUses around ss) (statements c ss) (c.After ok ·)
  | [], _ => .pure hc.after
  | s :: ss, hss => by
    obtain ⟨hs, hss⟩ := List.forall_mem_append.mp hss
    refine .bind (tells_statement hc h s hs) fun c' hc' => ?_
    exact (tells_statements hc'.worded (h.after hc') ss hss).imp fun _ h' => hc'.trans h'

end

end Binding

end CSharpFront
