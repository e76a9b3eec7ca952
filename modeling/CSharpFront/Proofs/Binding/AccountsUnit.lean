import CSharpFront.Proofs.Binding.Accounts
import CSharpFront.Proofs.Flow.Graph
import CSharpFront.Proofs.Syntax.NamedBodies
/-!
The account of statements, and of a whole unit that is not cancelled: of the casts in it, and of the
jumps in those of its bodies that are bound. The labels in sight of a statement are those of the
blocks and statements around it, so that the binder notes just the jumps of the control-flow graph.
-/

namespace CSharpFront

/-! ## Statements -/

section

/-- The casts of a statement. -/
def Stmt.casts (r : Reach) (s : Stmt) : List Cast := (s.marks r).filterMap Mark.cast?

def Stmt.allCasts (r : Reach) (ss : List Stmt) : List Cast :=
  (Stmt.allMarks r ss).filterMap Mark.cast?

@[simp] theorem Mark.cast?_cast (k : Cast) : (Mark.cast k).cast? = some k := rfl

@[simp] theorem Mark.cast?_comp_cast : Mark.cast? ∘ Mark.cast = some := rfl

theorem Mark.filterMap_cast?_cast (ks : List Cast) :
    (ks.map Mark.cast).filterMap Mark.cast? = ks := by
  simp

namespace Binding

open Flow

variable {k : Setting} {c : Context}

/-! ### Labels -/

/-- The labels that names mean in a context. -/
def Context.Finds (c : Context) (labels : List Label) : Prop :=
  ∀ name, c.scopes.findLabel? name = (labels.find? (·.name == name)).map Label.place

theorem Context.Finds.like {labels : List Label} {c' : Context} (hf : c.Finds labels)
    (h : c.Like c') : c'.Finds labels :=
  fun name => (h.labels name).trans (hf name)

/-- A context whose innermost scope holds labels of its own. -/
structure Context.Holds (c : Context) (own labels : List Label) : Prop where
  own : ∀ name, c.scopes.inner.labels.lookup name = (own.find? (·.name == name)).map Label.place
  outer : ∀ name, c.scopes.outer.findSome? (·.labels.lookup name) =
    (labels.find? (·.name == name)).map Label.place

theorem Context.Holds.finds {own labels : List Label} (h : c.Holds own labels) :
    c.Finds (own ++ labels) := by
  intro name
  rw [List.find?_append]
  show (c.scopes.inner :: c.scopes.outer).findSome? _ = _
  rw [List.findSome?_cons, h.own, h.outer]
  cases own.find? (·.name == name) <;> rfl

theorem Context.Finds.push {labels : List Label} (hf : c.Finds labels) :
    c.push.Holds [] labels :=
  ⟨fun _ => rfl, hf⟩

/-- The label that a name declares at a point, unless the name is missing. -/
def labelAt (p : Point) (l : Identifier) : List Label :=
  if l.isMissing then [] else [⟨l.text, l.range.start, p⟩]

/-- A label is declared unless its scope has one of its name, which stays the first. -/
theorem quiet_declareLabel (hc : c.In k) {own labels : List Label} (h : c.Holds own labels)
    (p : Point) (l : Identifier) :
    Quiet k (declareLabel c l) fun c' => c'.In k ∧ c'.Holds (own ++ labelAt p l) labels := by
  unfold declareLabel labelAt
  by_cases hl : l.isMissing = true
  · simp only [hl, if_true, List.append_nil]
    exact .pure ⟨hc, h⟩
  simp only [hl, Bool.false_eq_true, if_false]
  unfold ScopeChain.declareLabel?
  have hown := h.own l.text
  cases hlookup : c.scopes.inner.labels.lookup l.text with
  | some place =>
    rw [hlookup] at hown
    refine .next (quiet_report (by decide) _ _) fun _ _ => .pure ⟨hc, fun name => ?_, h.outer⟩
    rw [h.own, List.find?_append]
    by_cases hname : l.text = name
    · subst hname
      obtain ⟨found, hfound, -⟩ := Option.map_eq_some_iff.mp hown.symm
      rw [hfound]
      rfl
    · simp [hname]
  | none =>
    rw [hlookup] at hown
    refine .pure ⟨⟨hc.names, hc.conversions⟩, fun name => ?_, h.outer⟩
    show ((l.text, l.range.start) :: c.scopes.inner.labels).lookup name = _
    rw [List.find?_append, List.lookup_cons]
    by_cases hname : name = l.text
    · subst hname
      rw [Option.map_eq_none_iff.mp hown.symm]
      simp
    · rw [beq_eq_false_iff_ne.mpr hname, h.own]
      simp [Ne.symm hname]

theorem quiet_labelsBefore {labels : List Label} : (s : Stmt) → ∀ {c : Context}, c.In k →
    ∀ {own : List Label}, c.Holds own labels → ∀ p : List Nat,
    Quiet k (s.labels.foldlM declareLabel c)
      fun c' => c'.In k ∧ c'.Holds (own ++ labelsBefore p s) labels
  | .labeled range l s => by
    intro hc own h p
    have hlabels : labelsBefore p (.labeled range l s) =
        labelAt ⟨p, .entry⟩ l ++ labelsBefore (p ++ [0]) s := by
      rw [labelsBefore, labelAt]
      split <;> rfl
    rw [Stmt.labels, List.foldlM_cons, hlabels, ← List.append_assoc]
    refine .next (quiet_declareLabel hc h ⟨p, .entry⟩ l) fun c' hc' => ?_
    exact quiet_labelsBefore s hc'.1 hc'.2 (p ++ [0])
  | .block _ | .empty _ | .localDeclaration .. | .expression .. | .ifElse .. | .whileLoop ..
  | .doLoop .. | .forLoop .. | .returnValue .. | .breakLoop _ | .continueLoop _ | .goto .. => by
    intro hc own h p
    exact .pure ⟨hc, (List.append_nil own).symm ▸ h⟩

theorem quiet_labelsAmong (hc : c.In k) {own labels : List Label} (h : c.Holds own labels)
    (p : List Nat) (i : Nat) (ss : List Stmt) :
    Quiet k (declareLabels c ss)
      fun c' => c'.In k ∧ c'.Holds (own ++ labelsAmong p i ss) labels := by
  induction ss generalizing c own i with
  | nil =>
    rw [labelsAmong, List.append_nil]
    exact .pure ⟨hc, h⟩
  | cons s ss ih =>
    rw [declareLabels, List.flatMap_cons, List.foldlM_append, labelsAmong, ← List.append_assoc]
    refine .next (quiet_labelsBefore s hc h (p ++ [i])) fun c' hc' => ?_
    exact ih hc'.1 hc'.2 (i + 1)

/-- The labels of a block are in sight of all its statements. -/
theorem quiet_declareLabels (hc : c.In k) {labels : List Label} (hf : c.Finds labels)
    (p : List Nat) (i : Nat) (ss : List Stmt) :
    Quiet k (declareLabels c.push ss)
      fun c' => c'.In k ∧ c'.Finds (labelsAmong p i ss ++ labels) :=
  (quiet_labelsAmong hc.push hf.push p i ss).imp fun _ h => ⟨h.1, h.2.finds⟩

/-- The labels before a statement that is part of another are in its sight. -/
theorem quiet_embed (hc : c.In k) {labels : List Label} (hf : c.Finds labels) (p : List Nat)
    (i : Nat) (s : Stmt) :
    Quiet k (embed c s) fun c' => c'.In k ∧ c'.Finds (labelsBefore (p ++ [i]) s ++ labels) := by
  have hdeclare := quiet_declareLabels hc hf p i [s]
  rw [labelsAmong, labelsAmong, List.append_nil] at hdeclare
  cases s with
  | block b => exact .pure ⟨hc, hf⟩
  | _ => exact hdeclare

theorem accounts_goto {labels : List Label} (hf : c.Finds labels) (p : List Nat) (r : Range)
    (l : Identifier) :
    Accounts k (fun _ => []) ((jumps labels p (.goto r l)).map (·.2.place)) (goto c l)
      fun _ => True := by
  unfold goto
  by_cases hl : l.isMissing = true
  · simp only [hl, if_true, jumps, target?]
    exact .pure trivial
  simp only [hl, Bool.false_eq_true, if_false, jumps, target?]
  rw [hf]
  cases labels.find? (·.name == l.text) with
  | none => exact quiet_report (by decide) _ _
  | some found =>
    refine fun s => ⟨trivial, ⟨Nat.le_refl _, Nat.le_refl _⟩, fun place => ?_⟩
    show place ∈ found.place :: s.referenced ↔ _
    simp

/-! ### Variables -/

theorem accounts_expression? (hc : c.In k) (e? : Option Expr) :
    Accounts k (Expr.casts? · e?) [] (inferredType c e?) fun _ => True := by
  cases e? with
  | none => exact .pure trivial
  | some e => exact .last (accounts_expression hc none e) fun _ _ => .pure trivial

theorem accounts_initialValue (hc : c.In k) (target : Ty) (e : Expr) :
    Accounts k (e.casts ·) [] (initialValue c target e) fun _ => True :=
  .last (accounts_expression hc _ e) fun _ _ =>
    .ite (fun _ => .pure trivial) fun _ => quiet_assign c _ _ _

theorem accounts_condition (hc : c.In k) (e : Expr) :
    Accounts k (e.casts ·) [] (condition c e) fun _ => True :=
  .last (accounts_expression hc none e) fun _ _ => quiet_require c _ _

theorem accounts_declarator (hc : c.In k) (declared? : Option Ty) (d : Declarator) :
    Accounts k (Expr.casts? · d.initializer?) [] (declarator declared? c d) (c.Like ·) := by
  obtain ⟨_, i, e?⟩ := d
  unfold declarator
  cases declared? with
  | none => exact .last (accounts_expression? hc e?) fun t _ => quiet_declare c i t
  | some t =>
    cases e? with
    | none => exact quiet_declare c i t
    | some e => exact .last (accounts_initialValue hc t e) fun _ _ => quiet_declare c i t

theorem accounts_declarators (hc : c.In k) (declared? : Option Ty) (ds : List Declarator) :
    Accounts k (Declarator.allCasts · ds) [] (ds.foldlM (declarator declared?) c) (c.Like ·) := by
  induction ds generalizing c with
  | nil => exact .pure (.refl c)
  | cons d ds ih =>
    rw [List.foldlM_cons]
    refine .seq (accounts_declarator hc declared? d) fun c' h => ?_
    exact (ih (hc.like h)).imp fun _ h' => h.trans h'

theorem accounts_declareVariables (hc : c.In k) (d : VariableDeclaration) :
    Accounts k (Declarator.allCasts · d.declarators) [] (declareVariables c d) (c.Like ·) := by
  unfold declareVariables
  have hall (declared? : Option Ty) := accounts_declarators hc declared? d.declarators
  have hresolve : Quiet k (some <$> c.resolve d.type) fun _ => True :=
    (quiet_resolve hc _).map fun _ _ => trivial
  exact .ite (fun _ => hall none) fun _ => .next hresolve fun t? _ => hall t?

/-! ### Statements -/

theorem accounts_forHeader (hc : c.In k) (h : ForHeader) :
    Accounts k (h.casts ·) [] (forHeader c h) (c.Like ·) := by
  obtain ⟨_, _, i?, _, e?, _, es, _⟩ := h
  have hes {c' : Context} (h : c.Like c') :
      Accounts k (Expr.allCasts · es) [] (do let _ ← expressions c' es; return c') (c.Like ·) :=
    .last (accounts_expressions (hc.like h) es) fun _ _ => .pure h
  have hcondition {c' : Context} (h : c.Like c') (e : Expr) :
      Accounts k (fun r => Expr.casts? r (some e) ++ Expr.allCasts r es) []
        (do condition c' e; let _ ← expressions c' es; return c') (c.Like ·) :=
    .seq (accounts_condition (hc.like h) e) fun _ _ => hes h
  cases e? with
  | none =>
    rcases i? with _ | ⟨d⟩ | ⟨is⟩
    · exact hes (.refl c)
    · exact .seq (accounts_declareVariables hc d) fun _ h => hes h
    · exact .seq (accounts_expressions hc is) fun _ _ => hes (.refl c)
  | some e =>
    rcases i? with _ | ⟨d⟩ | ⟨is⟩
    · exact hcondition (.refl c) e
    · exact .seq (accounts_declareVariables hc d) fun _ h => hcondition h e
    · exact .seq (accounts_expressions hc is) fun _ _ => hcondition (.refl c) e

theorem accounts_returnValue (hc : c.In k) (e? : Option Expr) :
    Accounts k (Expr.casts? · e?) [] (returnValue c e?) fun _ => True := by
  cases e? with
  | none => exact .pure trivial
  | some e =>
    refine .last (accounts_expression hc none e) fun d _ => ?_
    split
    · exact .ite (fun _ => .pure trivial) fun _ => quiet_assign c _ _ _
    · exact .pure trivial

theorem Context.In.loop (hc : c.In k) : Context.In k { c with inLoop := true } :=
  ⟨hc.names, hc.conversions⟩

theorem Context.Finds.loop {labels : List Label} (hf : c.Finds labels) :
    Context.Finds { c with inLoop := true } labels :=
  hf

mutual

theorem accounts_statement {c : Context} (hc : c.In k) {labels : List Label}
    (hf : c.Finds labels) (p : List Nat) : (s : Stmt) →
      Accounts k (s.casts ·) ((jumps labels p s).map (·.2.place)) (statement c s) (c.Like ·)
  | .block ⟨_, _, ss, _⟩ => by
    refine .next (quiet_declareLabels hc hf p 0 ss) fun c' h => ?_
    exact .last (accounts_statements h.1 h.2 p 0 ss) fun _ _ => .pure (.refl c)
  | .empty _ => .pure (.refl c)
  | .localDeclaration _ _ d _ =>
    (accounts_declareVariables hc d).congr
      (fun r => .of_eq (Mark.filterMap_cast?_cast _).symm) rfl
  | .expression _ e _ => by
    refine .congr (.last (accounts_expression hc none e) fun _ _ => .pure (.refl c)) ?_ rfl
    exact fun r => .of_eq (Mark.filterMap_cast?_cast _).symm
  | .ifElse _ e s none => by
    refine .congr (.seq (accounts_condition hc e) fun _ _ => .next (quiet_embed hc hf p 0 s)
      fun _ h => .last (accounts_statement h.1 h.2 (p ++ [0]) s) fun _ _ => .pure (.refl c))
      (fun r => .of_eq ?_) rfl
    simp [Stmt.casts, Stmt.marks]
  | .ifElse _ e s (some s') => by
    refine .congr (.seq (accounts_condition hc e) fun _ _ => .next (quiet_embed hc hf p 0 s)
      fun _ h => .bind (accounts_statement h.1 h.2 (p ++ [0]) s) fun _ _ =>
        .next (quiet_embed hc hf p 1 s') fun _ h' =>
          .last (accounts_statement h'.1 h'.2 (p ++ [1]) s') fun _ _ => .pure (.refl c))
      (fun r => .of_eq ?_) ?_
    · simp [Stmt.casts, Stmt.marks]
    · simp [jumps]
  | .whileLoop _ e s => by
    refine .congr (.seq (accounts_condition hc e) fun _ _ => .next (quiet_embed hc.loop hf.loop p 0 s)
      fun _ h => .last (accounts_statement h.1 h.2 (p ++ [0]) s) fun _ _ => .pure (.refl c))
      (fun r => .of_eq ?_) rfl
    simp [Stmt.casts, Stmt.marks]
  | .doLoop _ s e => by
    refine .congr (.next (quiet_embed hc.loop hf.loop p 0 s) fun _ h =>
      .bind (accounts_statement h.1 h.2 (p ++ [0]) s) fun _ _ =>
        .last (accounts_condition hc e) fun _ _ => .pure (.refl c)) (fun r => .of_eq ?_) ?_
    · simp [Stmt.casts, Stmt.marks]
    · simp [jumps]
  | .forLoop _ h s => by
    refine .congr (.seq (accounts_forHeader hc.push h) fun inner hi =>
      .next (quiet_embed (hc.push.like hi).loop (hf.push.finds.like hi).loop p 0 s) fun _ h' =>
        .last (accounts_statement h'.1 h'.2 (p ++ [0]) s) fun _ _ => .pure (.refl c))
      (fun r => .of_eq ?_) rfl
    simp [Stmt.casts, Stmt.marks]
  | .returnValue _ e? => by
    refine .congr (.last (accounts_returnValue hc e?) fun _ _ => .pure (.refl c)) ?_ rfl
    exact fun r => .of_eq (Mark.filterMap_cast?_cast _).symm
  | .breakLoop _ | .continueLoop _ =>
    .ite (fun _ => .pure (.refl c)) fun _ =>
      .next (quiet_report (by decide) _ _) fun _ _ => .pure (.refl c)
  | .goto r l => .last (accounts_goto hf p r l) fun _ _ => .pure (.refl c)
  | .labeled _ l s => by
    refine .congr (accounts_statement hc hf (p ++ [0]) s) (fun r => .of_eq ?_) rfl
    rw [Stmt.casts, Stmt.casts, Stmt.marks]
    split <;> rfl

theorem accounts_statements {c : Context} (hc : c.In k) {labels : List Label}
    (hf : c.Finds labels) (p : List Nat) (i : Nat) : (ss : List Stmt) →
      Accounts k (Stmt.allCasts · ss) ((jumpsAmong labels p i ss).map (·.2.place))
        (statements c ss) (c.Like ·)
  | [] => .pure (.refl c)
  | s :: ss => by
    have hboth := (accounts_statement hc hf (p ++ [i]) s).bind fun c' h =>
      (accounts_statements (hc.like h) (hf.like h) p (i + 1) ss).imp fun _ h' => h.trans h'
    refine hboth.congr (fun r => .of_eq ?_) ?_
    · exact (List.filterMap_append ..).symm
    · rw [jumpsAmong, List.map_append]

end

end Binding

end

/-! ## Units -/

section

/-- The places of the labels to which the jumps of a body lead, if it is bound. -/
def Body.noted (b : Body) : List Nat :=
  if b.isNamed then (Flow.bodyJumps b.statements).map (·.2.place) else []

def ClassMember.casts (r : Reach) (m : ClassMember) : List Cast :=
  (m.marks r).filterMap Mark.cast?

def ClassMember.allCasts (r : Reach) (ms : List ClassMember) : List Cast :=
  (ClassMember.allMarks r ms).filterMap Mark.cast?

def TypeDeclaration.casts (r : Reach) (d : TypeDeclaration) : List Cast :=
  (d.marks r).filterMap Mark.cast?

def Member.casts (r : Reach) (m : Member) : List Cast := (m.marks r).filterMap Mark.cast?

def Member.allCasts (r : Reach) (ms : List Member) : List Cast :=
  (Member.allMarks r ms).filterMap Mark.cast?

def NamespaceDeclaration.casts (r : Reach) (n : NamespaceDeclaration) : List Cast :=
  (n.marks r).filterMap Mark.cast?

def CompilationUnit.casts (r : Reach) (u : CompilationUnit) : List Cast :=
  Member.allCasts r u.members

namespace Binding

open Flow

variable {k : Setting} {c : Context}

/-! ### Members of types -/

theorem accounts_field (hc : c.In k) (f : Field) :
    Accounts k (Declarator.allCasts · f.declaration.declarators) [] (field c f)
      fun _ => True := by
  refine .next (quiet_resolve hc _) fun t _ => ?_
  induction f.declaration.declarators with
  | nil => exact .pure trivial
  | cons d ds ih =>
    rw [List.forM_eq_forM, List.forM_cons]
    refine .seq (?_ : Accounts k (Expr.casts? · d.initializer?) [] _ fun _ => True) fun _ _ => ih
    cases d.initializer? with
    | none => exact .pure trivial
    | some e => exact accounts_initialValue hc t e

theorem accounts_parameters (hc : c.In k) (ps : List Parameter) :
    Quiet k (ps.foldlM (fun c p => do c.declare p.identifier (← c.resolve p.type)) c)
      (c.Like ·) := by
  induction ps generalizing c with
  | nil => exact .pure (.refl c)
  | cons p ps ih =>
    rw [List.foldlM_cons]
    have hp : Quiet k (do c.declare p.identifier (← c.resolve p.type)) (c.Like ·) :=
      .next (quiet_resolve hc _) fun t _ => quiet_declare c _ t
    refine .next hp fun c' h => ?_
    exact (ih (hc.like h)).imp fun _ h' => h.trans h'

theorem accounts_body (hc : c.In k) (hf : c.Finds []) (returns? : Option Ty)
    (ps : List Parameter) (b? : Option Block) :
    Accounts k (fun r => (Block.marks? r b?).filterMap Mark.cast?)
      (((Block.statementsOf b?).map (Body.mk true)).flatMap Body.noted)
      (body c returns? ps b?) fun _ => True := by
  have hc' : Context.In k { c with returns? } := ⟨hc.names, hc.conversions⟩
  have hf' : Context.Finds { c with returns? } [] := hf
  refine .next (accounts_parameters hc' ps) fun c' h => ?_
  cases b? with
  | none => exact .pure trivial
  | some b =>
    obtain ⟨range, openBrace, ss, closeBrace⟩ := b
    have hblock := accounts_statement (hc'.like h) (hf'.like h) []
      (.block ⟨range, openBrace, ss, closeBrace⟩)
    refine .congr (.last hblock fun _ _ => .pure trivial) (fun r => .of_eq rfl) ?_
    simp [jumps, Block.statementsOf, Body.noted, bodyJumps]

/-- A binding that could be cancelled but is not, with its account. -/
def AccountsAll (k : Setting) (casts : Reach → List Cast) (noted : List Nat) {α : Type}
    (m : Cancellable α) (post : α → Prop) : Prop :=
  Accounts k casts noted (m.run none) fun r => ∃ a, r = (.ok a, none) ∧ post a

namespace AccountsAll

variable {α β : Type} {m : Cancellable α} {post : α → Prop} {after : β → Prop}
  {casts casts' : Reach → List Cast} {noted noted' : List Nat}

theorem pure {a : α} (h : post a) : AccountsAll k (fun _ => []) [] (Pure.pure a) post :=
  Accounts.pure ⟨a, rfl, h⟩

theorem bind {f : α → Cancellable β} (hm : AccountsAll k casts noted m post)
    (hf : ∀ a, post a → AccountsAll k casts' noted' (f a) after) :
    AccountsAll k (fun r => casts r ++ casts' r) (noted ++ noted') (m >>= f) after := by
  show Accounts k _ _ (m.run none >>= fun r => ExceptT.bindCont f r.1 r.2) _
  refine Accounts.bind hm fun r hr => ?_
  obtain ⟨a, rfl, ha⟩ := hr
  exact hf a ha

theorem congr (hm : AccountsAll k casts noted m post) (hc : ∀ r, (casts r).Perm (casts' r))
    (hn : noted = noted') : AccountsAll k casts' noted' m post :=
  Accounts.congr hm hc hn

theorem next {f : α → Cancellable β} (hm : AccountsAll k (fun _ => []) [] m post)
    (hf : ∀ a, post a → AccountsAll k casts noted (f a) after) :
    AccountsAll k casts noted (m >>= f) after :=
  bind hm hf

theorem last {f : α → Cancellable β} (hm : AccountsAll k casts noted m post)
    (hf : ∀ a, post a → AccountsAll k (fun _ => []) [] (f a) after) :
    AccountsAll k casts noted (m >>= f) after :=
  (hm.bind hf).congr (fun _ => .of_eq (List.append_nil _)) (List.append_nil _)

theorem lift {n : BindM α} (hn : Accounts k casts noted n post) :
    AccountsAll k casts noted (liftM n) post :=
  fun s => ⟨⟨_, rfl, (hn s).1⟩, (hn s).2⟩

end AccountsAll

theorem accounts_poll : AccountsAll k (fun _ => []) [] poll fun _ => True :=
  fun s => ⟨⟨(), rfl, trivial⟩, ⟨Nat.le_refl _, Nat.le_refl _⟩, fun place => by
    show place ∈ s.referenced ↔ _
    simp⟩

mutual

/-- A type without a name leaves the bodies of the types in it without names around them. -/
theorem isNamed_of_mem_type : (d : TypeDeclaration) → ∀ b ∈ d.namedBodies false, b.isNamed = false
  | ⟨_, _, _, _, ms⟩ => isNamed_of_mem_members ms

theorem isNamed_of_mem_member : (m : ClassMember) →
    ∀ b ∈ m.namedBodies false, b.isNamed = false
  | .method _ | .conversion _ => List.forall_mem_map.mpr fun _ _ => rfl
  | .nestedType d => isNamed_of_mem_type d
  | .field _ | .incomplete _ => List.forall_mem_nil _

theorem isNamed_of_mem_members : (ms : List ClassMember) →
    ∀ b ∈ ClassMember.allNamedBodies false ms, b.isNamed = false
  | [] => List.forall_mem_nil _
  | m :: ms => List.forall_mem_append.mpr ⟨isNamed_of_mem_member m, isNamed_of_mem_members ms⟩

end

/-- No jump is noted in the bodies of types without names. -/
theorem noted_nameless (ms : List ClassMember) :
    (ClassMember.allNamedBodies false ms).flatMap Body.noted = [] := by
  refine List.flatMap_eq_nil_iff.mpr fun b hb => ?_
  rw [Body.noted, isNamed_of_mem_members ms b hb]
  rfl

mutual

theorem accounts_typeDeclaration {c : Context} (hc : c.In k) (hf : c.Finds [])
    (container : String) : (d : TypeDeclaration) →
      AccountsAll k (d.casts ·) ((d.namedBodies true).flatMap Body.noted)
        (typeDeclaration c container d) fun _ => True
  | ⟨_, _, _, i, ms⟩ => by
    unfold typeDeclaration TypeDeclaration.namedBodies TypeDeclaration.casts TypeDeclaration.marks
    cases hi : i.isMissing with
    | true =>
      rw [show (true && !true) = false from rfl, noted_nameless]
      exact Accounts.skip rfl (AccountsAll.pure trivial)
    | false =>
      have howner : Context.In k { c with owner? := c.names.find? (qualify container i.text) } :=
        ⟨hc.names, hc.conversions⟩
      exact accounts_classMembers howner hf _ ms

theorem accounts_classMember {c : Context} (hc : c.In k) (hf : c.Finds []) (owner : String) :
    (m : ClassMember) →
      AccountsAll k (m.casts ·) ((m.namedBodies true).flatMap Body.noted)
        (classMember c owner m) fun _ => True
  | .field f =>
    .congr (.lift (accounts_field hc f))
      (fun _ => .of_eq (Mark.filterMap_cast?_cast _).symm) rfl
  | .method m => by
    have hrest (returns? : Option Ty) :
        AccountsAll k (fun r => (Block.marks? r m.body?).filterMap Mark.cast?)
          (((Block.statementsOf m.body?).map (Body.mk true)).flatMap Body.noted)
          (do body c returns? m.parameters m.body?) fun _ => True :=
      .lift (accounts_body hc hf _ _ _)
    unfold classMember
    split
    next type _ =>
      have hresolve : Quiet k (some <$> c.resolve type) fun _ => True :=
        (quiet_resolve hc type).map fun _ _ => trivial
      exact .next (.lift hresolve) fun t? _ => hrest t?
    · exact hrest none
  | .conversion o =>
    .next (.lift (quiet_resolve hc _)) fun _ _ => .lift (accounts_body hc hf _ _ _)
  | .nestedType d => accounts_typeDeclaration hc hf owner d
  | .incomplete _ => .pure trivial

theorem accounts_classMembers {c : Context} (hc : c.In k) (hf : c.Finds []) (owner : String) :
    (ms : List ClassMember) →
      AccountsAll k (ClassMember.allCasts · ms)
        ((ClassMember.allNamedBodies true ms).flatMap Body.noted)
        (classMembers c owner ms) fun _ => True
  | [] => .pure trivial
  | m :: ms => by
    have hboth := (accounts_classMember hc hf owner m).bind fun _ _ =>
      accounts_classMembers hc hf owner ms
    refine .next accounts_poll fun _ _ => hboth.congr (fun r => .of_eq ?_) ?_
    · exact (List.filterMap_append ..).symm
    · rw [ClassMember.allNamedBodies, List.flatMap_append]

end

/-! ### Members of namespaces -/

/-- The places of the labels that are noted for some members, the first statement among which is
the one of a number. -/
def notedAmong (labels : List Label) (i : Nat) (ms : List Member) : List Nat :=
  (jumpsAmong labels [] i (Member.globals ms)).map (·.2.place) ++
    (Member.allNamedBodies ms).flatMap Body.noted

theorem notedAmong_of_globals_eq_nil {labels : List Label} {i : Nat} {ms : List Member}
    (h : Member.globals ms = []) :
    notedAmong labels i ms = (Member.allNamedBodies ms).flatMap Body.noted := by
  rw [notedAmong, h]
  rfl

/-- A member that is no statement adds what is noted in its bodies. -/
theorem mem_notedAmong_bodies {labels : List Label} {i : Nat} (m : Member) {ms : List Member}
    (h : Member.globals (m :: ms) = Member.globals ms) (place : Nat) :
    place ∈ m.namedBodies.flatMap Body.noted ++ notedAmong labels i ms ↔
      place ∈ notedAmong labels i (m :: ms) := by
  simp only [notedAmong, h, Member.allNamedBodies, List.flatMap_append, List.mem_append]
  exact or_left_comm

/-- The labels in sight of the statements outside types. -/
def FindsFrom (c : Context) (labels : List Label) (globals : ScopeChain) : Prop :=
  Context.Finds { c with scopes := globals } labels

mutual

theorem accounts_members {c : Context} (hc : c.In k) (hf : c.Finds []) {labels : List Label}
    (container : String) {globals : ScopeChain} (hg : FindsFrom c labels globals) (i : Nat) :
    (ms : List Member) → Member.AllSorted ms →
      AccountsAll k (Member.allCasts · ms) (notedAmong labels i ms)
        (members c container globals ms) (FindsFrom c labels)
  | [], _ => .pure hg
  | .namespaceMember n :: ms, ⟨hn, hms⟩ => by
    have hboth := (accounts_namespace hc hf container hg n hn).bind fun g hg =>
      accounts_members hc hf container hg i ms hms
    refine .next accounts_poll fun _ _ => Accounts.notes (hboth.congr (fun r => .of_eq ?_) rfl) ?_
    · exact (List.filterMap_append ..).symm
    · exact mem_notedAmong_bodies (.namespaceMember n) rfl
  | .typeMember d :: ms, ⟨_, hms⟩ => by
    have hd : AccountsAll k (d.casts ·) ((d.namedBodies true).flatMap Body.noted)
        (member c container globals (.typeMember d)) (FindsFrom c labels) :=
      .last (accounts_typeDeclaration hc hf container d) fun _ _ => .pure hg
    have hboth := hd.bind fun g hg => accounts_members hc hf container hg i ms hms
    refine .next accounts_poll fun _ _ => Accounts.notes (hboth.congr (fun r => .of_eq ?_) rfl) ?_
    · exact (List.filterMap_append ..).symm
    · exact mem_notedAmong_bodies (.typeMember d) rfl
  | .globalStatement s :: ms, ⟨_, hms⟩ => by
    have hc' : Context.In k { c with scopes := globals } := ⟨hc.names, hc.conversions⟩
    have hs : AccountsAll k (s.casts ·) ((jumps labels [i] s).map (·.2.place))
        (member c container globals (.globalStatement s)) (FindsFrom c labels) :=
      .last (.lift (accounts_statement hc' hg [i] s)) fun c' h =>
        .pure fun name => (h.labels name).trans (hg name)
    have hboth := hs.bind fun g hg => accounts_members hc hf container hg (i + 1) ms hms
    refine .next accounts_poll fun _ _ => hboth.congr (fun r => .of_eq ?_) ?_
    · exact (List.filterMap_append ..).symm
    · show _ = (jumpsAmong labels [] i (s :: Member.globals ms)).map _ ++ _
      rw [jumpsAmong, List.map_append, List.append_assoc]
      rfl
  | .incomplete _ :: ms, ⟨_, hms⟩ =>
    .next accounts_poll fun _ _ => accounts_members hc hf container hg i ms hms

theorem accounts_namespace {c : Context} (hc : c.In k) (hf : c.Finds []) {labels : List Label}
    (container : String) {globals : ScopeChain} (hg : FindsFrom c labels globals) :
    (n : NamespaceDeclaration) → n.Sorted →
      AccountsAll k (n.casts ·) (n.namedBodies.flatMap Body.noted)
        (namespaceDeclaration c container globals n) (FindsFrom c labels)
  | ⟨_, name, _, ms⟩, ⟨hglobals, hms⟩ => by
    have hmembers := accounts_members hc hf (qualify container name.dotted) hg 0 ms hms
    rwa [notedAmong_of_globals_eq_nil hglobals] at hmembers

end

/-- A unit is bound to its end: its casts are refused, and jumps are noted in those of its bodies
around which all types have names. -/
theorem accounts_unit (hc : c.In k) (hown : c.Holds [] []) {u : CompilationUnit}
    (hu : Member.AllSorted u.members) :
    AccountsAll k (u.casts ·) (u.namedBodies.flatMap Body.noted) (unit c u) fun _ => True := by
  have hlabels := quiet_labelsAmong hc hown [] 0 u.globalStatements
  refine .next (.lift hlabels) fun c' h => ?_
  have hg : FindsFrom c (labelsAmong [] 0 u.globalStatements) c'.scopes := by
    have hfinds := h.2.finds
    rwa [List.nil_append, List.append_nil] at hfinds
  exact .last (accounts_members hc hown.finds "" hg 0 u.members hu) fun _ _ => .pure trivial

/-- The types and conversions of a unit, and a place in it. -/
def Setting.of (u : CompilationUnit) (span : Span) : Setting :=
  let ds := Declarations.ofMembers u.members
  ⟨ds.names, ds.conversions, span⟩

/-- A unit that is not cancelled is bound to its end. At any place at least as many casts are refused
then as surely are, and at most as many as stand there; and to those labels a jump is noted to which
one leads in a body around which all types have names. -/
theorem accounts_bindUnit {u : CompilationUnit} (hu : Member.AllSorted u.members)
    (before : Array Diagnostic) :
    ∃ b, bindUnit u before none = (.ok (), none, b) ∧
      (∀ span,
        refusals before span + (Setting.of u span).least (u.casts ·) ≤
            refusals b.state.diagnostics span ∧
          refusals b.state.diagnostics span ≤
            refusals before span + (Setting.of u span).most (u.casts ·)) ∧
      ∀ place, b.isReferenced place = true ↔ place ∈ u.namedBodies.flatMap Body.noted := by
  let ds := Declarations.ofMembers u.members
  let s : State := { listing := ds.listing, diagnostics := before }
  have haccount (span : Span) := accounts_unit (k := .of u span) (c := .of ds) ⟨rfl, rfl⟩
    ⟨fun _ => rfl, fun _ => rfl⟩ hu s
  obtain ⟨_, hresult, -⟩ := (haccount ⟨0, 0⟩).1
  refine ⟨⟨ds, ((unit (.of ds) u).run none s).2⟩, ?_, fun span => (haccount span).2.1, ?_⟩
  · exact congrArg (fun r : Except Cancelled Unit × Polls => (r.1, r.2, _)) hresult
  · intro place
    refine List.contains_iff_mem.trans (((haccount ⟨0, 0⟩).2.2 place).trans ?_)
    exact or_iff_left List.not_mem_nil

end Binding

end

end CSharpFront
