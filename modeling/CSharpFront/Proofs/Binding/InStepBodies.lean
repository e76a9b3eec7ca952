import CSharpFront.Proofs.Binding.InStep
/-!
Binding bodies in step: an expression and its counterpart in another layout name the same thing, and
the queries around them declare the same range variables. A label is known by its place, which is
another in each layout, but a `goto` and its counterpart find labels that are counterparts too.
-/

/-! ## Expressions and queries -/

namespace CSharpFront.Binding

variable {l : Rerun} {c c' : Context}

theorem reach_alike {o o' : Leaf} (h : o.Alike o') (t : Ty) : reach o t = reach o' t := by
  rw [reach, reach, h.kind]

theorem elementTarget_relaid {e e' : Expr} (h : e.Relaid l e') (element : Ty) (rank : Nat) :
    elementTarget e element rank = elementTarget e' element rank := by
  rw [elementTarget, elementTarget, h.isInitializer]

mutual

theorem inStep_expression {c c' : Context} (hc : c.Relaid l c') (expected? : Option Ty) :
    (e : Expr) → {e' : Expr} → e.Relaid l e' →
      InStep l Eq (expression c expected? e) (expression c' expected? e')
  | .identifier _, _, h => by
    cases h with
    | identifier hi => exact .pure (hc.denote hi)
  | .literal _, _, h => by
    cases h with
    | literal h => exact .pure (congrArg Denotation.value h.type)
  | .thisWord _, _, h => by
    cases h
    unfold expression
    rw [hc.owner]
    exact .pure rfl
  | .predefinedType _ _, _, h | .missing _, _, h => by
    cases h
    exact .pure rfl
  | .parenthesized _ e, _, h => by
    cases h with
    | parenthesized _ he => exact .same (inStep_expression hc none e he) fun _ => .pure rfl
  | .binary _ left _ right, _, h => by
    cases h with
    | binary _ hl ho hr =>
      unfold expression
      rw [ho.kind]
      apply InStep.same (inStep_expression hc none left hl)
      intro _
      apply InStep.same (inStep_expression hc none right hr)
      intro _
      exact .same (inStep_list _) fun _ => .pure rfl
  | .assignment _ left _ right, _, h => by
    cases h with
    | assignment _ hl ho hr =>
      unfold expression
      rw [ho.kind]
      apply InStep.same (inStep_expression hc none left hl)
      intro _
      apply InStep.same (inStep_expression hc none right hr)
      intro _
      exact .ite (.same (inStep_assign hc hr _ _) fun _ => .pure rfl) (.pure rfl)
  | .conditional _ e t f, _, h => by
    cases h with
    | conditional _ he ht hf =>
      unfold expression
      rw [hc.conversions]
      apply InStep.same (inStep_expression hc none e he)
      intro _
      apply InStep.same (inStep_require hc he _)
      intro _
      apply InStep.same (inStep_expression hc none t ht)
      intro _
      exact .same (inStep_expression hc none f hf) fun _ => .pure rfl
  | .prefixUnary _ _ e, _, h => by
    cases h with
    | prefixUnary _ ho he =>
      unfold expression
      rw [ho.kind]
      apply InStep.same (inStep_expression hc none e he)
      intro _
      exact .same (inStep_list _) fun _ => .pure rfl
  | .postfixUnary _ e _, _, h => by
    cases h with
    | postfixUnary _ he _ => exact .same (inStep_expression hc none e he) fun _ => .pure rfl
  | .cast _ _ e, _, h => by
    cases h with
    | cast _ ht he =>
      unfold expression
      apply InStep.same (inStep_resolve hc ht)
      intro target
      apply InStep.same (inStep_expression hc none e he)
      intro _
      exact .same (inStep_requireCast hc _ _ _ _) fun _ => .pure rfl
  | .typeTest _ e _ _, _, h => by
    cases h with
    | typeTest _ he ho ht =>
      unfold expression
      rw [ho.kind]
      apply InStep.same (inStep_expression hc none e he)
      intro _
      exact .same (inStep_resolve hc ht) fun _ => .pure rfl
  | .memberAccess _ e _ name, _, h => by
    cases h with
    | memberAccess _ he ho hi =>
      unfold expression
      apply InStep.same (inStep_expression hc none e he)
      intro d
      rw [hc.members, hi.text]
      split
      · exact .pure rfl
      · rw [reach_alike ho]
        exact .same (inStep_list _) fun _ => .pure rfl
  | .await _ e, _, h => by
    cases h with
    | await _ he => exact .same (inStep_expression hc none e he) fun _ => .pure rfl
  | .invocation _ callee arguments, _, h => by
    cases h with
    | @invocation _ _ _ _ _ arguments' _ he hs =>
      have hrest {t t' : Ty} (ht : t = t') : InStep l Eq (do
          let _ ← expressions c arguments
          return Denotation.value t) (do
          let _ ← expressions c' arguments'
          return Denotation.value t') :=
        .same (inStep_expressions hc arguments hs) fun _ => .pure (congrArg _ ht)
      have hcallee := inStep_expression hc none callee he
      cases he with
      | memberAccess _ he ho hi =>
        unfold expression
        apply InStep.same (inStep_expression hc none _ he)
        intro d
        rw [hc.members, hi.text, reach_alike ho]
        exact .bind (inStep_list _) fun _ _ => hrest
      | identifier hi => exact hrest (by rw [hc.ownMethod?, hi.text])
      | _ => exact .same hcallee fun _ => hrest rfl
  | .elementAccess _ e arguments, _, h => by
    cases h with
    | elementAccess _ he hs =>
      unfold expression
      apply InStep.same (inStep_expression hc none e he)
      intro _
      exact .same (inStep_expressions hc arguments hs) fun _ => .pure rfl
  | .objectCreation _ type arguments? initializer?, _, h => by
    cases h with
    | @objectCreation _ _ _ _ _ _ _ initializer?' _ ht hs hi =>
      unfold expression
      apply InStep.same (inStep_resolve hc ht)
      intro t
      have hrest : InStep l Eq (do
          match initializer? with
          | none => pure ()
          | some ⟨_, es⟩ => properties c t es
          return Denotation.value t) (do
          match initializer?' with
          | none => pure ()
          | some ⟨_, es⟩ => properties c' t es
          return Denotation.value t) := by
        cases hi with
        | none => exact .pure rfl
        | some hi =>
          cases hi with
          | mk _ hes => exact .same (inStep_properties hc t _ hes) fun _ => .pure rfl
      cases hs with
      | none => exact hrest
      | some hs => exact .same (inStep_expressions hc _ hs) fun _ => hrest
  | .arrayCreation _ type sizes initializer?, _, h => by
    cases h with
    | arrayCreation _ ht hs hi =>
      unfold expression
      apply InStep.same (inStep_resolve hc ht)
      intro t
      apply InStep.same (inStep_expressions hc sizes hs)
      intro _
      cases hi with
      | none => exact .pure rfl
      | some hi =>
        cases hi with
        | mk _ hes =>
          dsimp only
          split
          · exact .same (inStep_elements hc _ _ _ hes) fun _ => .pure rfl
          · exact .pure rfl
  | .implicitArrayCreation _ ⟨_, es⟩, _, h => by
    cases h with
    | implicitArrayCreation _ hi =>
      cases hi with
      | mk _ hes =>
        unfold expression
        apply InStep.same (inStep_expressions hc es hes)
        intro _
        rw [hc.conversions]
        split
        · exact .same (inStep_list _) fun _ => .pure rfl
        · exact .pure rfl
  | .initializer ⟨_, es⟩, _, h => by
    cases h with
    | initializer hi =>
      cases hi with
      | mk _ hes =>
        unfold expression
        split
        · exact .same (inStep_elements hc _ _ es hes) fun _ => .pure rfl
        · exact .same (inStep_expressions hc es hes) fun _ => .pure rfl
  | .query _ ⟨_, type?, i, e⟩ body, _, h => by
    cases h with
    | query _ hq hb =>
      cases hq with
      | mk _ _ ht hi he =>
        unfold expression
        apply InStep.same (inStep_expression hc none e he)
        intro _
        apply InStep.same (inStep_rangeType hc ht _)
        intro t
        exact .same (inStep_queryBody (hc.push.shadow hi t) body hb) fun _ => .pure rfl
termination_by structural x => x

theorem inStep_expressions {c c' : Context} (hc : c.Relaid l c') :
    (es : List Expr) → {es' : List Expr} → List.Forall₂ (Expr.Relaid l) es es' →
      InStep l Eq (expressions c es) (expressions c' es')
  | [], _, .nil => .pure rfl
  | e :: es, _, .cons he hes => by
    unfold expressions
    apply InStep.same (inStep_expression hc none e he)
    intro _
    exact .same (inStep_expressions hc es hes) fun _ => .pure rfl
termination_by structural x => x

theorem inStep_elements {c c' : Context} (hc : c.Relaid l c') (element : Ty) (rank : Nat) :
    (es : List Expr) → {es' : List Expr} → List.Forall₂ (Expr.Relaid l) es es' →
      InStep l Eq (elements c element rank es) (elements c' element rank es')
  | [], _, .nil => .pure rfl
  | e :: es, _, .cons he hes => by
    have hrest := inStep_elements hc element rank es hes
    unfold elements
    rw [elementTarget_relaid he, he.isInitializer]
    apply InStep.same (inStep_expression hc _ e he)
    intro t
    exact .ite hrest (.same (inStep_assign hc he _ _) fun _ => hrest)
termination_by structural x => x

theorem inStep_properties {c c' : Context} (hc : c.Relaid l c') (owner : Ty) :
    (es : List Expr) → {es' : List Expr} → List.Forall₂ (Expr.Relaid l) es es' →
      InStep l Eq (properties c owner es) (properties c' owner es')
  | [], _, .nil => .pure rfl
  | e :: es, _, .cons he hes => by
    have hrest := inStep_properties hc owner es hes
    have hvalue := inStep_expression hc none e he
    cases he with
    | assignment _ hl _ hr =>
      unfold properties
      apply InStep.same (inStep_expression hc none _ hr)
      intro t
      rw [hc.assignedField? owner hl]
      split
      · exact .same (inStep_assign hc hr _ _) fun _ => hrest
      · exact hrest
    | _ => exact .same hvalue fun _ => hrest
termination_by structural x => x

theorem inStep_clauses {c c' : Context} (hc : c.Relaid l c') :
    (qs : List QueryClause) → {qs' : List QueryClause} →
      List.Forall₂ (QueryClause.Relaid l) qs qs' →
      InStep l (Context.Relaid l) (clauses c qs) (clauses c' qs')
  | [], _, .nil => .pure hc
  | .fromClause ⟨_, _, _, e⟩ :: qs, _, .cons (.fromClause (.mk _ _ ht hi he)) hqs => by
    unfold clauses
    apply InStep.same (inStep_expression hc none e he)
    intro _
    apply InStep.same (inStep_rangeType hc ht _)
    intro t
    exact inStep_clauses (hc.shadow hi t) qs hqs
  | .letClause _ _ e :: qs, _, .cons (.letClause _ _ hi he) hqs => by
    unfold clauses
    apply InStep.same (inStep_expression hc none e he)
    intro _
    exact inStep_clauses (hc.shadow hi _) qs hqs
  | .whereClause _ e :: qs, _, .cons (.whereClause _ _ he) hqs => by
    unfold clauses
    apply InStep.same (inStep_expression hc none e he)
    intro _
    exact .same (inStep_require hc he _) fun _ => inStep_clauses hc qs hqs
  | .orderByClause _ keys :: qs, _, .cons (.orderByClause _ _ hks) hqs => by
    unfold clauses
    exact .same (inStep_sortKeys hc keys hks) fun _ => inStep_clauses hc qs hqs
termination_by structural x => x

theorem inStep_sortKeys {c c' : Context} (hc : c.Relaid l c') :
    (ks : List SortKey) → {ks' : List SortKey} → List.Forall₂ (SortKey.Relaid l) ks ks' →
      InStep l Eq (sortKeys c ks) (sortKeys c' ks')
  | [], _, .nil => .pure rfl
  | ⟨_, e, _⟩ :: ks, _, .cons (.mk _ _ _ he) hks =>
    .same (inStep_expression hc none e he) fun _ => inStep_sortKeys hc ks hks
termination_by structural x => x

theorem inStep_ending {c c' : Context} (hc : c.Relaid l c') :
    (q : QueryEnding) → {q' : QueryEnding} → q.Relaid l q' →
      InStep l Eq (ending c q) (ending c' q')
  | .select _ e, _, .select _ _ he => .same (inStep_expression hc none e he) fun _ => .pure rfl
  | .group _ e k, _, .group _ _ he hk => by
    unfold ending
    apply InStep.same (inStep_expression hc none e he)
    intro _
    apply InStep.same (inStep_expression hc none k hk)
    intro _
    exact .ite (.pure rfl) (inStep_list _)
  | .missing _, _, .missing _ _ => .pure rfl
termination_by structural x => x

theorem inStep_queryBody {c c' : Context} (hc : c.Relaid l c') :
    (b : QueryBody) → {b' : QueryBody} → b.Relaid l b' →
      InStep l Eq (queryBody c b) (queryBody c' b')
  | ⟨_, qs, e, continuation?⟩, _, .mk _ _ hqs he hk => by
    unfold queryBody
    apply InStep.bind (inStep_clauses hc qs hqs)
    intro d d' hd
    apply InStep.same (inStep_ending hd e he)
    intro t
    refine .ite (.pure rfl) ?_
    cases hk with
    | none => exact inStep_list _
    | some hk =>
      cases hk with
      | mk _ _ hi hb => exact inStep_queryBody (hd.push.shadow hi t) _ hb
termination_by structural x => x

end

theorem inStep_initialValue (hc : c.Relaid l c') (target : Ty) {e e' : Expr}
    (he : e.Relaid l e') : InStep l Eq (initialValue c target e) (initialValue c' target e') := by
  unfold initialValue
  rw [he.isInitializer]
  apply InStep.same (inStep_expression hc _ e he)
  intro _
  exact .ite (.pure rfl) (inStep_assign hc he _ _)

theorem inStep_condition (hc : c.Relaid l c') {e e' : Expr} (he : e.Relaid l e') :
    InStep l Eq (condition c e) (condition c' e') :=
  .same (inStep_expression hc none e he) fun _ => inStep_require hc he _

end CSharpFront.Binding

/-! ## Statements -/

namespace CSharpFront

variable {l : Relayout}

theorem Stmt.labels_relaid : (s : Stmt) → {s' : Stmt} → s.Relaid l s' →
    List.Forall₂ (Identifier.Relaid l) s.labels s'.labels
  | .labeled _ _ s, _, .labeled _ hi hs => .cons hi (s.labels_relaid hs)
  | .block _, _, .block _ | .empty _, _, .empty _ _ => .nil
  | .localDeclaration .., _, .localDeclaration .. | .expression .., _, .expression .. => .nil
  | .ifElse .., _, .ifElse .. | .whileLoop .., _, .whileLoop .. | .doLoop .., _, .doLoop .. => .nil
  | .forLoop .., _, .forLoop .. | .returnValue .., _, .returnValue .. => .nil
  | .breakLoop _, _, .breakLoop _ | .continueLoop _, _, .continueLoop _ => .nil
  | .goto .., _, .goto .. => .nil

theorem Stmt.Relaid.isBlock {s s' : Stmt} (h : s.Relaid l s') : s.isBlock = s'.isBlock := by
  cases h <;> rfl

namespace Binding

variable {l : Rerun} {c c' : Context}

/-! ### Labels -/

theorem inStep_declareLabel (hc : c.Relaid l c') {i i' : Identifier} (hi : i.Relaid l i') :
    InStep l (Context.Relaid l) (declareLabel c i) (declareLabel c' i') := by
  unfold declareLabel
  rw [← hi.isMissing, ← hi.text]
  cases hm : i.isMissing with
  | true => exact .pure hc
  | false =>
    rcases (hc.scopes.declareLabel? i.text (hi.start hm)).none_or_some with
      ⟨ha, hb⟩ | ⟨_, _, ha, hb, h⟩
    · rw [ha, hb]
      exact .same inStep_report fun _ => .pure hc
    · rw [ha, hb]
      exact .pure (hc.withScopes h)

theorem inStep_declareLabels (hc : c.Relaid l c') {ss ss' : List Stmt}
    (h : List.Forall₂ (Stmt.Relaid l) ss ss') :
    InStep l (Context.Relaid l) (declareLabels c ss) (declareLabels c' ss') :=
  .foldlM (List.rel_flatMap h fun s _ hs => s.labels_relaid hs) hc fun _ _ hd _ _ hi =>
    inStep_declareLabel hd hi

theorem inStep_embed (hc : c.Relaid l c') {s s' : Stmt} (hs : s.Relaid l s') :
    InStep l (Context.Relaid l) (embed c s) (embed c' s') := by
  unfold embed
  rw [hs.isBlock]
  exact .ite (.pure hc) (inStep_declareLabels hc.push (.cons hs .nil))

theorem inStep_goto (hc : c.Relaid l c') {i i' : Identifier} (hi : i.Relaid l i') :
    InStep l Eq (goto c i) (goto c' i') := by
  unfold goto
  rw [hi.isMissing, hi.text]
  refine .ite (.pure rfl) ?_
  rcases (hc.scopes.findLabel? i'.text).none_or_some with ⟨ha, hb⟩ | ⟨_, _, ha, hb, hp⟩
  · rw [ha, hb]
    exact inStep_report
  · rw [ha, hb]
    exact fun _ _ hs => ⟨rfl, hs.listing, hs.diagnostics, .cons hp hs.referenced⟩

/-! ### Variables -/

theorem inStep_inferredType (hc : c.Relaid l c') {e? e?' : Option Expr}
    (h : Option.Rel (Expr.Relaid l) e? e?') :
    InStep l Eq (inferredType c e?) (inferredType c' e?') := by
  cases h with
  | none => exact .pure rfl
  | some he => exact .same (inStep_expression hc none _ he) fun _ => .pure rfl

theorem inStep_declarator (hc : c.Relaid l c') (declared? : Option Ty) {d d' : Declarator}
    (h : d.Relaid l d') :
    InStep l (Context.Relaid l) (declarator declared? c d) (declarator declared? c' d') := by
  have hrest (t : Ty) : InStep l (Context.Relaid l) (c.declare d.identifier t)
      (c'.declare d'.identifier t) := inStep_declare hc h.identifier t
  unfold declarator
  cases declared? with
  | none => exact .same (inStep_inferredType hc h.initializer) hrest
  | some t =>
    rcases h.initializer.none_or_some with ⟨ha, hb⟩ | ⟨_, _, ha, hb, he⟩
    · rw [ha, hb]
      exact hrest t
    · rw [ha, hb]
      exact .same (inStep_initialValue hc t he) fun _ => hrest t

theorem inStep_declareVariables (hc : c.Relaid l c') {d d' : VariableDeclaration}
    (h : d.Relaid l d') :
    InStep l (Context.Relaid l) (declareVariables c d) (declareVariables c' d') := by
  have hrest (declared? : Option Ty) : InStep l (Context.Relaid l)
      (d.declarators.foldlM (declarator declared?) c)
      (d'.declarators.foldlM (declarator declared?) c') :=
    .foldlM h.declarators hc fun _ _ hc _ _ hv => inStep_declarator hc declared? hv
  unfold declareVariables
  rw [h.type.isVar]
  exact .ite (hrest none) (.same (.map (inStep_resolve hc h.type)) hrest)

/-! ### Statements -/

theorem inStep_forHeader (hc : c.Relaid l c') {h h' : ForHeader} (hh : h.Relaid l h') :
    InStep l (Context.Relaid l) (forHeader c h) (forHeader c' h') := by
  have hlast {c c' : Context} (hc : c.Relaid l c') : InStep l (Context.Relaid l)
      (do let _ ← expressions c h.incrementors; return c)
      (do let _ ← expressions c' h'.incrementors; return c') :=
    .same (inStep_expressions hc _ hh.incrementors) fun _ => .pure hc
  have hrest {c c' : Context} (hc : c.Relaid l c') : InStep l (Context.Relaid l)
      (forHeader c { h with initializer? := none })
      (forHeader c' { h' with initializer? := none }) := by
    apply InStep.bind (.pure hc)
    intro d d' hd
    rcases hh.condition.none_or_some with ⟨ha, hb⟩ | ⟨_, _, ha, hb, he⟩
    · rw [ha, hb]
      exact hlast hd
    · rw [ha, hb]
      exact .same (inStep_condition hd he) fun _ => hlast hd
  unfold forHeader
  rcases hh.initializer.none_or_some with ⟨ha, hb⟩ | ⟨_, _, ha, hb, hi⟩
  · rw [ha, hb]
    exact hrest hc
  · rw [ha, hb]
    cases hi with
    | declaration hd => exact .bind (inStep_declareVariables hc hd) fun _ _ => hrest
    | expressions hes => exact .same (inStep_expressions hc _ hes) fun _ => hrest hc

theorem inStep_returnValue (hc : c.Relaid l c') {e? e?' : Option Expr}
    (h : Option.Rel (Expr.Relaid l) e? e?') :
    InStep l Eq (returnValue c e?) (returnValue c' e?') := by
  cases h with
  | none => exact .pure rfl
  | some he =>
    apply InStep.same (inStep_expression hc none _ he)
    intro _
    rw [hc.returns]
    split
    · exact .ite (.pure rfl) (inStep_assign hc he _ _)
    · exact .pure rfl

mutual

theorem inStep_statement {c c' : Context} (hc : c.Relaid l c') :
    (s : Stmt) → {s' : Stmt} → s.Relaid l s' →
      InStep l (Context.Relaid l) (statement c s) (statement c' s')
  | .block ⟨_, _, ss, _⟩, _, h => by
    cases h with
    | block hb =>
      cases hb with
      | mk _ _ _ _ _ _ hss =>
        unfold statement
        apply InStep.bind (inStep_declareLabels hc.push hss)
        intro d d' hd
        exact .bind (inStep_statements hd ss hss) fun _ _ _ => .pure hc
  | .empty _, _, h => by
    cases h
    exact .pure hc
  | .localDeclaration .., _, h => by
    cases h with
    | localDeclaration _ _ _ _ hd => exact inStep_declareVariables hc hd
  | .expression _ e _, _, h => by
    cases h with
    | expression _ _ _ he => exact .same (inStep_expression hc none e he) fun _ => .pure hc
  | .ifElse _ _ s s?, _, h => by
    cases h with
    | ifElse _ he hs hs? =>
      unfold statement
      apply InStep.same (inStep_condition hc he)
      intro _
      apply InStep.bind (inStep_embed hc hs)
      intro d d' hd
      apply InStep.bind (inStep_statement hd s hs)
      intro _ _ _
      cases hs? with
      | none => exact .pure hc
      | some ht =>
        apply InStep.bind (inStep_embed hc ht)
        intro d d' hd
        exact .bind (inStep_statement hd _ ht) fun _ _ _ => .pure hc
  | .whileLoop _ _ s, _, h => by
    cases h with
    | whileLoop _ he hs =>
      unfold statement
      apply InStep.same (inStep_condition hc he)
      intro _
      apply InStep.bind (inStep_embed hc.intoLoop hs)
      intro d d' hd
      exact .bind (inStep_statement hd s hs) fun _ _ _ => .pure hc
  | .doLoop _ s _, _, h => by
    cases h with
    | doLoop _ hs he =>
      unfold statement
      apply InStep.bind (inStep_embed hc.intoLoop hs)
      intro d d' hd
      apply InStep.bind (inStep_statement hd s hs)
      intro _ _ _
      exact .same (inStep_condition hc he) fun _ => .pure hc
  | .forLoop _ _ s, _, h => by
    cases h with
    | forLoop _ _ hh hs =>
      unfold statement
      apply InStep.bind (inStep_forHeader hc.push hh)
      intro d d' hd
      apply InStep.bind (inStep_embed hd.intoLoop hs)
      intro d d' hd
      exact .bind (inStep_statement hd s hs) fun _ _ _ => .pure hc
  | .returnValue _ _, _, h => by
    cases h with
    | returnValue _ he => exact .same (inStep_returnValue hc he) fun _ => .pure hc
  | .breakLoop _, _, h | .continueLoop _, _, h => by
    cases h
    unfold statement
    rw [hc.inLoop]
    exact .ite (.pure hc) (.same inStep_report fun _ => .pure hc)
  | .goto _ _, _, h => by
    cases h with
    | goto _ hi => exact .same (inStep_goto hc hi) fun _ => .pure hc
  | .labeled _ _ s, _, h => by
    cases h with
    | labeled _ _ hs =>
      unfold statement
      exact inStep_statement hc s hs
termination_by structural x => x

theorem inStep_statements {c c' : Context} (hc : c.Relaid l c') :
    (ss : List Stmt) → {ss' : List Stmt} → List.Forall₂ (Stmt.Relaid l) ss ss' →
      InStep l (Context.Relaid l) (statements c ss) (statements c' ss')
  | [], _, .nil => .pure hc
  | s :: ss, _, .cons hs hss => by
    unfold statements
    apply InStep.bind (inStep_statement hc s hs)
    intro d d' hd
    exact inStep_statements hd ss hss
termination_by structural x => x

end

end Binding

end CSharpFront
