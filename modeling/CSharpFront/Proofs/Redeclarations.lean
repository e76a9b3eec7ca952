import CSharpFront.Proofs.Binding.InPlace
/-!
Variables that are declared twice. Binding a statement adds nothing to the scopes around but the
new names of the declaration that it is, so that which names are declared again can be read off the
text.
-/

namespace CSharpFront

/-! ### Declarations in the text -/

namespace LocalDeclaration

/-- Variables that are declared in one scope after others. -/
def inOrder (earlier : List Identifier) : List Identifier → List LocalDeclaration
  | [] => []
  | i :: is => ⟨i, earlier⟩ :: inOrder (earlier ++ [i]) is

end LocalDeclaration

/-- The variables of the declaration that a statement is, perhaps behind labels. -/
def Stmt.declared : Stmt → List Identifier
  | .localDeclaration _ _ d _ => d.declarators.map (·.identifier)
  | .labeled _ _ s => s.declared
  | _ => []

mutual

/-- The variables that are declared in a statement, in their order, where others have been declared
in the scope that it stands in. -/
def Stmt.locals (earlier : List Identifier) : Stmt → List LocalDeclaration
  | .block ⟨_, _, ss, _⟩ => Stmt.allLocals [] ss
  | .localDeclaration _ _ d _ => LocalDeclaration.inOrder earlier (d.declarators.map (·.identifier))
  | .ifElse _ _ s s? =>
    s.locals [] ++
      match s? with
      | some s => s.locals []
      | none => []
  | .whileLoop _ _ s | .doLoop _ s _ => s.locals []
  | .forLoop _ h s => LocalDeclaration.inOrder [] h.names ++ s.locals []
  | .labeled _ _ s => s.locals earlier
  | .empty _ | .expression _ _ _ | .returnValue _ _ | .breakLoop _ | .continueLoop _
  | .goto _ _ => []

def Stmt.allLocals (earlier : List Identifier) : List Stmt → List LocalDeclaration
  | [] => []
  | s :: ss => s.locals earlier ++ Stmt.allLocals (earlier ++ s.declared) ss

end

/-- The parameters of a body and the variables in it, which are in a scope further in. -/
def Block.locals (parameters : List Parameter) (block? : Option Block) : List LocalDeclaration :=
  LocalDeclaration.inOrder [] (parameters.map (·.identifier)) ++
    match block? with
    | some b => (Stmt.block b).locals []
    | none => []

mutual

/-- The variables in the bodies of a type. A type without a name is passed over. -/
def TypeDeclaration.locals : TypeDeclaration → List LocalDeclaration
  | ⟨_, _, _, i, members⟩ => if i.isMissing then [] else ClassMember.allLocals members

def ClassMember.locals : ClassMember → List LocalDeclaration
  | .method m => Block.locals m.parameters m.body?
  | .conversion o => Block.locals o.parameters o.body?
  | .nestedType d => d.locals
  | .field _ | .incomplete _ => []

def ClassMember.allLocals : List ClassMember → List LocalDeclaration
  | [] => []
  | m :: ms => m.locals ++ ClassMember.allLocals ms

end

mutual

/-- The variables that a member declares in the scope of all statements outside types. -/
def Member.globalNames : Member → List Identifier
  | .namespaceMember n => n.globalNames
  | .globalStatement s => s.declared
  | .typeMember _ | .incomplete _ => []

def Member.allGlobalNames : List Member → List Identifier
  | [] => []
  | m :: ms => m.globalNames ++ Member.allGlobalNames ms

def NamespaceDeclaration.globalNames : NamespaceDeclaration → List Identifier
  | ⟨_, _, _, members⟩ => Member.allGlobalNames members

end

mutual

/-- The variables in a member, where others have been declared outside types. -/
def Member.locals (earlier : List Identifier) : Member → List LocalDeclaration
  | .namespaceMember n => n.locals earlier
  | .typeMember d => d.locals
  | .globalStatement s => s.locals earlier
  | .incomplete _ => []

def Member.allLocals (earlier : List Identifier) : List Member → List LocalDeclaration
  | [] => []
  | m :: ms => m.locals earlier ++ Member.allLocals (earlier ++ m.globalNames) ms

def NamespaceDeclaration.locals (earlier : List Identifier) :
    NamespaceDeclaration → List LocalDeclaration
  | ⟨_, _, _, members⟩ => Member.allLocals earlier members

end

/-- The parameters and variables of a unit, each with those before it in its scope. -/
def CompilationUnit.localDeclarations (u : CompilationUnit) : List LocalDeclaration :=
  Member.allLocals [] u.members

/-! ### Names of a scope -/

theorem Identifier.first?_append (is js : List Identifier) (name : String) :
    first? (is ++ js) name = (first? is name).or (first? js name) :=
  List.find?_append

namespace ScopeChain

variable {chain : ScopeChain} {earlier is js : List Identifier}
  {added added' : List (String × Local)}

/-- The names of the innermost scope are those of some identifiers. -/
def Knows (chain : ScopeChain) (earlier : List Identifier) : Prop :=
  ∀ name, (chain.inner.locals.lookup name).isSome = (Identifier.first? earlier name).isSome

/-- Variables that come of a declaration: for each name that the innermost scope does not have yet,
the first of the identifiers with that name. -/
def Adds (chain : ScopeChain) (is : List Identifier) (added : List (String × Local)) : Prop :=
  ∀ name, (added.lookup name).map (·.span) =
    if (chain.inner.locals.lookup name).isSome then none
    else (Identifier.first? is name).map (·.span)

theorem lookup_adding (chain : ScopeChain) (added : List (String × Local)) (name : String) :
    (chain.adding added).inner.locals.lookup name =
      (added.lookup name).or (chain.inner.locals.lookup name) :=
  List.lookup_append

namespace Adds

theorem nil (chain : ScopeChain) : chain.Adds [] [] := by
  intro name
  split <;> rfl

theorem eq_nil (h : chain.Adds [] added) : added = [] := by
  cases added with
  | nil => rfl
  | cons p added =>
    have hspan := h p.1
    simp [Identifier.first?] at hspan

/-- A name that the scope has is not added again. -/
theorem lookup_eq_none (h : chain.Adds is added) {name : String}
    (hname : (chain.inner.locals.lookup name).isSome = true) : added.lookup name = none := by
  have hspan := h name
  rw [if_pos hname] at hspan
  exact Option.map_eq_none_iff.mp hspan

theorem trans (h : chain.Adds is added) (h' : (chain.adding added).Adds js added') :
    chain.Adds (is ++ js) (added' ++ added) := by
  intro name
  have hboth := lookup_adding chain added name
  rw [List.lookup_append, Identifier.first?_append]
  by_cases hold : (chain.inner.locals.lookup name).isSome = true
  · have hknown : ((chain.adding added).inner.locals.lookup name).isSome = true := by
      rw [hboth, Option.isSome_or, hold, Bool.or_true]
    rw [if_pos hold, h.lookup_eq_none hold, h'.lookup_eq_none hknown]
    rfl
  have hspan := h name
  rw [if_neg hold] at hspan ⊢
  cases hnew : added.lookup name with
  | none =>
    have hspan' := h' name
    rw [hboth, hnew, Option.none_or, if_neg hold] at hspan'
    rw [hnew] at hspan
    rw [Option.or_none, hspan', Option.map_eq_none_iff.mp hspan.symm, Option.none_or]
  | some l =>
    have hknown : ((chain.adding added).inner.locals.lookup name).isSome = true := by
      rw [hboth, hnew]
      rfl
    rw [hnew] at hspan
    obtain ⟨i, hi, hl⟩ := Option.map_eq_some_iff.mp hspan.symm
    rw [h'.lookup_eq_none hknown, hi]
    exact hspan.trans (congrArg (Option.map _) hi)

end Adds

theorem Knows.adding (h : chain.Knows earlier) (hadds : chain.Adds is added) :
    (chain.adding added).Knows (earlier ++ is) := by
  intro name
  rw [lookup_adding, Identifier.first?_append, Option.isSome_or, Option.isSome_or, ← h name]
  by_cases hold : (chain.inner.locals.lookup name).isSome = true
  · rw [hold, Bool.or_true, Bool.true_or]
  · have hspan := congrArg Option.isSome (hadds name)
    rw [if_neg hold, Option.isSome_map, Option.isSome_map] at hspan
    rw [hspan, Bool.or_comm]

/-- Whatever names a scope has, there are identifiers with these. -/
theorem exists_knows (chain : ScopeChain) : ∃ earlier, chain.Knows earlier := by
  refine ⟨chain.inner.locals.map fun p => { text := p.1, range := ⟨0, 0⟩ }, fun name => ?_⟩
  induction chain.inner.locals with
  | nil => rfl
  | cons p ls ih =>
    rw [List.map_cons, List.lookup_cons, Identifier.first?, List.find?_cons, ← Identifier.first?]
    by_cases hname : name = p.1
    · simp [hname]
    · simp [beq_false_of_ne hname, beq_false_of_ne (Ne.symm hname), ih]

end ScopeChain

namespace Binding

variable {α β δ : Type} {c : Context} {chain : ScopeChain} {depth : Nat} {earlier : List Identifier}

/-! ### Declaring -/

/-- The current scope has got the new names of some identifiers. -/
def Extends (c : Context) (chain : ScopeChain) (depth : Nat) (is : List Identifier) (f : Frame)
    (c' : Context) : Prop :=
  ∃ added, chain.Adds is added ∧ f = ⟨some (chain.adding added), depth⟩ ∧ c' = f.context c

theorem Extends.nil : Extends c chain depth [] ⟨some chain, depth⟩
    (Frame.context ⟨some chain, depth⟩ c) :=
  ⟨[], .nil chain, rfl, rfl⟩

theorem Extends.trans {is js : List Identifier} {added : List (String × Local)} {f : Frame}
    {c' : Context} (hadds : chain.Adds is added)
    (h : Extends c (chain.adding added) depth js f c') : Extends c chain depth (is ++ js) f c' := by
  obtain ⟨added', hadds', rfl, rfl⟩ := h
  exact ⟨added' ++ added, hadds.trans hadds', by rw [ScopeChain.adding_adding], rfl⟩

theorem Follows.assoc {γ : Type} {f : Frame} {ds : List LocalDeclaration} {m : FrameM α}
    {n : BindM β} {l : β → BindM γ} {l' : γ → BindM δ} {post : α → Frame → δ → Prop}
    (h : Follows f ds m ((n >>= l) >>= l') post) :
    Follows f ds m (n >>= fun b => l b >>= l') post :=
  h

/-- A declaration of a name that is new. -/
theorem Follows.silent {f : Frame} {m : FrameM α} {n : BindM β} {post : α → Frame → β → Prop}
    {d : LocalDeclaration} (hd : d.isRepeated = false) (h : Follows f [] m n post) :
    Follows f [d] m n post := by
  intro s
  obtain ⟨hrun, hpost, new, hnew, hds⟩ := h s
  refine ⟨hrun, hpost, new, hnew, ?_⟩
  rw [hds, List.filter_cons_of_neg (by simp [hd])]

/-- A variable is declared unless its scope has one of its name, which is reported. -/
theorem follows_declare (h : chain.Knows earlier) (i : Identifier) (t : Ty) :
    Follows ⟨some chain, depth⟩ [⟨i, earlier⟩] (InPlace.declare i t)
      ((Frame.context ⟨some chain, depth⟩ c).declare i t) fun _ => Extends c chain depth [i] := by
  have hknown := h i.text
  unfold InPlace.declare Context.declare
  cases hmissing : i.isMissing with
  | true =>
    refine .silent ?_ (.pure ⟨[], fun name => ?_, rfl, rfl⟩)
    · simp [LocalDeclaration.isRepeated, hmissing]
    · simp [Identifier.first?, hmissing]
  | false =>
    simp only [Bool.false_eq_true, if_false]
    refine .get ?_
    dsimp only [Frame.context, Option.getD_some]
    cases hlookup : chain.inner.locals.lookup i.text with
    | some l =>
      have hnone : chain.declareLocal? i.text ⟨t, i.span⟩ = none := by
        rw [ScopeChain.declareLocal?, hlookup]
        rfl
      have hrepeated : LocalDeclaration.isRepeated ⟨i, earlier⟩ = true := by
        rw [hlookup] at hknown
        simp [LocalDeclaration.isRepeated, hmissing, ← hknown]
      rw [hnone]
      refine fun s => ⟨rfl, ⟨[], fun name => ?_, rfl, rfl⟩, [.of .duplicateLocal i.span [i.text]],
        Array.toList_push, ?_⟩
      · by_cases hname : name = i.text
        · simp [hname, hlookup]
        · simp [Identifier.first?, Ne.symm hname]
      · simp [hrepeated, LocalDeclaration.report, Diagnostic.of]
    | none =>
      have hsome : chain.declareLocal? i.text ⟨t, i.span⟩ =
          some (chain.adding [(i.text, ⟨t, i.span⟩)]) :=
        ScopeChain.declareLocal?_eq_some_iff.mpr ⟨hlookup, rfl⟩
      rw [hsome]
      refine .silent ?_ (.set ⟨[(i.text, ⟨t, i.span⟩)], fun name => ?_, rfl, rfl⟩)
      · rw [hlookup] at hknown
        simp [LocalDeclaration.isRepeated, ← hknown]
      · by_cases hname : name = i.text
        · simp [hname, hlookup, Identifier.first?, hmissing]
        · simp [Identifier.first?, List.lookup_cons, beq_false_of_ne hname, Ne.symm hname]

/-- Things that each declare a variable: each name is added to those before it. -/
theorem follows_each (depth : Nat) {ι : Type} {name : ι → Identifier} {m : ι → FrameM Unit}
    {n : Context → ι → BindM Context}
    (hone : ∀ {chain : ScopeChain} {earlier : List Identifier}, chain.Knows earlier → ∀ x,
      Follows ⟨some chain, depth⟩ [⟨name x, earlier⟩] (m x)
        (n (Frame.context ⟨some chain, depth⟩ c) x) fun _ => Extends c chain depth [name x])
    (h : chain.Knows earlier) (xs : List ι) :
    Follows ⟨some chain, depth⟩ (LocalDeclaration.inOrder earlier (xs.map name)) (xs.forM m)
      (xs.foldlM n (Frame.context ⟨some chain, depth⟩ c))
      fun _ => Extends c chain depth (xs.map name) := by
  induction xs generalizing chain earlier with
  | nil => exact .pure .nil
  | cons x xs ih =>
    rw [List.forM_eq_forM, List.forM_cons, List.foldlM_cons]
    refine .bind (hone h x) ?_
    rintro _ _ _ ⟨added, hadds, rfl, rfl⟩
    exact (ih (h.adding hadds)).imp fun _ _ _ => .trans hadds

theorem stays_initialValue (target : Ty) (e : Expr) :
    Stays ⟨some chain, depth⟩ (InPlace.initialValue c target e)
      (initialValue (Frame.context ⟨some chain, depth⟩ c) target e) := by
  refine .next (stays_expression chain depth (some target) e) fun _ => ?_
  exact .ite (fun _ => .stay _) fun _ => .lift (discreet_assign c _ _ _)

theorem stays_condition (e : Expr) :
    Stays ⟨some chain, depth⟩ (InPlace.condition c e)
      (condition (Frame.context ⟨some chain, depth⟩ c) e) :=
  .next (stays_expression chain depth none e) fun _ => .lift (discreet_require c _ _)

theorem stays_inferredType (e? : Option Expr) :
    Stays ⟨some chain, depth⟩ (InPlace.inferredType c e?)
      (inferredType (Frame.context ⟨some chain, depth⟩ c) e?) := by
  cases e? with
  | none => exact .stay _
  | some e => exact .next (stays_expression chain depth none e) fun _ => .stay _

theorem follows_declarator (h : chain.Knows earlier) (declared? : Option Ty) (d : Declarator) :
    Follows ⟨some chain, depth⟩ [⟨d.identifier, earlier⟩] (InPlace.declarator c declared? d)
      (declarator declared? (Frame.context ⟨some chain, depth⟩ c) d)
      fun _ => Extends c chain depth [d.identifier] := by
  obtain ⟨_, i, e?⟩ := d
  cases declared? with
  | none => exact .next (stays_inferredType e?) (follows_declare h i)
  | some t =>
    cases e? with
    | none => exact follows_declare h i t
    | some e => exact .next (stays_initialValue t e) fun _ => follows_declare h i t

theorem follows_declareVariables (h : chain.Knows earlier) (d : VariableDeclaration) :
    Follows ⟨some chain, depth⟩
      (LocalDeclaration.inOrder earlier (d.declarators.map (·.identifier)))
      (InPlace.declareVariables c d)
      (declareVariables (Frame.context ⟨some chain, depth⟩ c) d)
      fun _ => Extends c chain depth (d.declarators.map (·.identifier)) := by
  have hall (declared? : Option Ty) := follows_each (c := c) depth
    (fun h d => follows_declarator h declared? d) h d.declarators
  have hresolve : Discreet (some <$> c.resolve d.type) := discreet_of_eq fun _ => rfl
  unfold InPlace.declareVariables declareVariables
  exact .ite (fun _ => hall none) fun _ => .next (.lift hresolve) hall

theorem follows_forHeader (h : chain.Knows []) (header : ForHeader) :
    Follows ⟨some chain, depth⟩ (LocalDeclaration.inOrder [] header.names)
      (InPlace.forHeader c header) (forHeader (Frame.context ⟨some chain, depth⟩ c) header)
      fun _ => Extends c chain depth header.names := by
  obtain ⟨_, _, i?, _, e?, _, es, _⟩ := header
  have hes {chain : ScopeChain} {post : Unit → Frame → Context → Prop}
      (hpost : post () ⟨some chain, depth⟩ (Frame.context ⟨some chain, depth⟩ c)) :
      Follows ⟨some chain, depth⟩ [] (do let _ ← InPlace.expressions c es)
        (do
          let _ ← expressions (Frame.context ⟨some chain, depth⟩ c) es
          return Frame.context ⟨some chain, depth⟩ c) post :=
    .next (stays_expressions chain depth es) fun _ => .pure hpost
  have hcondition {chain : ScopeChain} {post : Unit → Frame → Context → Prop}
      (hpost : post () ⟨some chain, depth⟩ (Frame.context ⟨some chain, depth⟩ c)) (e : Expr) :
      Follows ⟨some chain, depth⟩ []
        (do
          InPlace.condition c e
          let _ ← InPlace.expressions c es)
        (do
          condition (Frame.context ⟨some chain, depth⟩ c) e
          let _ ← expressions (Frame.context ⟨some chain, depth⟩ c) es
          return Frame.context ⟨some chain, depth⟩ c) post :=
    .next (stays_condition e) fun _ => hes hpost
  cases e? with
  | none =>
    rcases i? with _ | ⟨d⟩ | ⟨is⟩
    · exact hes .nil
    · refine .last (follows_declareVariables h d) ?_
      rintro _ _ _ ⟨added, hadds, rfl, rfl⟩
      exact hes ⟨added, hadds, rfl, rfl⟩
    · exact .next (stays_expressions chain depth is) fun _ => hes .nil
  | some e =>
    rcases i? with _ | ⟨d⟩ | ⟨is⟩
    · exact hcondition .nil e
    · refine .last (follows_declareVariables h d) ?_
      rintro _ _ _ ⟨added, hadds, rfl, rfl⟩
      exact hcondition ⟨added, hadds, rfl, rfl⟩ e
    · exact .next (stays_expressions chain depth is) fun _ => hcondition .nil e

theorem stays_returnValue (e? : Option Expr) :
    Stays ⟨some chain, depth⟩ (InPlace.returnValue c e?)
      (returnValue (Frame.context ⟨some chain, depth⟩ c) e?) := by
  cases e? with
  | none => exact .stay _
  | some e =>
    refine .next (stays_expression chain depth none e) fun _ => ?_
    dsimp only [Frame.context]
    cases c.returns? with
    | none => exact .stay _
    | some target => exact .ite (fun _ => .stay _) fun _ => .lift (discreet_assign c _ _ _)

/-! ### Labels -/

/-- The current scope has got labels. -/
def Labels (c : Context) (chain : ScopeChain) (depth : Nat) (f : Frame) (c' : Context) : Prop :=
  ∃ labels, f = ⟨some { chain with inner := { chain.inner with labels } }, depth⟩ ∧
    c' = f.context c

theorem follows_declareLabel (l : Identifier) :
    Follows ⟨some chain, depth⟩ [] (InPlace.declareLabel l)
      (declareLabel (Frame.context ⟨some chain, depth⟩ c) l) fun _ => Labels c chain depth := by
  refine .ite (fun _ => .pure ⟨chain.inner.labels, rfl, rfl⟩) fun _ => .get ?_
  dsimp only [Frame.context, Option.getD_some]
  unfold ScopeChain.declareLabel?
  cases (chain.inner.labels.lookup l.text).isSome with
  | true =>
    have hreport : Discreet (report .duplicateLabel l.span [l.text]) :=
      discreet_report (by decide) _ _
    refine (Follows.lift hreport).returns ?_
    rintro _ _ _ ⟨-, rfl⟩
    exact ⟨chain.inner.labels, rfl, rfl⟩
  | false => exact .set ⟨_, rfl, rfl⟩

theorem follows_declareLabels (ss : List Stmt) :
    Follows ⟨some chain, depth⟩ [] (InPlace.declareLabels ss)
      (declareLabels (Frame.context ⟨some chain, depth⟩ c) ss) fun _ => Labels c chain depth := by
  unfold InPlace.declareLabels declareLabels
  induction ss.flatMap Stmt.labels generalizing chain with
  | nil => exact .pure ⟨chain.inner.labels, rfl, rfl⟩
  | cons l ls ih =>
    rw [List.forM_eq_forM, List.forM_cons, List.foldlM_cons]
    refine .bind (follows_declareLabel l) ?_
    rintro _ _ _ ⟨labels, rfl, rfl⟩
    refine ih.imp ?_
    rintro _ _ _ ⟨labels', rfl, rfl⟩
    exact ⟨labels', rfl, rfl⟩

/-- A scope that begins with labels, and then has statements. -/
theorem Follows.labelled {ds : List LocalDeclaration} {is : List Identifier} {m : FrameM Unit}
    {n : Context → BindM Context}
    (h : ∀ {chain}, chain.Knows [] → Follows ⟨some chain, depth⟩ ds m
      (n (Frame.context ⟨some chain, depth⟩ c)) fun _ => Extends c chain depth is)
    (ss : List Stmt) :
    Follows ⟨some chain, depth⟩ ds (InPlace.inScope do
        InPlace.declareLabels ss
        m)
      (declareLabels (Frame.context ⟨some chain, depth⟩ c).push ss >>= n)
      fun _ f _ => f = ⟨some chain, depth⟩ := by
  have hscope : Follows ⟨some chain.push, depth⟩ ds (do
        InPlace.declareLabels ss
        m)
      (declareLabels (Frame.context ⟨some chain, depth⟩ c).push ss >>= n)
      fun _ f _ => True ∧ ∃ inner, f = ⟨some ⟨inner, chain.toList⟩, depth⟩ := by
    refine .bind (follows_declareLabels ss) ?_
    rintro _ _ _ ⟨labels, rfl, rfl⟩
    refine (h fun _ => rfl).imp ?_
    rintro _ _ _ ⟨added, -, rfl, -⟩
    exact ⟨trivial, _, rfl⟩
  exact (Follows.inScope hscope).imp fun _ _ _ h => h.2

/-! ### Statements -/

theorem Follows.inLoop {ds : List LocalDeclaration} {m : FrameM Unit} {n : BindM β}
    (h : Follows ⟨some chain, depth + 1⟩ ds m n fun _ f _ => f = ⟨some chain, depth + 1⟩) :
    Follows ⟨some chain, depth⟩ ds (InPlace.inLoop m) n fun _ f _ => f = ⟨some chain, depth⟩ := by
  intro s
  obtain ⟨hrun, hf, hds⟩ := h s
  exact ⟨hrun, congrArg (fun f : Frame => { f with loopDepth := f.loopDepth - 1 }) hf, hds⟩

/-- A block declares nothing in the scopes around, whatever has been declared there. -/
theorem follows_block (chain : ScopeChain) (depth : Nat) {b : Block}
    (h : ∀ {chain earlier}, chain.Knows earlier →
      Follows ⟨some chain, depth⟩ ((Stmt.block b).locals earlier) (InPlace.statement c (.block b))
        (statement (Frame.context ⟨some chain, depth⟩ c) (.block b))
        fun _ => Extends c chain depth (Stmt.block b).declared) :
    Follows ⟨some chain, depth⟩ ((Stmt.block b).locals []) (InPlace.statement c (.block b))
      (statement (Frame.context ⟨some chain, depth⟩ c) (.block b))
      fun _ f _ => f = ⟨some chain, depth⟩ := by
  obtain ⟨_, _, ss, _⟩ := b
  -- The variables of a block are the same whatever is known around it.
  obtain ⟨earlier, hearlier⟩ := chain.exists_knows
  refine Follows.imp (h hearlier) ?_
  rintro _ _ _ ⟨added, hadds, rfl, -⟩
  rw [hadds.eq_nil]
  rfl

/-- A statement that is part of another one declares nothing in the scopes around. -/
theorem follows_embedded (chain : ScopeChain) (depth : Nat) {s : Stmt}
    (h : ∀ {chain earlier}, chain.Knows earlier → Follows ⟨some chain, depth⟩ (s.locals earlier)
      (InPlace.statement c s) (statement (Frame.context ⟨some chain, depth⟩ c) s)
      fun _ => Extends c chain depth s.declared) :
    Follows ⟨some chain, depth⟩ (s.locals []) (InPlace.embedded s (InPlace.statement c s))
      (do statement (← embed (Frame.context ⟨some chain, depth⟩ c) s) s)
      fun _ f _ => f = ⟨some chain, depth⟩ := by
  have hscope : Follows ⟨some chain, depth⟩ (s.locals [])
      (InPlace.inScope do
        InPlace.declareLabels [s]
        InPlace.statement c s)
      (declareLabels (Frame.context ⟨some chain, depth⟩ c).push [s] >>= (statement · s))
      fun _ f _ => f = ⟨some chain, depth⟩ :=
    .labelled (n := (statement · s)) h [s]
  cases s with
  | block b => exact follows_block chain depth h
  | _ => exact hscope

theorem discreet_goto (c : Context) (l : Identifier) : Discreet (goto c l) := by
  unfold goto
  split
  · exact .refl
  · split
    · exact discreet_of_eq fun _ => rfl
    · exact discreet_report (by decide) _ _

mutual

theorem follows_statement {c : Context} {chain : ScopeChain} {earlier : List Identifier}
    (h : chain.Knows earlier) (depth : Nat) : (s : Stmt) →
      Follows ⟨some chain, depth⟩ (s.locals earlier) (InPlace.statement c s)
        (statement (Frame.context ⟨some chain, depth⟩ c) s)
        fun _ => Extends c chain depth s.declared
  | .block ⟨_, _, ss, _⟩ => by
    have hscope : Follows ⟨some chain, depth⟩ (Stmt.allLocals [] ss)
        (InPlace.inScope do
          InPlace.declareLabels ss
          InPlace.statements c ss)
        (declareLabels (Frame.context ⟨some chain, depth⟩ c).push ss >>= (statements · ss))
        fun _ f _ => f = ⟨some chain, depth⟩ :=
      .labelled (n := (statements · ss)) (fun h => follows_statements h depth ss) ss
    refine .assoc (hscope.returns ?_)
    rintro _ _ _ rfl
    exact .nil
  | .empty _ => .pure .nil
  | .localDeclaration _ _ d _ => follows_declareVariables h d
  | .expression _ e _ => .next (stays_expression chain depth none e) fun _ => .pure .nil
  | .ifElse _ e s none => by
    rw [Stmt.locals, List.append_nil]
    have hs := follows_embedded chain depth fun h => follows_statement (c := c) h depth s
    refine .next (stays_condition e) fun _ => .assoc (.last hs ?_)
    rintro _ _ _ rfl
    exact .pure .nil
  | .ifElse _ e s (some s') => by
    have hs := follows_embedded chain depth fun h => follows_statement (c := c) h depth s
    have hs' := follows_embedded chain depth fun h => follows_statement (c := c) h depth s'
    refine .next (stays_condition e) fun _ => .assoc (.bind hs ?_)
    rintro _ _ _ rfl
    refine .assoc (hs'.returns ?_)
    rintro _ _ _ rfl
    exact .nil
  | .whileLoop _ e s => by
    have hs := follows_embedded chain (depth + 1) fun h =>
      follows_statement (c := c) h (depth + 1) s
    refine .next (stays_condition e) fun _ => .assoc (hs.inLoop.returns ?_)
    rintro _ _ _ rfl
    exact .nil
  | .doLoop _ s e => by
    have hs := follows_embedded chain (depth + 1) fun h =>
      follows_statement (c := c) h (depth + 1) s
    refine .assoc (.last hs.inLoop ?_)
    rintro _ _ _ rfl
    refine (stays_condition e).returns ?_
    rintro _ _ _ ⟨-, rfl⟩
    exact .nil
  | .forLoop _ header s => by
    have hs (chain : ScopeChain) := follows_embedded chain (depth + 1) fun h =>
      follows_statement (c := c) h (depth + 1) s
    have hscope : Follows ⟨some chain.push, depth⟩
        (LocalDeclaration.inOrder [] header.names ++ s.locals [])
        (do
          InPlace.forHeader c header
          InPlace.inLoop (InPlace.embedded s (InPlace.statement c s)))
        (do
          let inner ← forHeader (Frame.context ⟨some chain, depth⟩ c).push header
          let _ ← statement (← embed { inner with inLoop := true } s) s
          return Frame.context ⟨some chain, depth⟩ c)
        fun _ f c' => c' = Frame.context ⟨some chain, depth⟩ c ∧
          ∃ inner, f = ⟨some ⟨inner, chain.toList⟩, depth⟩ := by
      refine .bind (follows_forHeader (fun _ => rfl) header) ?_
      rintro _ _ _ ⟨added, -, rfl, rfl⟩
      refine .assoc ((hs _).inLoop.returns ?_)
      rintro _ _ _ rfl
      exact ⟨rfl, _, rfl⟩
    have houtside : Follows ⟨some chain, depth⟩ _ _ _ fun _ f c' =>
        c' = Frame.context ⟨some chain, depth⟩ c ∧ f = ⟨some chain, depth⟩ := .inScope hscope
    refine houtside.imp ?_
    rintro _ _ _ ⟨rfl, rfl⟩
    exact .nil
  | .returnValue _ e? => (stays_returnValue e?).returns (by rintro _ _ _ ⟨-, rfl⟩; exact .nil)
  | .breakLoop r | .continueLoop r => by
    have hreport : Discreet (report .noEnclosingLoop r.toSpan) := discreet_report (by decide) _ _
    refine .get ?_
    cases depth with
    | zero =>
      refine (Follows.lift hreport).returns ?_
      rintro _ _ _ ⟨-, rfl⟩
      exact .nil
    | succ depth => exact .pure .nil
  | .goto _ l => by
    refine .see ((Follows.lift (discreet_goto _ l)).returns ?_)
    rintro _ _ _ ⟨-, rfl⟩
    exact .nil
  | .labeled _ _ s => follows_statement h depth s

theorem follows_statements {c : Context} {chain : ScopeChain} {earlier : List Identifier}
    (h : chain.Knows earlier) (depth : Nat) : (ss : List Stmt) →
      Follows ⟨some chain, depth⟩ (Stmt.allLocals earlier ss) (InPlace.statements c ss)
        (statements (Frame.context ⟨some chain, depth⟩ c) ss)
        fun _ => Extends c chain depth (ss.flatMap Stmt.declared)
  | [] => .pure .nil
  | s :: ss => by
    refine .bind (follows_statement h depth s) ?_
    rintro _ _ _ ⟨added, hadds, rfl, rfl⟩
    exact (follows_statements (h.adding hadds) depth ss).imp fun _ _ _ => .trans hadds

end

/-! ### Bodies -/

/-- A context outside of all bodies. -/
def Context.Outside (c : Context) : Prop := c = Frame.context ⟨some {}, 0⟩ c

/-- A body begins in a new scope outside of loops, wherever binding stood, and none is left. -/
theorem follows_body (hc : c.Outside) (returns? : Option Ty) (ps : List Parameter)
    (b? : Option Block) (f : Frame) :
    Follows f (Block.locals ps b?) (InPlace.body c returns? ps b?) (body c returns? ps b?)
      fun _ f _ => f = ⟨none, 0⟩ := by
  have hone {chain : ScopeChain} {earlier : List Identifier} (h : chain.Knows earlier)
      (p : Parameter) : Follows ⟨some chain, 0⟩ [⟨p.identifier, earlier⟩]
        (do InPlace.declare p.identifier (← c.resolve p.type))
        (do
          let c' := Frame.context ⟨some chain, 0⟩ { c with returns? }
          c'.declare p.identifier (← c'.resolve p.type))
        fun _ => Extends { c with returns? } chain 0 [p.identifier] :=
    .next (.lift (discreet_resolve c p.type)) (follows_declare h p.identifier)
  have hcontext : ({ c with returns? } : Context) =
      Frame.context ⟨some {}, 0⟩ { c with returns? } := by
    rw [hc]
    rfl
  unfold body
  rw [hcontext]
  refine .setting (.bind (follows_each 0 hone (fun _ => rfl) ps) ?_)
  rintro _ _ _ ⟨added, hadds, rfl, rfl⟩
  cases b? with
  | none => exact (Follows.stay ()).moving fun _ _ _ h => by rw [h.2]
  | some b =>
    have hb := follows_block (ScopeChain.adding {} added) 0 fun h =>
      follows_statement (c := { c with returns? }) h 0 (.block b)
    have hbound : Follows ⟨some (ScopeChain.adding {} added), 0⟩ ((Stmt.block b).locals [])
        (InPlace.statement { c with returns? } (.block b))
        (do let _ ← statement (Frame.context ⟨some (ScopeChain.adding {} added), 0⟩
          { c with returns? }) (.block b))
        fun _ f _ => f.loopDepth = 0 :=
      hb.returns fun _ _ _ h => congrArg Frame.loopDepth h
    exact hbound.moving fun _ _ _ h => by rw [h]

theorem discreet_initialValue (hc : c.Outside) (t : Ty) (e : Expr) :
    Discreet (initialValue c t e) := by
  intro s
  rw [hc]
  exact (stays_initialValue t e s).2.2

theorem discreet_field (hc : c.Outside) (f : Field) : Discreet (field c f) := by
  refine (discreet_resolve c _).next fun t => ?_
  induction f.declaration.declarators with
  | nil => exact .refl
  | cons d ds ih =>
    rw [List.forM_eq_forM, List.forM_cons]
    refine Discreet.next ?_ fun _ => ih
    cases d.initializer? with
    | none => exact .refl
    | some e => exact discreet_initialValue hc t e

/-! ### Members -/

/-- A binding that may be cancelled, which reports what some declarations give rise to, or what a
first part of them does. It is not cancelled if nobody ever asks for it. -/
def RedeclaresAll (ds : List LocalDeclaration) (m : Cancellable α) (post : α → Prop) : Prop :=
  ∀ polls s, (∃ a polls', (m.run polls s).1 = (.ok a, polls') ∧ post a ∧
      Redeclared ds s (m.run polls s).2 ∧ (polls = none → polls' = none)) ∨
    polls ≠ none ∧ ∃ e first, (m.run polls s).1.1 = .error e ∧ first <+: ds ∧
      Redeclared first s (m.run polls s).2

namespace RedeclaresAll

variable {m : Cancellable α} {post : α → Prop} {after : β → Prop}
  {ds ds' : List LocalDeclaration}

theorem pure {a : α} (h : post a) : RedeclaresAll [] (Pure.pure a) post :=
  fun polls s => .inl ⟨a, polls, rfl, h, .refl s, id⟩

theorem lift {n : BindM α} (h : ∀ s, post (n s).1 ∧ Redeclared ds s (n s).2) :
    RedeclaresAll ds (liftM n) post :=
  fun polls s => .inl ⟨(n s).1, polls, rfl, (h s).1, (h s).2, id⟩

theorem quiet {n : BindM α} (h : Discreet n) : RedeclaresAll [] (liftM n) fun _ => True :=
  .lift fun s => ⟨trivial, h s⟩

theorem bind {f : α → Cancellable β} (hm : RedeclaresAll ds m post)
    (hf : ∀ a, post a → RedeclaresAll ds' (f a) after) :
    RedeclaresAll (ds ++ ds') (m >>= f) after := by
  intro polls s
  have hrun : (m >>= f).run polls s =
      ExceptT.bindCont f (m.run polls s).1.1 (m.run polls s).1.2 (m.run polls s).2 := rfl
  rw [hrun]
  rcases hm polls s with ⟨a, polls', ha, hpost, hds, hnone⟩ | ⟨hne, e, first, he, hfirst, hds⟩
  · rw [ha]
    rcases hf a hpost polls' (m.run polls s).2 with ⟨b, polls'', hb, hafter, hds', hnone'⟩ |
      ⟨hne, e, first, he, hfirst, hds'⟩
    · exact .inl ⟨b, polls'', hb, hafter, hds.trans hds', fun h => hnone' (hnone h)⟩
    · exact .inr ⟨fun h => hne (hnone h), e, ds ++ first, he,
        (List.prefix_append_right_inj ds).mpr hfirst, hds.trans hds'⟩
  · rw [he]
    exact .inr ⟨hne, e, first, rfl, hfirst.trans (List.prefix_append ds ds'), hds⟩

theorem next {f : α → Cancellable β} (hm : RedeclaresAll [] m post)
    (hf : ∀ a, post a → RedeclaresAll ds (f a) after) : RedeclaresAll ds (m >>= f) after :=
  bind hm hf

theorem last {f : α → Cancellable β} (hm : RedeclaresAll ds m post)
    (hf : ∀ a, post a → RedeclaresAll [] (f a) after) : RedeclaresAll ds (m >>= f) after := by
  have hboth := bind hm hf
  rwa [List.append_nil] at hboth

end RedeclaresAll

theorem redeclaresAll_poll : RedeclaresAll [] poll fun _ => True := by
  intro polls s
  cases polls with
  | none => exact .inl ⟨(), none, rfl, trivial, .refl s, id⟩
  | some n =>
    cases n with
    | zero =>
      exact .inr ⟨Option.some_ne_none 0, .cancelled, [], rfl, List.nil_prefix, .refl s⟩
    | succ n =>
      exact .inl ⟨(), some n, rfl, trivial, .refl s, fun h => absurd h (Option.some_ne_none _)⟩

theorem redeclaresAll_body (hc : c.Outside) (returns? : Option Ty) (ps : List Parameter)
    (b? : Option Block) :
    RedeclaresAll (Block.locals ps b?) (liftM (body c returns? ps b?)) fun _ => True :=
  .lift fun s => ⟨trivial, (follows_body hc returns? ps b? ⟨none, 0⟩ s).2.2⟩

mutual

theorem redeclaresAll_typeDeclaration {c : Context} (hc : c.Outside) (container : String) :
    (d : TypeDeclaration) →
      RedeclaresAll d.locals (typeDeclaration c container d) fun _ => True
  | ⟨_, _, _, i, ms⟩ => by
    unfold typeDeclaration TypeDeclaration.locals
    cases i.isMissing with
    | true => exact .pure trivial
    | false =>
      have howner (owner? : Option Ty) : Context.Outside { c with owner? } := by
        rw [hc]
        rfl
      exact redeclaresAll_classMembers (howner _) _ ms

theorem redeclaresAll_classMember {c : Context} (hc : c.Outside) (owner : String) :
    (m : ClassMember) → RedeclaresAll m.locals (classMember c owner m) fun _ => True
  | .field f => .quiet (discreet_field hc f)
  | .method m => by
    unfold classMember
    split
    next type _ =>
      have hresolve : Discreet (some <$> c.resolve type) := discreet_of_eq fun _ => rfl
      exact .next (.quiet hresolve) fun returns? _ =>
        redeclaresAll_body hc returns? m.parameters m.body?
    · exact redeclaresAll_body hc none m.parameters m.body?
  | .conversion o =>
    .next (.quiet (discreet_resolve c o.type)) fun t _ =>
      redeclaresAll_body hc (some t) o.parameters o.body?
  | .nestedType d => redeclaresAll_typeDeclaration hc owner d
  | .incomplete _ => .pure trivial

theorem redeclaresAll_classMembers {c : Context} (hc : c.Outside) (owner : String) :
    (ms : List ClassMember) →
      RedeclaresAll (ClassMember.allLocals ms) (classMembers c owner ms) fun _ => True
  | [] => .pure trivial
  | m :: ms =>
    .next redeclaresAll_poll fun _ _ => .bind (redeclaresAll_classMember hc owner m) fun _ _ =>
      redeclaresAll_classMembers hc owner ms

end

mutual

theorem redeclaresAll_member {c : Context} (hc : c.Outside) (container : String)
    {globals : ScopeChain} {earlier : List Identifier} (h : globals.Knows earlier) :
    (m : Member) → RedeclaresAll (m.locals earlier) (member c container globals m)
      fun globals => globals.Knows (earlier ++ m.globalNames)
  | .namespaceMember n => redeclaresAll_namespace hc container h n
  | .typeMember d => by
    refine .last (redeclaresAll_typeDeclaration hc container d) fun _ _ => .pure ?_
    rwa [Member.globalNames, List.append_nil]
  | .globalStatement st => by
    have hcontext : ({ c with scopes := globals } : Context) =
        Frame.context ⟨some globals, 0⟩ c := by
      rw [hc]
      rfl
    have hst : RedeclaresAll (st.locals earlier)
        (liftM (statement (Frame.context ⟨some globals, 0⟩ c) st))
        fun c' => c'.scopes.Knows (earlier ++ st.declared) := by
      refine .lift fun s => ?_
      obtain ⟨-, ⟨added, hadds, hf, hc'⟩, hds⟩ := follows_statement (c := c) h 0 st s
      refine ⟨?_, hds⟩
      rw [hc', hf]
      exact h.adding hadds
    unfold member
    rw [hcontext]
    exact .last hst fun _ h => .pure h
  | .incomplete _ => .pure (by rwa [Member.globalNames, List.append_nil])

theorem redeclaresAll_members {c : Context} (hc : c.Outside) (container : String)
    {globals : ScopeChain} {earlier : List Identifier} (h : globals.Knows earlier) :
    (ms : List Member) →
      RedeclaresAll (Member.allLocals earlier ms) (members c container globals ms)
      fun globals => globals.Knows (earlier ++ Member.allGlobalNames ms)
  | [] => .pure (by rwa [Member.allGlobalNames, List.append_nil])
  | m :: ms => by
    rw [Member.allGlobalNames, ← List.append_assoc]
    exact .next redeclaresAll_poll fun _ _ =>
      .bind (redeclaresAll_member hc container h m) fun _ h =>
        redeclaresAll_members hc container h ms

theorem redeclaresAll_namespace {c : Context} (hc : c.Outside) (container : String)
    {globals : ScopeChain} {earlier : List Identifier} (h : globals.Knows earlier) :
    (n : NamespaceDeclaration) →
      RedeclaresAll (n.locals earlier) (namespaceDeclaration c container globals n)
        fun globals => globals.Knows (earlier ++ n.globalNames)
  | ⟨_, _, _, ms⟩ => redeclaresAll_members hc _ h ms

end

theorem redeclaresAll_unit (hc : c.Outside) (u : CompilationUnit) :
    RedeclaresAll u.localDeclarations (unit c u) fun _ => True := by
  have hlabels : RedeclaresAll [] (liftM (declareLabels c u.globalStatements))
      fun c' => c'.scopes.Knows [] := by
    rw [hc]
    refine .lift fun s => ?_
    obtain ⟨-, ⟨labels, hf, hc'⟩, hds⟩ := follows_declareLabels (c := c) u.globalStatements s
    refine ⟨?_, hds⟩
    rw [hc', hf]
    exact fun _ => rfl
  refine .next hlabels fun globals h => ?_
  exact .last (redeclaresAll_members hc "" h u.members) fun _ _ => .pure trivial

end Binding

/-- The reports on variables that are declared twice in a unit, or a first part of these if its
binding is cancelled. -/
theorem redeclared_bindUnit (u : CompilationUnit) (before : Array Diagnostic) (polls : Polls) :
    let r := bindUnit u before polls
    ∃ ds, Binding.Redeclared ds { diagnostics := before } r.2.2.state ∧
      (r.1 = .ok () ∧ ds = u.localDeclarations ∨
        polls ≠ none ∧ r.1 = .error .cancelled ∧ ds <+: u.localDeclarations) := by
  intro r
  let ds := Declarations.ofMembers u.members
  have hunit := Binding.redeclaresAll_unit (c := .of ds) rfl u polls
    { listing := ds.listing, diagnostics := before }
  rcases hunit with ⟨_, polls', hrun, -, hds, -⟩ | ⟨hne, e, first, he, hfirst, hds⟩
  · exact ⟨_, hds, .inl ⟨congrArg Prod.fst hrun, rfl⟩⟩
  · cases e
    exact ⟨first, hds, .inr ⟨hne, he, hfirst⟩⟩

/-- With a current scope an expression leaves all scopes and the count of loops, and so does a
statement but for the new names of the declaration that it is, which the current scope gets; and
each does just what binding does that is handed what it can see. So of all parameters and variables
of a unit those are reported of which another one before them in their scope has the name, or a
first part of these if binding is cancelled. -/
theorem scopes_framed :
    (∀ (c : Binding.Context) (scopes : ScopeChain) (depth : Nat) (expected? : Option Ty) (e : Expr)
        (s : Binding.State),
      let f : Binding.Frame := ⟨some scopes, depth⟩
      let r := Binding.expression (f.context c) expected? e s
      Binding.InPlace.expression c expected? e f s = ((r.1, f), r.2)) ∧
    (∀ (c : Binding.Context) (scopes : ScopeChain) (depth : Nat) (st : Stmt) (s : Binding.State),
      ∃ added, scopes.Adds st.declared added ∧
        let f : Binding.Frame := ⟨some scopes, depth⟩
        let f' : Binding.Frame := ⟨some (scopes.adding added), depth⟩
        let r := Binding.statement (f.context c) st s
        Binding.InPlace.statement c st f s = (((), f'), r.2) ∧ r.1 = f'.context c) ∧
    ∀ (u : CompilationUnit) (before : Array Diagnostic) (polls : Polls),
      let r := bindUnit u before polls
      ∃ ds, r.2.2.state.diagnostics.toList.filter (·.message = .duplicateLocal) =
          before.toList.filter (·.message = .duplicateLocal) ++
            (ds.filter LocalDeclaration.isRepeated).map LocalDeclaration.report ∧
        (r.1 = .ok () ∧ ds = u.localDeclarations ∨
          polls ≠ none ∧ r.1 = .error .cancelled ∧ ds <+: u.localDeclarations) := by
  refine ⟨fun c scopes depth expected? e s => ?_, fun c scopes depth st s => ?_,
    fun u before polls => ?_⟩
  · obtain ⟨hrun, ⟨hd, hf⟩, -⟩ := Binding.stays_expression (c := c) scopes depth expected? e s
    exact Prod.ext (Prod.ext hd hf) hrun
  · -- Only the reports refer to the identifiers, so any with the names of the scope will do.
    obtain ⟨earlier, hearlier⟩ := scopes.exists_knows
    obtain ⟨hrun, ⟨added, hadds, hf, hc⟩, -⟩ :=
      Binding.follows_statement (c := c) hearlier depth st s
    refine ⟨added, hadds, Prod.ext (Prod.ext rfl hf) hrun, ?_⟩
    rw [hc, hf]
  · obtain ⟨ds, ⟨new, hnew, hds⟩, hresult⟩ := redeclared_bindUnit u before polls
    refine ⟨ds, ?_, hresult⟩
    rw [hnew, List.filter_append, hds]

/-- The variable in the `if` is in a scope of its own, the last one in that of the first. -/
example :
    let declare (start : Nat) : Stmt :=
      .localDeclaration ⟨start, start + 6⟩ {} ⟨⟨start, start + 5⟩, .missing start,
        [⟨⟨start + 4, start + 5⟩, { text := "x", range := ⟨start + 4, start + 5⟩ }, none⟩]⟩
        (.missing (.punct .semicolon) start)
    let branch : Stmt := .ifElse ⟨7, 20⟩ (.missing 11) (declare 13) none
    let u : CompilationUnit :=
      ⟨⟨0, 27⟩, [], [.globalStatement (declare 0), .globalStatement branch,
        .globalStatement (declare 20)], .missing .endOfFile 27⟩
    (u.localDeclarations.filter LocalDeclaration.isRepeated).map (·.identifier.range) =
      [⟨24, 25⟩] := by
  decide

end CSharpFront
