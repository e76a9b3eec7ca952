import CSharpFront.Binding.Statements
import CSharpFront.Proofs.Syntax.Relaid
/-!
Binding in step. What expressions mean does not depend on the layout: bound in corresponding
contexts, an expression and its counterpart name the same thing, and the same is reported of them.
-/

namespace Option

/-- Of two options in a relation both are absent or both are there. -/
theorem Rel.none_or_some {α β : Type} {rel : α → β → Prop} {a? : Option α} {b? : Option β}
    (h : Rel rel a? b?) :
    a? = .none ∧ b? = .none ∨ ∃ a b, a? = .some a ∧ b? = .some b ∧ rel a b := by
  cases h with
  | none => exact .inl ⟨rfl, rfl⟩
  | some h => exact .inr ⟨_, _, rfl, rfl, h⟩

end Option

namespace CSharpFront

variable {l : Relayout}

/-! ### Syntax in two layouts -/

mutual

theorem TypeSyntax.dotted_relaid :
    (t : TypeSyntax) → {t' : TypeSyntax} → t.Relaid l t' → t.dotted = t'.dotted
  | .predefined _ _, _, .predefined _ _ _ => rfl
  | .name _, _, .name hi => hi.text
  | .qualified _ a b, _, .qualified _ _ ha hb => by
    rw [dotted, dotted, a.dotted_relaid ha, b.dotted_relaid hb]
  | .generic _ _ _, _, .generic _ _ hi _ => hi.text
  | .nullable _ _, _, .nullable _ _ _ => rfl
  | .array _ _ _, _, .array _ _ _ _ => rfl
  | .missing _, _, .missing _ _ => rfl

end

mutual

theorem TypeSyntax.resolve_relaid (names : NamedTypes) :
    (t : TypeSyntax) → {t' : TypeSyntax} → t.Relaid l t' → t.resolve names = t'.resolve names
  | .predefined _ _, _, .predefined _ _ _ => rfl
  | .name _, _, .name hi => by rw [resolve, resolve, hi.text]
  | .qualified r a b, _, .qualified _ r' ha hb => by
    have hd := (TypeSyntax.qualified r a b).dotted_relaid (.qualified r r' ha hb)
    have hb' := b.resolve_relaid names hb
    unfold resolve
    rw [hd]
    generalize names.find? _ = found?
    cases found? <;> cases hb <;> first | exact hb' | rfl
  | .generic _ _ ts, _, .generic _ _ hi hts => by
    rw [resolve, resolve, TypeSyntax.resolveAll_relaid names ts hts, hi.text]
  | .nullable _ t, _, .nullable _ _ ht => by rw [resolve, resolve, t.resolve_relaid names ht]
  | .array _ t _, _, .array _ _ _ ht => by rw [resolve, resolve, t.resolve_relaid names ht]
  | .missing _, _, .missing _ _ => rfl

theorem TypeSyntax.resolveAll_relaid (names : NamedTypes) :
    (ts : List TypeSyntax) → {ts' : List TypeSyntax} → List.Forall₂ (TypeSyntax.Relaid l) ts ts' →
      TypeSyntax.resolveAll names ts = TypeSyntax.resolveAll names ts'
  | [], _, .nil => rfl
  | t :: ts, _, .cons ht hts => by
    rw [resolveAll, resolveAll, t.resolve_relaid names ht,
      TypeSyntax.resolveAll_relaid names ts hts]

end

theorem TypeSyntax.Relaid.isVar {t t' : TypeSyntax} (h : t.Relaid l t') : t.isVar = t'.isVar := by
  cases h
  case name hi => rw [TypeSyntax.isVar, TypeSyntax.isVar, hi.text]
  all_goals rfl

theorem Literal.Relaid.real {a b : Literal} (h : a.Relaid b) : a.flags.real = b.flags.real :=
  (congrArg TokenFlags.real h.flags :)

theorem Literal.Relaid.type {a b : Literal} (h : a.Relaid b) : a.type = b.type := by
  simp only [Literal.type, Literal.numericType, h.kind, h.text, h.real]

theorem Literal.Relaid.constant? {a b : Literal} (h : a.Relaid b) : a.constant? = b.constant? := by
  simp only [Literal.constant?, h.kind, h.text, h.real]

theorem Expr.integerConstant?_relaid :
    (e : Expr) → {e' : Expr} → e.Relaid l e' → e.integerConstant? = e'.integerConstant?
  | .literal _, _, .literal h => by rw [integerConstant?, integerConstant?, h.constant?]
  | .parenthesized _ e, _, .parenthesized _ h => by
    rw [integerConstant?, integerConstant?, e.integerConstant?_relaid h]
  | .prefixUnary _ _ e, _, .prefixUnary _ ho h => by
    rw [integerConstant?, integerConstant?, e.integerConstant?_relaid h, ho.kind]
  | .identifier _, _, .identifier _ | .thisWord _, _, .thisWord _
  | .predefinedType _ _, _, .predefinedType _ _ | .binary .., _, .binary .. => rfl
  | .assignment .., _, .assignment .. | .conditional .., _, .conditional ..
  | .postfixUnary .., _, .postfixUnary .. | .cast .., _, .cast .. => rfl
  | .typeTest .., _, .typeTest .. | .memberAccess .., _, .memberAccess ..
  | .invocation .., _, .invocation .. | .elementAccess .., _, .elementAccess .. => rfl
  | .objectCreation .., _, .objectCreation .. | .arrayCreation .., _, .arrayCreation ..
  | .implicitArrayCreation .., _, .implicitArrayCreation .. => rfl
  | .initializer _, _, .initializer _ | .await .., _, .await .. | .query .., _, .query ..
  | .missing _, _, .missing _ _ => rfl

theorem Expr.Relaid.isInitializer {e e' : Expr} (h : e.Relaid l e') :
    e.isInitializer = e'.isInitializer := by
  cases h <;> rfl

theorem Expr.Relaid.isMissing {e e' : Expr} (h : e.Relaid l e') : e.isMissing = e'.isMissing := by
  cases h <;> rfl

/-! ### Scopes in two layouts -/

/-- What is found first, where items stand in one relation and what is found in them in another. -/
theorem findSome?_rel {α β γ δ : Type} {rel : α → β → Prop} {found : γ → δ → Prop} {as : List α}
    {bs : List β} {f : α → Option γ} {g : β → Option δ} (h : List.Forall₂ rel as bs)
    (hf : ∀ a b, rel a b → Option.Rel found (f a) (g b)) :
    Option.Rel found (as.findSome? f) (bs.findSome? g) := by
  induction h with
  | nil => exact .none
  | cons hab _ ih =>
    rw [List.findSome?_cons, List.findSome?_cons]
    rcases (hf _ _ hab).none_or_some with ⟨ha, hb⟩ | ⟨_, _, ha, hb, hfound⟩
    · rw [ha, hb]
      exact ih
    · rw [ha, hb]
      exact .some hfound

/-- Two entries under one name. -/
def Keyed {α β : Type} (rel : α → β → Prop) (a : String × α) (b : String × β) : Prop :=
  a.1 = b.1 ∧ rel a.2 b.2

theorem lookup_keyed {α β : Type} {rel : α → β → Prop} {as : List (String × α)}
    {bs : List (String × β)} (h : List.Forall₂ (Keyed rel) as bs) (name : String) :
    Option.Rel rel (as.lookup name) (bs.lookup name) := by
  induction h with
  | nil => exact .none
  | @cons a b _ _ hab _ ih =>
    rw [List.lookup_cons, List.lookup_cons, ← hab.1]
    cases name == a.1 with
    | true => exact .some hab.2
    | false => exact ih

/-- Variables that differ in their places only. -/
def Local.Alike (a b : Local) : Prop := a.type = b.type

structure Scope.Relaid (l : Relayout) (s s' : Scope) : Prop where
  locals : List.Forall₂ (Keyed Local.Alike) s.locals s'.locals
  labels : List.Forall₂ (Keyed l.starts) s.labels s'.labels

structure ScopeChain.Relaid (l : Relayout) (c c' : ScopeChain) : Prop where
  inner : c.inner.Relaid l c'.inner
  outer : List.Forall₂ (Scope.Relaid l) c.outer c'.outer

namespace ScopeChain.Relaid

variable {c c' : ScopeChain}

theorem toList (h : c.Relaid l c') : List.Forall₂ (Scope.Relaid l) c.toList c'.toList :=
  .cons h.inner h.outer

theorem push (h : c.Relaid l c') : c.push.Relaid l c'.push := ⟨⟨.nil, .nil⟩, h.toList⟩

theorem shadow (h : c.Relaid l c') (name : String) {a b : Local} (hab : a.Alike b) :
    (c.shadow name a).Relaid l (c'.shadow name b) :=
  ⟨⟨.cons ⟨rfl, hab⟩ h.inner.locals, h.inner.labels⟩, h.outer⟩

theorem declareLocal? (h : c.Relaid l c') (name : String) {a b : Local} (hab : a.Alike b) :
    Option.Rel (ScopeChain.Relaid l) (c.declareLocal? name a) (c'.declareLocal? name b) := by
  unfold ScopeChain.declareLocal?
  rcases (lookup_keyed h.inner.locals name).none_or_some with ⟨ha, hb⟩ | ⟨_, _, ha, hb, -⟩
  · rw [ha, hb]
    exact .some (h.shadow name hab)
  · rw [ha, hb]
    exact .none

theorem declareLabel? (h : c.Relaid l c') (name : String) {p q : Nat} (hpq : l.starts p q) :
    Option.Rel (ScopeChain.Relaid l) (c.declareLabel? name p) (c'.declareLabel? name q) := by
  unfold ScopeChain.declareLabel?
  rcases (lookup_keyed h.inner.labels name).none_or_some with ⟨ha, hb⟩ | ⟨_, _, ha, hb, -⟩
  · rw [ha, hb]
    exact .some ⟨⟨h.inner.locals, .cons ⟨rfl, hpq⟩ h.inner.labels⟩, h.outer⟩
  · rw [ha, hb]
    exact .none

theorem findLocal? (h : c.Relaid l c') (name : String) :
    Option.Rel Local.Alike (c.findLocal? name) (c'.findLocal? name) :=
  findSome?_rel h.toList fun _ _ hs => lookup_keyed hs.locals name

theorem findLabel? (h : c.Relaid l c') (name : String) :
    Option.Rel l.starts (c.findLabel? name) (c'.findLabel? name) :=
  findSome?_rel h.toList fun _ _ hs => lookup_keyed hs.labels name

end ScopeChain.Relaid

namespace Binding

variable {l : Rerun}

/-! ### Contexts and states in two layouts -/

structure Context.Relaid (l : Relayout) (c c' : Context) : Prop where
  names : c.names = c'.names
  members : c.members = c'.members
  conversions : c.conversions = c'.conversions
  scopes : c.scopes.Relaid l c'.scopes
  owner : c.owner? = c'.owner?
  returns : c.returns? = c'.returns?
  inLoop : c.inLoop = c'.inLoop

structure State.Relaid (l : Rerun) (s s' : State) : Prop where
  listing : s.listing = s'.listing
  diagnostics : l.Reports s.diagnostics s'.diagnostics
  referenced : List.Forall₂ l.starts s.referenced s'.referenced

/-- Two bindings that come from corresponding states to corresponding ones, and to results that
stand in a relation. -/
def InStep (l : Rerun) {α β : Type} (rel : α → β → Prop) (m : BindM α) (n : BindM β) : Prop :=
  ∀ s s', State.Relaid l s s' → rel (m s).1 (n s').1 ∧ State.Relaid l (m s).2 (n s').2

namespace InStep

variable {α β γ δ : Type} {rel : α → β → Prop} {after : γ → δ → Prop} {m : BindM α} {n : BindM β}

theorem pure {a : α} {b : β} (h : rel a b) : InStep l rel (Pure.pure a) (Pure.pure b) :=
  fun _ _ hs => ⟨h, hs⟩

theorem bind {f : α → BindM γ} {g : β → BindM δ} (hm : InStep l rel m n)
    (hf : ∀ a b, rel a b → InStep l after (f a) (g b)) :
    InStep l after (m >>= f) (n >>= g) := by
  intro s s' hs
  obtain ⟨hab, hs⟩ := hm s s' hs
  exact hf _ _ hab _ _ hs

/-- Two steps with one result. -/
theorem same {m n : BindM α} {f : α → BindM γ} {g : α → BindM δ} (hm : InStep l Eq m n)
    (hf : ∀ a, InStep l after (f a) (g a)) : InStep l after (m >>= f) (n >>= g) :=
  .bind hm fun a _ h => h ▸ hf a

theorem map {f : α → γ} {m n : BindM α} (hm : InStep l Eq m n) : InStep l Eq (f <$> m) (f <$> n) :=
  .same hm fun _ => .pure rfl

theorem ite {c : Prop} [Decidable c] {m' : BindM α} {n' : BindM β} (hm : InStep l rel m n)
    (hn : InStep l rel m' n') : InStep l rel (if c then m else m') (if c then n else n') := by
  split
  · exact hm
  · exact hn

theorem foldlM {f : γ → α → BindM γ} {g : δ → β → BindM δ} {as : List α} {bs : List β}
    (h : List.Forall₂ rel as bs) {c : γ} {d : δ} (hcd : after c d)
    (hf : ∀ c d, after c d → ∀ a b, rel a b → InStep l after (f c a) (g d b)) :
    InStep l after (as.foldlM f c) (bs.foldlM g d) := by
  induction h generalizing c d with
  | nil => exact .pure hcd
  | cons hab _ ih =>
    rw [List.foldlM_cons, List.foldlM_cons]
    exact .bind (hf c d hcd _ _ hab) fun _ _ => ih

theorem forM {f : α → BindM Unit} {g : β → BindM Unit} {as : List α} {bs : List β}
    (h : List.Forall₂ rel as bs) (hf : ∀ a b, rel a b → InStep l Eq (f a) (g b)) :
    InStep l Eq (as.forM f) (bs.forM g) := by
  induction h with
  | nil => exact .pure rfl
  | cons hab _ ih =>
    rw [List.forM_eq_forM, List.forM_eq_forM, List.forM_cons, List.forM_cons]
    exact .same (hf _ _ hab) fun _ => ih

end InStep

/-! ### Elementary steps -/

variable {c c' : Context}

theorem inStep_report {message : Message} {span span' : Span} {arguments : List String} :
    InStep l Eq (report message span arguments) (report message span' arguments) :=
  fun _ _ hs => ⟨rfl, hs.listing, hs.diagnostics.push ⟨rfl, rfl, rfl⟩, hs.referenced⟩

theorem inStep_complain {d? d?' : Option Diagnostic} (h : Option.Rel Diagnostic.Agrees d? d?') :
    InStep l Eq (complain d?) (complain d?') := by
  cases h with
  | none => exact .pure rfl
  | some h => exact fun _ _ hs => ⟨rfl, hs.listing, hs.diagnostics.push h, hs.referenced⟩

theorem inStep_list (t : Ty) : InStep l Eq (list t) (list t) :=
  fun _ _ hs => ⟨rfl, congrArg (·.add t) hs.listing, hs.diagnostics, hs.referenced⟩

theorem inStep_resolve (hc : c.Relaid l c') {type type' : TypeSyntax} (h : type.Relaid l type') :
    InStep l Eq (c.resolve type) (c'.resolve type') := by
  intro s s' hs
  simp only [Context.resolve, hc.names, type.resolve_relaid _ h]
  refine ⟨?_, ?_, hs.diagnostics, hs.referenced⟩
  · exact congrArg (fun listing => ((type'.resolve c'.names).run listing).1) hs.listing
  · exact congrArg (fun listing => ((type'.resolve c'.names).run listing).2) hs.listing

namespace Context.Relaid

theorem push (hc : c.Relaid l c') : c.push.Relaid l c'.push :=
  { hc with scopes := hc.scopes.push }

theorem withScopes (hc : c.Relaid l c') {g g' : ScopeChain} (hg : g.Relaid l g') :
    Context.Relaid l { c with scopes := g } { c' with scopes := g' } :=
  { hc with scopes := hg }

theorem inside (hc : c.Relaid l c') {t? t?' : Option Ty} (h : t? = t?') :
    Context.Relaid l { c with owner? := t? } { c' with owner? := t?' } :=
  { hc with owner := h }

theorem returning (hc : c.Relaid l c') (returns? : Option Ty) :
    Context.Relaid l { c with returns? } { c' with returns? } :=
  { hc with returns := rfl }

theorem intoLoop (hc : c.Relaid l c') :
    Context.Relaid l { c with inLoop := true } { c' with inLoop := true } :=
  { hc with inLoop := rfl }

theorem shadow (hc : c.Relaid l c') {i i' : Identifier} (hi : i.Relaid l i') (t : Ty) :
    (c.shadow i t).Relaid l (c'.shadow i' t) := by
  unfold Context.shadow
  rw [hi.isMissing, hi.text]
  split
  · exact hc
  · exact hc.withScopes (hc.scopes.shadow _ rfl)

theorem ownMethod? (hc : c.Relaid l c') (name : String) :
    c.ownMethod? name = c'.ownMethod? name := by
  rw [Context.ownMethod?, Context.ownMethod?, hc.owner, hc.members]

theorem denote (hc : c.Relaid l c') {i i' : Identifier} (hi : i.Relaid l i') :
    c.denote i = c'.denote i' := by
  have hfield : c.ownField? i'.text = c'.ownField? i'.text := by
    rw [Context.ownField?, Context.ownField?, hc.owner, hc.members]
  unfold Context.denote
  rw [hi.isMissing, hi.text, hfield, hc.names]
  split
  · rfl
  · rcases (hc.scopes.findLocal? i'.text).none_or_some with ⟨ha, hb⟩ | ⟨a, b, ha, hb, hab⟩
    · rw [ha, hb]
    · rw [ha, hb]
      exact congrArg Denotation.value hab

theorem assignedField? (hc : c.Relaid l c') (owner : Ty) {e e' : Expr} (h : e.Relaid l e') :
    Binding.assignedField? c owner e = Binding.assignedField? c' owner e' := by
  cases h
  case identifier hi => rw [Binding.assignedField?, Binding.assignedField?, hc.members, hi.text]
  all_goals rfl

end Context.Relaid

theorem inStep_declare (hc : c.Relaid l c') {i i' : Identifier} (hi : i.Relaid l i') (t : Ty) :
    InStep l (Context.Relaid l) (c.declare i t) (c'.declare i' t) := by
  unfold Context.declare
  rw [hi.isMissing, hi.text]
  refine .ite (.pure hc) ?_
  have halike : Local.Alike ⟨t, i.span⟩ ⟨t, i'.span⟩ := rfl
  rcases (hc.scopes.declareLocal? i'.text halike).none_or_some with ⟨ha, hb⟩ | ⟨_, _, ha, hb, h⟩
  · rw [ha, hb]
    exact .same inStep_report fun _ => .pure hc
  · rw [ha, hb]
    exact .pure (hc.withScopes h)

theorem mismatch?_agrees (declared : List DeclaredConversion) (span span' : Span) (s t : Ty) :
    Option.Rel Diagnostic.Agrees (Ty.mismatch? declared span s t)
      (Ty.mismatch? declared span' s t) := by
  unfold Ty.mismatch?
  split
  · exact .none
  split
  · exact .none
  · exact .none
  · exact .none
  · exact .some ⟨rfl, rfl, rfl⟩
  · exact .some ⟨rfl, rfl, rfl⟩

theorem inStep_assign (hc : c.Relaid l c') {e e' : Expr} (he : e.Relaid l e') (s t : Ty) :
    InStep l Eq (c.assign e s t) (c'.assign e' s t) := by
  simp only [Context.assign, Context.isConstantOf, e.integerConstant?_relaid he, hc.conversions]
  exact .ite (.pure rfl) (inStep_complain (mismatch?_agrees ..))

theorem inStep_require (hc : c.Relaid l c') {e e' : Expr} (he : e.Relaid l e') (t : Ty) :
    InStep l Eq (c.require e t) (c'.require e' t) := by
  simp only [Context.require, Ty.checkCondition, hc.conversions, he.isMissing]
  refine inStep_complain ?_
  split
  · exact .none
  · exact mismatch?_agrees ..

theorem inStep_requireCast (hc : c.Relaid l c') (span span' : Span) (s t : Ty) :
    InStep l Eq (c.requireCast span s t) (c'.requireCast span' s t) := by
  unfold Context.requireCast
  rw [hc.conversions]
  exact .ite inStep_report (.pure rfl)

theorem inStep_rangeType (hc : c.Relaid l c') {type? type?' : Option TypeSyntax}
    (h : Option.Rel (TypeSyntax.Relaid l) type? type?') (source : Ty) :
    InStep l Eq (rangeType c type? source) (rangeType c' type?' source) := by
  cases h with
  | none => exact .pure rfl
  | some h => exact inStep_resolve hc h

end Binding

end CSharpFront
