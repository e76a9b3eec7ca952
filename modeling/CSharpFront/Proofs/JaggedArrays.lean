import CSharpFront.Compilation
import CSharpFront.Proofs.Binding.Alike
import CSharpFront.Proofs.DisplayedTypes
/-!
Arrays of arrays. Each pair of brackets after a type makes an array of all that stands before it, so
that the last pair is the outermost one. Main statement: an element access takes away the last pair
and not the first one, which comes to the same just where all pairs are of equally many dimensions.
-/

namespace CSharpFront

open Lexeme (mark)

/-! ### Types with brackets after them -/

/-- Brackets make arrays of what a type means, the first of them the innermost. -/
theorem TypeSyntax.Ranked.meaning {type whole : TypeSyntax} {rs : List Nat}
    (h : type.Ranked rs whole) {names : NamedTypes} (ht : (type.meaning names).isError = false) :
    whole.meaning names = rs.foldl .array (type.meaning names) := by
  induction h with
  | nil => rfl
  | @cons type whole rank rs range hrank _ ih =>
    have harray : (TypeSyntax.array range type rank).meaning names =
        .array (type.meaning names) rank := by
      show (type.meaning names).toArray rank = _
      simp [Ty.toArray, ht, Nat.max_eq_left hrank]
    rw [harray] at ih
    exact ih rfl

namespace Ty

/-- An access to an array of arrays takes away the brackets that were read last. -/
theorem indexed_foldl_array (t : Ty) {rs : List Nat} (hrs : rs ≠ []) :
    (rs.foldl .array t).indexed = rs.dropLast.foldl .array t := by
  obtain ⟨ranks, last, rfl⟩ := List.eq_nil_or_concat rs |>.resolve_left hrs
  rw [List.concat_eq_append, List.foldl_concat, List.dropLast_concat]
  rfl

theorem words_foldl_array (rs : List Nat) (t : Ty) :
    (rs.foldl .array t).words = t.words ++ rs.flatMap rankWords := by
  induction rs generalizing t with
  | nil => exact (List.append_nil _).symm
  | cons rank rs ih =>
    rw [List.foldl_cons, ih, words, List.flatMap_cons, List.append_assoc]

theorem spelled_foldl_array {rs : List Nat} (hrs : ∀ rank ∈ rs, 1 ≤ rank) {t : Ty}
    (ht : t.Spelled) : (rs.foldl .array t).Spelled := by
  induction rs generalizing t with
  | nil => exact ht
  | cons rank rs ih =>
    obtain ⟨hrank, hrs⟩ := List.forall_mem_cons.mp hrs
    exact ih hrs (.array hrank ht)

/-- Arrays of equally many pairs of brackets are equal only if all their parts are. -/
theorem foldl_array_inj {rs rs' : List Nat} (hlength : rs.length = rs'.length) {s t : Ty}
    (h : rs.foldl .array s = rs'.foldl .array t) : s = t ∧ rs = rs' := by
  induction rs generalizing rs' s t with
  | nil =>
    obtain rfl := List.length_eq_zero_iff.mp hlength.symm
    exact ⟨h, rfl⟩
  | cons rank rs ih =>
    cases rs' with
    | nil => cases hlength
    | cons rank' rs' =>
      obtain ⟨harray, rfl⟩ := ih (Nat.succ.inj hlength) h
      obtain ⟨rfl, rfl⟩ := Ty.array.inj harray
      exact ⟨rfl, rfl⟩

end Ty

/-- A list without its last entry is the list without its first one just where all entries are
equal. -/
theorem dropLast_eq_tail_iff {α : Type} (as : List α) :
    as.dropLast = as.tail ↔ ∀ a ∈ as, ∀ b ∈ as, a = b := by
  induction as with
  | nil => simp
  | cons a as ih =>
    cases as with
    | nil => simp
    | cons b as =>
      have hrest : (b :: as).dropLast = as ↔ _ := ih
      rw [List.dropLast_cons_cons, List.tail_cons, List.cons.injEq, hrest]
      constructor
      · rintro ⟨rfl, hall⟩ x hx y hy
        have hmem : ∀ z ∈ a :: a :: as, z ∈ a :: as := fun z hz => by simpa using hz
        exact hall x (hmem x hx) y (hmem y hy)
      · intro hall
        exact ⟨hall a (by simp) b (by simp),
          fun x hx y hy => hall x (List.mem_cons_of_mem a hx) y (List.mem_cons_of_mem a hy)⟩

/-! ### Reading them -/

namespace Parser

variable {env : Env} {r : Rules} {s : State}

theorem typeRest_true (start : Nat) (core : TypeSyntax) :
    typeRest true start (some core) = typeRest false start (some core) >>= rankSpecifiers start := by
  funext env s
  simp only [typeRest, bind_apply, if_true, Bool.false_eq_true, if_false]
  cases (accept (.punct .question) env s).1 <;> rfl

/-- With its brackets a type is read as it is without them, and then they are read. -/
theorem typeBody_true (hmissing : ∀ pos, (typeBody false r env s).1 ≠ .missing pos) :
    typeBody true r env s =
      rankSpecifiers (current env s).1.start (typeBody false r env s).1 env
        (typeBody false r env s).2 := by
  have hbody : ∀ withRanks, typeBody withRanks r env s =
      typeRest withRanks (current env s).1.start (typeCore? r env s).1 env (typeCore? r env s).2 :=
    fun _ => rfl
  rw [hbody false] at hmissing ⊢
  rw [hbody true]
  cases hcore : (typeCore? r env s).1 with
  | none =>
    rw [hcore] at hmissing
    exact absurd rfl (hmissing _)
  | some core =>
    rw [typeRest_true]
    rfl

/-- Syntax that is read from a type and pairs of brackets after it, of so many dimensions each. Read
alone, the type means a given one. -/
inductive ReadsRanked (names : NamedTypes) (t : Ty) (rs : List Nat) : TypeSyntax → Prop
  | mk {r : Rules} {env : Env} {s : State} {reported : Array Diagnostic} {ws : List Lexeme}
      (htype : (typeBody false r env s).1.meaning names = t)
      (hranks : Facing reported env 0 (rs.flatMap Ty.rankWords ++ ws) (typeBody false r env s).2)
      (hws : headKind ws ≠ .punct .openBracket) :
    ReadsRanked names t rs (typeBody true r env s).1

theorem ReadsRanked.meaning {names : NamedTypes} {t : Ty} {rs : List Nat} {whole : TypeSyntax}
    (h : ReadsRanked names t rs whole) (ht : t.isError = false) (hrs : ∀ rank ∈ rs, 1 ≤ rank) :
    whole.meaning names = rs.foldl .array t := by
  obtain @⟨r, env, s, reported, ws, htype, hranks, hws⟩ := h
  have hmissing : ∀ pos, (typeBody false r env s).1 ≠ .missing pos := by
    intro pos hpos
    rw [hpos] at htype
    subst htype
    cases ht
  obtain ⟨whole, s', hrun, -, hranked⟩ := consumes_ranks hrs hws _ reported _ hranks
  rw [typeBody_true hmissing, hrun]
  subst htype
  exact hranked.meaning ht

theorem consumes_typeBody_special {n : Nat} {ws : List Lexeme} (k : SpecialType)
    (hws : headKind ws ≠ .punct .question) (hne : ws ≠ []) :
    Consumes env n (Lexeme.spelling (.keyword k.keyword) :: ws) (typeBody false r) ws
      (·.Means (.special k)) := by
  refine consumes_current.bind fun u _ => (consumes_typeCore?_special k).bind ?_
  rintro _ ⟨core, rfl, hcore⟩
  obtain ⟨w, ws, rfl⟩ := List.exists_cons_of_ne_nil hne
  refine (consumes_accept_of_ne hws).bind ?_
  rintro _ rfl
  exact .pure hcore

/-- Brackets of all dimensions can be written after a type. -/
theorem exists_readsRanked_int (rs : List Nat) (hrs : ∀ rank ∈ rs, 1 ≤ rank) :
    ∃ whole, ReadsRanked [] .int rs whole := by
  obtain ⟨⟨ts, last⟩, -, hspell⟩ := (Ty.spelled_foldl_array hrs (.special .int)).scan_variableText
  rw [Ty.words_foldl_array, Ty.words, List.append_assoc] at hspell
  have hstart : Facing #[] (.of ⟨ts, last⟩ 0) 0 _ (.start ⟨ts, last⟩ #[] none) :=
    ⟨hspell, ⟨rfl, rfl⟩, Nat.le_refl _, Nat.lt_succ_self _⟩
  have hquestion : headKind (rs.flatMap Ty.rankWords ++ [nameWord "x", mark .semicolon]) ≠
      .punct .question := Ty.headKind_ranks_ne rfl rfl (by decide)
  obtain ⟨type, s, hrun, hranks, hmeans⟩ :=
    consumes_typeBody_special (r := .none) .int hquestion (by simp) _ _ hstart
  have hmeaning : type.meaning [] = .int := by
    rw [← fst_resolve [] {} type, hmeans [] {} Listing.sound_first (by decide)]
  refine ⟨_, .mk (by rw [hrun]; exact hmeaning) (by rw [hrun]; exact hranks) (by decide)⟩

end Parser

/-! ### Accesses -/

namespace Binding

/-- Where a type is followed by two pairs of brackets or more, an access to an expression of the
whole type is of the type without the last pair. That is the type without the first pair just where
all pairs are of equally many dimensions. -/
theorem elementAccess_ranked {c : Context} {t : Ty} (ht : t.isError = false) {rs : List Nat}
    (hlength : 2 ≤ rs.length) (hrs : ∀ rank ∈ rs, 1 ≤ rank) {whole rest : TypeSyntax}
    (hwhole : Parser.ReadsRanked c.names t rs whole)
    (hrest : Parser.ReadsRanked c.names t rs.tail rest) {e : Expr}
    (he : c.typeOf e = whole.meaning c.names) (r : Range) (arguments : List Expr) :
    (∀ expected? s, (expression c expected? (.elementAccess r e arguments) s).1 =
      .value (rs.dropLast.foldl .array t)) ∧
    (c.typeOf (.elementAccess r e arguments) = rest.meaning c.names ↔
      ∀ m ∈ rs, ∀ n ∈ rs, m = n) := by
  have hne : rs ≠ [] := List.ne_nil_of_length_pos (by omega)
  have hindexed : (c.typeOf e).indexed = rs.dropLast.foldl .array t := by
    rw [he, hwhole.meaning ht hrs, Ty.indexed_foldl_array t hne]
  have haccess : c.typeOf (.elementAccess r e arguments) = rs.dropLast.foldl .array t := by
    rw [Context.typeOf, fst_elementAccess, hindexed]
    rfl
  have htail : ∀ rank ∈ rs.tail, 1 ≤ rank := fun rank hrank => hrs rank (List.mem_of_mem_tail hrank)
  refine ⟨fun expected? s => by rw [fst_elementAccess, hindexed], ?_⟩
  rw [haccess, hrest.meaning ht htail, ← dropLast_eq_tail_iff]
  constructor
  · intro hsame
    exact (Ty.foldl_array_inj (by simp) hsame).2
  · intro hsame
    rw [hsame]

/-- Arrays of two dimensions of arrays of one dimension. -/
theorem elementAccess_ranked_int : ∃ (c : Context) (whole rest : TypeSyntax) (e : Expr),
    Parser.ReadsRanked c.names .int [1, 2] whole ∧ Parser.ReadsRanked c.names .int [2] rest ∧
      c.typeOf e = whole.meaning c.names ∧
      c.typeOf (.elementAccess (.emptyAt 0) e []) ≠ rest.meaning c.names := by
  obtain ⟨whole, hwhole⟩ := Parser.exists_readsRanked_int [1, 2] (by decide)
  obtain ⟨rest, hrest⟩ := Parser.exists_readsRanked_int [2] (by decide)
  let a : Identifier := { text := "a", range := .emptyAt 0 }
  let c : Context := Context.shadow ⟨[], [], [], {}, none, none, false⟩ a (whole.meaning [])
  refine ⟨c, whole, rest, .identifier a, hwhole, hrest, rfl, fun hsame => ?_⟩
  have hranked := elementAccess_ranked rfl (by decide) (by decide) hwhole hrest
    (rfl : c.typeOf (.identifier a) = _) (.emptyAt 0) []
  exact absurd (hranked.2.mp hsame) (by decide)

/-- What is taken out of such an array is an array of one dimension, as the complaint about it
says. -/
theorem compileSource_jaggedArray :
    (compileSource "class C { void M(int[][,] a) { bool b = a[0]; } }").map
      (fun d => (d.message, d.arguments)) = [(.noImplicitConversion, ["int[]", "bool"])] := by
  rw [compileSource_ofList]
  decide +kernel

end Binding

end CSharpFront
