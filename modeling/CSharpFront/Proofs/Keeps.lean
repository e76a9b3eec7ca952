/-!
Invariants of computations with a state. `Keeps inv m post` says that a computation leads from
states with an invariant only to such states, and that its results have a property. What is proved
of the steps of a computation carries over to the whole by one rule for each way to put steps
together.
-/

namespace CSharpFront

def Keeps {σ α : Type} (inv : σ → Prop) (m : StateM σ α) (post : α → Prop) : Prop :=
  ∀ s, inv s → post (m s).1 ∧ inv (m s).2

namespace Keeps

variable {σ α β : Type} {inv : σ → Prop} {m : StateM σ α} {post : α → Prop}

theorem pure {a : α} (h : post a) : Keeps inv (Pure.pure a) post := fun _ hs => ⟨h, hs⟩

theorem bind {f : α → StateM σ β} {after : β → Prop} (hm : Keeps inv m post)
    (hf : ∀ a, post a → Keeps inv (f a) after) : Keeps inv (m >>= f) after := by
  intro s hs
  obtain ⟨ha, hs'⟩ := hm s hs
  exact hf _ ha _ hs'

theorem imp {after : α → Prop} (hm : Keeps inv m post) (h : ∀ a, post a → after a) :
    Keeps inv m after :=
  fun s hs => ⟨h _ (hm s hs).1, (hm s hs).2⟩

theorem map {f : α → β} {after : β → Prop} (hm : Keeps inv m post)
    (h : ∀ a, post a → after (f a)) : Keeps inv (f <$> m) after :=
  hm.bind fun a ha => .pure (h a ha)

theorem of_modify {f : σ → σ} (h : ∀ s, inv s → inv (f s)) :
    Keeps inv (modify f) fun _ => True :=
  fun s hs => ⟨trivial, h s hs⟩

theorem ite {c : Prop} [Decidable c] {n : StateM σ α} (hm : c → Keeps inv m post)
    (hn : ¬ c → Keeps inv n post) : Keeps inv (if c then m else n) post := by
  split
  next h => exact hm h
  next h => exact hn h

theorem foldlM {f : β → α → StateM σ β} {good : β → Prop} {as : List α} (b : β)
    (hf : ∀ b, good b → ∀ a ∈ as, Keeps inv (f b a) good) (hb : good b) :
    Keeps inv (as.foldlM f b) good := by
  induction as generalizing b with
  | nil => exact .pure hb
  | cons a as ih =>
    rw [List.foldlM_cons]
    refine .bind (hf b hb a List.mem_cons_self) fun b' hb' => ?_
    exact ih b' (fun b hb a ha => hf b hb a (List.mem_cons_of_mem _ ha)) hb'

theorem forM {f : α → StateM σ Unit} {as : List α}
    (hf : ∀ a ∈ as, Keeps inv (f a) fun _ => True) : Keeps inv (as.forM f) fun _ => True := by
  induction as with
  | nil => exact .pure trivial
  | cons a as ih =>
    rw [List.forM_eq_forM, List.forM_cons]
    refine .bind (hf a List.mem_cons_self) fun _ _ => ?_
    exact ih fun a ha => hf a (List.mem_cons_of_mem _ ha)

end Keeps

end CSharpFront
