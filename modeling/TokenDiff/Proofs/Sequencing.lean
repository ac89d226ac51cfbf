import Mathlib.Data.List.Basic

/-!
# Computations one after the other

What a computation with a state does, with another one after it, when its own outcome is known; and what is
true of whole traversals as soon as it is true of computations that are put together (`Compositional`).
-/

namespace TokenDiff

section

variable {ε σ α β : Type} {x : EStateM ε σ α} {s t : σ}

theorem bind_eq_of_ok {a : α} (h : x s = .ok a t) (f : α → EStateM ε σ β) : (x >>= f) s = f a t := by
  change EStateM.bind x f s = _
  rw [EStateM.bind, h]

theorem bind_eq_of_error {fault : ε} (h : x s = .error fault t) (f : α → EStateM ε σ β) :
    (x >>= f) s = .error fault t := by
  change EStateM.bind x f s = _
  rw [EStateM.bind, h]

/-- If the first of some computations and then the others get through, they all do. -/
theorem mapM_cons_eq_ok {f : α → EStateM ε σ β} {a : α} {l : List α} {b : β} {bs : List β} {u : σ}
    (ha : f a s = .ok b t) (hl : l.mapM f t = .ok bs u) : (a :: l).mapM f s = .ok (b :: bs) u := by
  rw [List.mapM_cons, bind_eq_of_ok ha, bind_eq_of_ok hl]
  rfl

end

/-- What is true of computations that do nothing, and of two computations if it is true of each. -/
structure Compositional (m : Type → Type) [Monad m] (P : ∀ α : Type, m α → Prop) : Prop where
  pure : ∀ {α : Type} (a : α), P α (Pure.pure a)
  bind : ∀ {α β : Type} {x : m α} {f : α → m β}, P α x → (∀ a, P β (f a)) → P β (x >>= f)

namespace Compositional

variable {m : Type → Type} [Monad m] {P : ∀ α : Type, m α → Prop} {α β : Type} {l : List α}

theorem forM (hP : Compositional m P) {f : α → m Unit} (h : ∀ a ∈ l, P Unit (f a)) : P Unit (l.forM f) := by
  induction l with
  | nil => exact hP.pure ()
  | cons a l ih =>
      obtain ⟨ha, hl⟩ := List.forall_mem_cons.1 h
      exact hP.bind ha fun _ => ih hl

theorem mapM [LawfulMonad m] (hP : Compositional m P) {f : α → m β} (h : ∀ a ∈ l, P β (f a)) :
    P (List β) (l.mapM f) := by
  induction l with
  | nil =>
      rw [List.mapM_nil]
      exact hP.pure []
  | cons a l ih =>
      obtain ⟨ha, hl⟩ := List.forall_mem_cons.1 h
      rw [List.mapM_cons]
      exact hP.bind ha fun b => hP.bind (ih hl) fun bs => hP.pure (b :: bs)

theorem filterM (hP : Compositional m P) {f : α → m Bool} (h : ∀ a ∈ l, P Bool (f a)) :
    P (List α) (l.filterM f) := by
  have haux (kept : List α) : P (List α) (l.filterAuxM f kept) := by
    induction l generalizing kept with
    | nil => exact hP.pure kept
    | cons a l ih =>
        obtain ⟨ha, hl⟩ := List.forall_mem_cons.1 h
        exact hP.bind ha fun keep => ih hl _
  exact hP.bind (haux []) fun kept => hP.pure kept.reverse

end Compositional

end TokenDiff
