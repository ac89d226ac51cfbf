import TokenDiff.Proofs.Sequencing

/-!
# What a computation ensures

`Ensures valid fails x post` is about a computation with a state that may stop with a fault. From every
valid state it either stops with a fault that `fails` allows, or ends in a valid state with an answer that
satisfies `post`. With `fails` true of every fault this is a statement about the answers that come, and
with `fails` true of none it says that an answer comes, so one proof gives both.
-/

namespace TokenDiff

variable {ε σ α β : Type} {valid : σ → Prop} {fails : ε → Prop}

/-- From valid states, `x` stops with a fault that is allowed or ends in a valid state with a right
answer. -/
def Ensures (valid : σ → Prop) (fails : ε → Prop) (x : EStateM ε σ α) (post : α → Prop) : Prop :=
  ∀ s, valid s →
    match x s with
    | .ok a t => valid t ∧ post a
    | .error e _ => fails e

namespace Ensures

theorem pure {a : α} {post : α → Prop} (h : post a) :
    Ensures valid fails (Pure.pure a : EStateM ε σ α) post :=
  fun _ hs => ⟨hs, h⟩

theorem throw {e : ε} {post : α → Prop} (h : fails e) :
    Ensures valid fails (MonadExcept.throw e : EStateM ε σ α) post :=
  fun _ _ => h

theorem bind {x : EStateM ε σ α} {f : α → EStateM ε σ β} {mid : α → Prop} {post : β → Prop}
    (hx : Ensures valid fails x mid) (hf : ∀ a, mid a → Ensures valid fails (f a) post) :
    Ensures valid fails (x >>= f) post := by
  intro s hs
  have h := hx s hs
  cases hres : x s with
  | ok a t =>
      rw [hres] at h
      rw [bind_eq_of_ok hres]
      exact hf a h.2 t h.1
  | error e t =>
      rw [hres] at h
      rw [bind_eq_of_error hres]
      exact h

theorem imp {x : EStateM ε σ α} {mid post : α → Prop} (hx : Ensures valid fails x mid)
    (h : ∀ a, mid a → post a) : Ensures valid fails x post := by
  intro s hs
  have hout := hx s hs
  cases hres : x s with
  | ok a t =>
      rw [hres] at hout
      exact ⟨hout.1, h a hout.2⟩
  | error e t =>
      rw [hres] at hout
      exact hout

theorem weaken {fails' : ε → Prop} {x : EStateM ε σ α} {post : α → Prop}
    (hx : Ensures valid fails x post) (h : ∀ e, fails e → fails' e) :
    Ensures valid fails' x post := by
  intro s hs
  have hout := hx s hs
  cases hres : x s with
  | ok a t =>
      rw [hres] at hout
      exact hout
  | error e t =>
      rw [hres] at hout
      exact h e hout

theorem mapM {f : α → EStateM ε σ β} {g : α → β} {l : List α}
    (h : ∀ a ∈ l, Ensures valid fails (f a) (· = g a)) :
    Ensures valid fails (l.mapM f) (· = l.map g) := by
  induction l with
  | nil =>
      rw [List.mapM_nil]
      exact pure rfl
  | cons a l ih =>
      rw [List.mapM_cons]
      refine bind (h a List.mem_cons_self) ?_
      rintro b rfl
      refine bind (ih fun a' ha' => h a' (List.mem_cons_of_mem a ha')) ?_
      rintro bs rfl
      exact pure rfl

theorem mapM_forall {f : α → EStateM ε σ β} {P : α → Prop} {l : List α}
    (h : ∀ a ∈ l, Ensures valid fails (f a) fun _ => P a) :
    Ensures valid fails (l.mapM f) fun _ => ∀ a ∈ l, P a := by
  induction l with
  | nil =>
      rw [List.mapM_nil]
      exact pure nofun
  | cons a l ih =>
      rw [List.mapM_cons]
      refine bind (h a List.mem_cons_self) fun b ha => ?_
      refine bind (ih fun a' ha' => h a' (List.mem_cons_of_mem a ha')) fun bs hl => ?_
      exact pure (List.forall_mem_cons.2 ⟨ha, hl⟩)

theorem filterM_forall {f : α → EStateM ε σ Bool} {P : α → Prop} {l : List α}
    (h : ∀ a ∈ l, Ensures valid fails (f a) fun _ => P a) :
    Ensures valid fails (l.filterM f) fun _ => ∀ a ∈ l, P a := by
  have haux (kept : List α) : Ensures valid fails (l.filterAuxM f kept) fun _ => ∀ a ∈ l, P a := by
    induction l generalizing kept with
    | nil => exact pure nofun
    | cons a l ih =>
        refine bind (h a List.mem_cons_self) fun keep ha => ?_
        refine (ih (fun a' ha' => h a' (List.mem_cons_of_mem a ha')) _).imp fun _ hl => ?_
        exact List.forall_mem_cons.2 ⟨ha, hl⟩
  exact bind (haux []) fun kept hl => pure hl

theorem of_ok {x : EStateM ε σ α} {post : α → Prop} (hx : Ensures valid fails x post) {s t : σ} {a : α}
    (hs : valid s) (h : x s = .ok a t) : valid t ∧ post a := by
  have hout := hx s hs
  rwa [h] at hout

theorem exists_ok {x : EStateM ε σ α} {post : α → Prop} (hx : Ensures valid (fun _ => False) x post)
    {s : σ} (hs : valid s) : ∃ a t, x s = .ok a t ∧ valid t ∧ post a := by
  have hout := hx s hs
  cases hres : x s with
  | ok a t =>
      rw [hres] at hout
      exact ⟨a, t, rfl, hout⟩
  | error e t =>
      rw [hres] at hout
      exact hout.elim

theorem exists_error {x : EStateM ε σ α} (hx : Ensures valid fails x fun _ => False) {s : σ} (hs : valid s) :
    ∃ e t, x s = .error e t ∧ fails e := by
  have hout := hx s hs
  cases hres : x s with
  | ok a t =>
      rw [hres] at hout
      exact hout.2.elim
  | error e t =>
      rw [hres] at hout
      exact ⟨e, t, rfl, hout⟩

end Ensures

end TokenDiff
