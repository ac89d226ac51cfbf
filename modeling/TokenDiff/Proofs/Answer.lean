import TokenDiff.Proofs.Outcome

/-!
# Computations with one answer

`Answers pre x a post` is about a computation whose answer does not depend on which of the states that
satisfy `pre` it starts in: it is `a` for all of them, and the state it ends in satisfies `post`. Where
`pre` says which abstract state a concrete one stands for, this is a step of a refinement, and the steps of
a program are put together by `Answers.bind`.
-/

namespace TokenDiff

variable {ε σ τ α β : Type}

/-- From every state that satisfies `pre`, `x` answers `a` and ends in a state that satisfies `post`. -/
def Answers (pre : σ → Prop) (x : EStateM ε σ α) (a : α) (post : σ → Prop) : Prop :=
  ∀ s, pre s → ∃ s', x s = .ok a s' ∧ post s'

namespace Answers

variable {pre mid post : σ → Prop}

theorem pure (a : α) : Answers pre (Pure.pure a : EStateM ε σ α) a pre := fun s hs => ⟨s, rfl, hs⟩

theorem bind {x : EStateM ε σ α} {f : α → EStateM ε σ β} {a : α} {b : β}
    (hx : Answers pre x a mid) (hf : Answers mid (f a) b post) : Answers pre (x >>= f) b post := by
  intro s hs
  obtain ⟨s', hout, hs'⟩ := hx s hs
  obtain ⟨s'', hout', hs''⟩ := hf s' hs'
  exact ⟨s'', by rw [bind_eq_of_ok hout, hout'], hs''⟩

theorem bind_get {f : σ → EStateM ε σ β} {b : β}
    (hf : ∀ s, pre s → ∃ s', f s s = .ok b s' ∧ post s') : Answers pre (get >>= f) b post := hf

theorem ofExcept (a : α) :
    Answers pre (MonadExcept.ofExcept (Except.ok a) : EStateM ε σ α) a pre := pure a

theorem mono {pre' post' : σ → Prop} {x : EStateM ε σ α} {a : α} (hx : Answers pre x a post)
    (hpre : ∀ s, pre' s → pre s) (hpost : ∀ s, post s → post' s) : Answers pre' x a post' := by
  intro s hs
  obtain ⟨s', hout, hs'⟩ := hx s (hpre s hs)
  exact ⟨s', hout, hpost s' hs'⟩

theorem mapM {f : α → EStateM ε σ β} {g : α → β} {l : List α}
    (h : ∀ a ∈ l, Answers pre (f a) (g a) pre) : Answers pre (l.mapM f) (l.map g) pre := by
  induction l with
  | nil =>
      rw [List.mapM_nil]
      exact pure []
  | cons a l ih =>
      obtain ⟨ha, hl⟩ := List.forall_mem_cons.1 h
      rw [List.mapM_cons]
      exact ha.bind ((ih hl).bind (pure (g a :: l.map g)))

theorem filterM {f : α → EStateM ε σ Bool} {p : α → Bool} {l : List α}
    (h : ∀ a ∈ l, Answers pre (f a) (p a) pre) : Answers pre (l.filterM f) (l.filter p) pre := by
  have haux (kept : List α) :
      Answers pre (l.filterAuxM f kept) ((l.filter p).reverse ++ kept) pre := by
    induction l generalizing kept with
    | nil => exact pure kept
    | cons a l ih =>
        obtain ⟨ha, hl⟩ := List.forall_mem_cons.1 h
        refine ha.bind ?_
        cases hp : p a with
        | false =>
            rw [List.filter_cons_of_neg (by simp [hp])]
            exact ih hl kept
        | true =>
            rw [List.filter_cons_of_pos hp, List.reverse_cons, List.append_assoc]
            exact ih hl (a :: kept)
  have hkept := haux []
  rw [List.append_nil] at hkept
  have hout : Answers pre (l.filterM f) (l.filter p).reverse.reverse pre := hkept.bind (pure _)
  rwa [List.reverse_reverse] at hout

theorem ensures {fails : ε → Prop} {x : EStateM ε σ α} {a : α} (hx : Answers pre x a pre) :
    Ensures pre fails x (· = a) := by
  intro s hs
  obtain ⟨s', hout, hs'⟩ := hx s hs
  rw [hout]
  exact ⟨hs', rfl⟩

end Answers

theorem Ensures.answers {valid : σ → Prop} {x : EStateM ε σ α} {a : α}
    (hx : Ensures valid (fun _ => False) x (· = a)) : Answers valid x a valid := by
  intro s hs
  obtain ⟨b, s', hout, hs', rfl⟩ := hx.exists_ok hs
  exact ⟨s', hout, hs'⟩

/-! ## Outcomes that do not depend on the state -/

/-- From every two valid states `x` comes to the same outcome: both times it answers the same and ends in a
valid state, or both times it stops with the same fault. -/
def Uniform (valid : σ → Prop) (x : EStateM ε σ α) : Prop :=
  ∀ s t, valid s → valid t →
    match x s, x t with
    | .ok a s', .ok b t' => a = b ∧ valid s' ∧ valid t'
    | .error e _, .error e' _ => e = e'
    | _, _ => False

namespace Uniform

variable {valid : σ → Prop}

theorem pure (a : α) : Uniform valid (Pure.pure a : EStateM ε σ α) := fun _ _ hs ht => ⟨rfl, hs, ht⟩

theorem throw (e : ε) : Uniform valid (MonadExcept.throw e : EStateM ε σ α) := fun _ _ _ _ => rfl

theorem bind {x : EStateM ε σ α} {f : α → EStateM ε σ β} (hx : Uniform valid x)
    (hf : ∀ a, Uniform valid (f a)) : Uniform valid (x >>= f) := by
  intro s t hs ht
  have hout := hx s t hs ht
  change match EStateM.bind x f s, EStateM.bind x f t with
    | .ok a s', .ok b t' => a = b ∧ valid s' ∧ valid t'
    | .error e _, .error e' _ => e = e'
    | _, _ => False
  unfold EStateM.bind
  cases hxs : x s with
  | ok a s' =>
      cases hxt : x t with
      | ok b t' =>
          rw [hxs, hxt] at hout
          obtain ⟨rfl, hs', ht'⟩ := hout
          exact hf a s' t' hs' ht'
      | error e t' =>
          rw [hxs, hxt] at hout
          exact hout.elim
  | error e s' =>
      cases hxt : x t with
      | ok b t' =>
          rw [hxs, hxt] at hout
          exact hout.elim
      | error e' t' =>
          rw [hxs, hxt] at hout
          exact hout

end Uniform

theorem Ensures.uniform {valid : σ → Prop} {x : EStateM ε σ α} {a : α}
    (hx : Ensures valid (fun _ => False) x (· = a)) : Uniform valid x := by
  intro s t hs ht
  obtain ⟨b, s', hxs, hs', rfl⟩ := hx.exists_ok hs
  obtain ⟨c, t', hxt, ht', rfl⟩ := hx.exists_ok ht
  rw [hxs, hxt]
  exact ⟨rfl, hs', ht'⟩

/-! ## Answers that depend on the state -/

/-- From every state that satisfies `pre`, `x` stops with a fault that is allowed or ends with an answer
and in a state that satisfy `post`. -/
def Leads (pre : σ → Prop) (fails : ε → Prop) (x : EStateM ε σ α) (post : α → σ → Prop) : Prop :=
  ∀ s, pre s →
    match x s with
    | .ok a s' => post a s'
    | .error e _ => fails e

namespace Leads

variable {pre : σ → Prop} {fails : ε → Prop}

theorem pure {a : α} {post : α → σ → Prop} (h : ∀ s, pre s → post a s) :
    Leads pre fails (Pure.pure a : EStateM ε σ α) post := h

theorem bind {x : EStateM ε σ α} {f : α → EStateM ε σ β} {mid : α → σ → Prop} {post : β → σ → Prop}
    (hx : Leads pre fails x mid) (hf : ∀ a, Leads (mid a) fails (f a) post) :
    Leads pre fails (x >>= f) post := by
  intro s hs
  have hout := hx s hs
  change match EStateM.bind x f s with
    | .ok b s' => post b s'
    | .error e _ => fails e
  unfold EStateM.bind
  cases hres : x s with
  | ok a s' =>
      rw [hres] at hout
      exact hf a s' hout
  | error e s' =>
      rw [hres] at hout
      exact hout

theorem bind_get {f : σ → EStateM ε σ β} {post : β → σ → Prop}
    (hf : ∀ s, pre s → Leads (· = s) fails (f s) post) : Leads pre fails (get >>= f) post :=
  fun s hs => hf s hs s rfl

theorem ofExcept (x : Except ε α) (hfails : ∀ e, fails e) :
    Leads pre fails (MonadExcept.ofExcept x : EStateM ε σ α) fun a s => pre s ∧ x = .ok a := by
  cases x with
  | ok a => exact pure fun s hs => ⟨hs, rfl⟩
  | error e => exact fun _ _ => hfails e

theorem mono {pre' : σ → Prop} {x : EStateM ε σ α} {mid post : α → σ → Prop}
    (hx : Leads pre fails x mid) (hpre : ∀ s, pre' s → pre s) (hpost : ∀ a s, mid a s → post a s) :
    Leads pre' fails x post := by
  intro s hs
  have hout := hx s (hpre s hs)
  cases hres : x s with
  | ok a s' =>
      rw [hres] at hout
      exact hpost a s' hout
  | error e s' =>
      rw [hres] at hout
      exact hout

/-- What all states that satisfy `pre` have in common can be used. -/
theorem assume {P : Prop} {x : EStateM ε σ α} {post : α → σ → Prop} (h : ∀ s, pre s → P)
    (hx : P → Leads pre fails x post) : Leads pre fails x post := fun s hs => hx (h s hs) s hs

theorem of_ok {x : EStateM ε σ α} {post : α → σ → Prop} (hx : Leads pre fails x post) {s t : σ} {a : α}
    (hs : pre s) (h : x s = .ok a t) : post a t := by
  have hout := hx s hs
  rwa [h] at hout

theorem answers {x : EStateM ε σ α} {a : α} {post : σ → Prop}
    (hx : Leads pre (fun _ => False) x fun b s => b = a ∧ post s) : Answers pre x a post := by
  intro s hs
  have hout := hx s hs
  cases hres : x s with
  | ok b s' =>
      rw [hres] at hout
      exact ⟨s', by rw [hout.1], hout.2⟩
  | error e s' =>
      rw [hres] at hout
      exact hout.elim

end Leads

theorem Answers.leads {pre post : σ → Prop} {fails : ε → Prop} {x : EStateM ε σ α} {a : α}
    (hx : Answers pre x a post) : Leads pre fails x fun b s => b = a ∧ post s := by
  intro s hs
  obtain ⟨s', hout, hs'⟩ := hx s hs
  rw [hout]
  exact ⟨rfl, hs'⟩

end TokenDiff
