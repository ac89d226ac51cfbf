import Mathlib
import TokenDiff.Proofs.Edit.Lookup
import TokenDiff.Proofs.Edit.Slide

/-!
# The edit script

What a caller of `Comparison.script` may rely on. The snakes of a script lead through both sequences, over
equal pairs only, so that the old sequence can be turned into the new one (`script_rebuilds_new`). Where
tokens that may match are equal, and enough rounds are allowed for, there are as many pairs as in a longest
common subsequence (`script_minimal`). The search comes to an end (`script_terminates`), and the script is
in a normal form: every snake is slid as far as it goes, and each gap is an edit (`script_canonical`).

All of this is read off `script_ensures`: the snakes are those of some search of both sequences, slid
forward until they are settled.
-/

namespace TokenDiff

variable {σ : Type} {α : Type*} {c : Comparison σ} {valid : σ → Prop} {fails : Fault → Prop}
  {same : Nat → Nat → Bool} {fast : Bool} {tuning : Tuning} {s t : σ} {script : Script}

theorem Comparison.Decides.weaken {fails' : Fault → Prop} (hc : c.Decides valid fails same)
    (h : ∀ e, fails e → fails' e) : c.Decides valid fails' same :=
  ⟨fun i j hi hj => (hc.equal i j hi hj).weaken h, hc.likely⟩

/-- The snakes come from a search of both sequences. Only a search without a single round can stall, and
only where there is something to search. -/
theorem snakes_ensures (hc : c.Decides valid fails same) {maxDepth : Nat}
    (hstall : maxDepth = 0 → 0 < c.oldCount → 0 < c.newCount → ∀ r : Rect, fails r.stalled) :
    Ensures valid fails (c.snakes maxDepth) (Searched c same (min maxDepth (c.oldCount + c.newCount))
      ⟨0, 0, c.oldCount, c.newCount⟩) := by
  refine .bind (search_ensures hc _ _ (fun hopen hbound => ?_) le_rfl le_rfl) fun out hout => ?_
  · simp only [Rect.isOpen] at hopen
    exact hstall (by omega) hopen.1 hopen.2
  · exact .pure hout

theorem script_ensures (hc : c.Decides valid fails same)
    (hstall : tuning.maxDepth c.oldCount c.newCount fast = 0 → 0 < c.oldCount → 0 < c.newCount →
      ∀ r : Rect, fails r.stalled) :
    Ensures valid fails (c.script fast tuning) fun script =>
      (script.oldCount = c.oldCount ∧ script.newCount = c.newCount) ∧
      Settled same c.oldCount c.newCount 0 0 script.snakes ∧
      ∃ found, Searched c same
          (min (tuning.maxDepth c.oldCount c.newCount fast) (c.oldCount + c.newCount))
          ⟨0, 0, c.oldCount, c.newCount⟩ found ∧
        matched found ≤ matched script.snakes := by
  refine .bind (snakes_ensures hc hstall) fun found hfound => ?_
  refine .bind (bias_ensures hc hfound) fun out hout => ?_
  exact .pure ⟨⟨rfl, rfl⟩, hout.1, found, hfound, hout.2⟩

/-- A comparison that never fails has a script, if a round is allowed for or there is nothing to
search. -/
theorem exists_script (hc : c.Decides valid (fun _ => False) same)
    (hround : 0 < c.oldCount → 0 < c.newCount →
      0 < tuning.maxDepth c.oldCount c.newCount fast) (hs : valid s) :
    ∃ script t, c.script fast tuning s = .ok script t := by
  have hstall : tuning.maxDepth c.oldCount c.newCount fast = 0 → 0 < c.oldCount →
      0 < c.newCount → ∀ _ : Rect, False := by
    intro hzero hx hy
    have := hround hx hy
    omega
  obtain ⟨script, t, h, -⟩ := (script_ensures hc hstall).exists_ok hs
  exact ⟨script, t, h⟩

/-- Two lists compared token by token. Tokens may match when their hashes do. -/
def Comparison.ofLists [DecidableEq α] (hash : α → Nat) (old new : List α) : Comparison Unit where
  oldCount := old.length
  newCount := new.length
  likely i j := old[i]?.map hash == new[j]?.map hash
  equal i j := pure (old[i]? == new[j]?)

theorem Comparison.ofLists_decides [DecidableEq α] (hash : α → Nat) (old new : List α) :
    (ofLists hash old new).Decides (fun _ => True) fails fun i j => old[i]? == new[j]? where
  equal _ _ _ _ := .pure rfl
  likely i j _ _ h := by
    simp only [ofLists, beq_iff_eq] at h ⊢
    rw [h]

/-! ## The new sequence from the old one -/

/-- The snakes of the script lead from corner to corner, over pairs that `same` calls equal. -/
structure Script.Aligns (same : Nat → Nat → Bool) (script : Script) : Prop where
  first : ∃ s rest, script.snakes = s :: rest ∧ s.x = 0 ∧ s.y = 0
  last : ∃ init s, script.snakes = init ++ [s] ∧ s.u = script.oldCount ∧ s.v = script.newCount
  inside : ∀ s ∈ script.snakes, (s.x ≤ s.u ∧ s.u ≤ script.oldCount) ∧
    (s.y ≤ s.v ∧ s.v ≤ script.newCount) ∧ s.u - s.x = s.v - s.y
  ordered : script.snakes.IsChain fun s t => s.u ≤ t.x ∧ s.v ≤ t.y
  equal : ∀ s ∈ script.snakes, ∀ k, k < s.u - s.x → same (s.x + k) (s.y + k) = true

/-- The old tokens of the snakes, with the new tokens of the gaps between them. -/
def rebuildFrom (old new : List α) : List Snake → List α
  | [] => []
  | [s] => old.extract s.x s.u
  | s :: t :: rest => old.extract s.x s.u ++ new.extract s.v t.y ++ rebuildFrom old new (t :: rest)

def Script.rebuild (script : Script) (old new : List α) : List α :=
  rebuildFrom old new script.snakes

theorem Settled.aligns (hcount : script.oldCount = c.oldCount ∧ script.newCount = c.newCount)
    (h : Settled same c.oldCount c.newCount 0 0 script.snakes) : script.Aligns same := by
  obtain ⟨first, rest, hfirst, hx, hy⟩ := h.head
  obtain ⟨init, last, hlast⟩ := (List.eq_nil_or_concat' script.snakes).resolve_left (by simp [hfirst])
  have hcorner := h.last last (by simp [hlast])
  constructor
  case first => exact ⟨first, rest, hfirst, hx, hy⟩
  case last => exact ⟨init, last, hlast, by omega, by omega⟩
  case inside =>
    intro s hs
    obtain ⟨hmatch, -, hu, hv⟩ := h.ascends.of_mem hs
    have hxu := hmatch.x_le_u
    have hdiag := hmatch.diagonal
    omega
  case ordered => exact h.ascends.isChain
  case equal =>
    intro s hs
    exact (h.ascends.of_mem hs).1.equal

theorem extract_append_drop (l : List α) {i j : Nat} (h : i ≤ j) :
    l.extract i j ++ l.drop j = l.drop i := by
  have hdrop : l.drop j = (l.drop i).drop (j - i) := by
    rw [List.drop_drop, Nat.add_sub_cancel' h]
  rw [List.extract_eq_take_drop, hdrop, List.take_append_drop]

section rebuild

variable {old new : List α} {rel : α → α → Prop} {x y : Nat} {s : Snake} {rest : List Snake}

theorem Snake.Matches.extract (hs : s.Matches same) (hu : s.u ≤ old.length) (hv : s.v ≤ new.length)
    (hrel : ∀ i j (hi : i < old.length) (hj : j < new.length), same i j = true →
      rel old[i] new[j]) :
    List.Forall₂ rel (old.extract s.x s.u) (new.extract s.y s.v) := by
  have hxu := hs.x_le_u
  have hdiag := hs.diagonal
  refine List.forall₂_iff_get.2 ⟨?_, fun k hk hk' => ?_⟩
  · simp only [List.extract_eq_take_drop, List.length_take, List.length_drop]
    omega
  · simp only [List.extract_eq_take_drop, List.length_take, List.length_drop] at hk
    simp only [List.extract_eq_take_drop, List.get_eq_getElem, List.getElem_take,
      List.getElem_drop]
    exact hrel _ _ (by omega) (by omega) (hs.equal k (by omega))

/-- What is rebuilt from a snake on is the new sequence from there on, but for equal tokens. -/
theorem rebuildFrom_forall₂
    (hrel : ∀ i j (hi : i < old.length) (hj : j < new.length), same i j = true →
      rel old[i] new[j])
    (h : Ascends same old.length new.length x y (s :: rest))
    (hlast : ∀ p ∈ (s :: rest).getLast?, p.u = old.length ∧ p.v = new.length) :
    List.Forall₂ (fun a b => a = b ∨ rel a b) (rebuildFrom old new (s :: rest))
      (new.drop s.y) := by
  have hkept : ∀ l : List α, List.Forall₂ (fun a b => a = b ∨ rel a b) l l :=
    fun l => List.forall₂_same.2 fun a _ => .inl rfl
  induction rest generalizing x y s with
  | nil =>
      obtain ⟨-, hs, hu, hv⟩ := h
      have hcorner := hlast s rfl
      have hyv : s.y ≤ s.v := by
        have := hs.x_le_u
        have := hs.diagonal
        omega
      have hrun := (hs.extract hu hv hrel).imp fun a b => Or.inr (a := a = b)
      rw [← extract_append_drop new hyv, hcorner.2, List.drop_length, List.append_nil]
      rwa [hcorner.2] at hrun
  | cons t rest ih =>
      obtain ⟨-, hs, hrest⟩ := h
      obtain ⟨-, hgap⟩ := hrest.1
      obtain ⟨hu, hv⟩ := hrest.le
      have hyv : s.y ≤ s.v := by
        have := hs.x_le_u
        have := hs.diagonal
        omega
      have hrun := (hs.extract hu hv hrel).imp fun a b => Or.inr (a := a = b)
      have htail := ih hrest (by rwa [List.getLast?_cons_cons] at hlast)
      rw [← extract_append_drop new hyv, ← extract_append_drop new hgap, rebuildFrom,
        List.append_assoc]
      exact List.rel_append hrun (List.rel_append (hkept _) htail)

/-- Settled snakes turn the old sequence into the new one. -/
theorem Settled.rebuild_forall₂ (h : Settled same old.length new.length 0 0 script.snakes)
    (hrel : ∀ i j (hi : i < old.length) (hj : j < new.length), same i j = true →
      rel old[i] new[j]) :
    List.Forall₂ (fun a b => a = b ∨ rel a b) (script.rebuild old new) new := by
  obtain ⟨first, rest, hfirst, -, hy⟩ := h.head
  have hasc := h.ascends
  have hlast := h.last
  rw [hfirst] at hasc hlast
  have hrebuilt := rebuildFrom_forall₂ hrel hasc hlast
  rwa [hy, List.drop_zero, ← hfirst] at hrebuilt

end rebuild

/-- The snakes of a script lead through both sequences, also where hashes collide or the rounds that are
allowed for run out, and turn the old sequence into the new one, but for equal tokens. -/
theorem script_rebuilds_new (hc : c.Decides valid (fun _ => True) same) (hs : valid s)
    (h : c.script fast tuning s = .ok script t) :
    (script.oldCount = c.oldCount ∧ script.newCount = c.newCount) ∧ script.Aligns same ∧
      ∀ {β : Type*} (old new : List β) (rel : β → β → Prop),
        old.length = c.oldCount → new.length = c.newCount →
        (∀ i j (hi : i < old.length) (hj : j < new.length), same i j = true → rel old[i] new[j]) →
        List.Forall₂ (fun a b => a = b ∨ rel a b) (script.rebuild old new) new ∧
          ((∀ a b, rel a b → a = b) → script.rebuild old new = new) := by
  obtain ⟨-, hcount, hsettled, -⟩ :=
    (script_ensures hc fun _ _ _ _ => trivial).of_ok hs h
  refine ⟨hcount, hsettled.aligns hcount, fun old new rel hold hnew hrel => ?_⟩
  rw [← hold, ← hnew] at hsettled
  have hrebuilt := hsettled.rebuild_forall₂ hrel
  refine ⟨hrebuilt, fun hid => ?_⟩
  have heq := hrebuilt.imp fun a b hab => hab.elim id (hid a b)
  rwa [List.forall₂_eq_eq_eq] at heq

/-- The first two tokens only look alike here, and a single round is too few. -/
theorem script_rebuilds_new_of_collision : ∃ script,
    (Comparison.ofLists (· / 2) [0, 2, 5, 6, 3, 8] [1, 2, 5, 7, 8, 6, 3]).script true
      { minDepth := 1 } () = .ok script () ∧
    script.snakes = [⟨0, 0, 0, 0⟩, ⟨1, 3, 1, 3⟩, ⟨6, 6, 7, 7⟩] ∧
    script.rebuild [0, 2, 5, 6, 3, 8] [1, 2, 5, 7, 8, 6, 3] = [1, 2, 5, 7, 8, 6, 3] := by
  have hrun : (Comparison.ofLists (· / 2) [0, 2, 5, 6, 3, 8] [1, 2, 5, 7, 8, 6, 3]).script true
      { minDepth := 1 } () = .ok ⟨[⟨0, 0, 0, 0⟩, ⟨1, 3, 1, 3⟩, ⟨6, 6, 7, 7⟩], 6, 7, 1⟩ () := by
    cbv
  obtain ⟨-, -, hrebuild⟩ :=
    script_rebuilds_new (Comparison.ofLists_decides _ _ _) trivial hrun
  refine ⟨_, hrun, rfl, (hrebuild _ _ (· = ·) rfl rfl fun i j hi hj hsame => ?_).2 fun _ _ => id⟩
  rw [List.getElem?_eq_getElem hi, List.getElem?_eq_getElem hj] at hsame
  exact Option.some.inj (eq_of_beq hsame)

/-! ## As few edits as possible -/

/-- The tokens that a script deletes and inserts. -/
def Script.edits (script : Script) : Nat :=
  (script.gaps.map fun gap => gap.old.length + gap.new.length).sum

/-- Each token is in a pair or in a gap. -/
theorem sum_gaps_add_matched {endX endY x y : Nat} {s : Snake} {rest : List Snake}
    (h : Ascends same endX endY x y (s :: rest))
    (hlast : ∀ p ∈ (s :: rest).getLast?, p.u = endX ∧ p.v = endY) :
    ((((s :: rest).zip rest).map fun (p, q) => Gap.between p q).map
      fun gap => gap.old.length + gap.new.length).sum + 2 * matched (s :: rest) =
      (endX - s.x) + (endY - s.y) := by
  induction rest generalizing x y s with
  | nil =>
      obtain ⟨-, hs, -⟩ := h
      have hcorner := hlast s rfl
      have hxu := hs.x_le_u
      have hdiag := hs.diagonal
      simp
      omega
  | cons t rest ih =>
      obtain ⟨-, hs, hrest⟩ := h
      have hgap := hrest.1
      have hmatch := hrest.2.1
      have hle := hrest.2.2.le
      have hxu := hs.x_le_u
      have hdiag := hs.diagonal
      have htxu := hmatch.x_le_u
      have htdiag := hmatch.diagonal
      have := ih hrest (by rwa [List.getLast?_cons_cons] at hlast)
      simp only [List.zip_cons_cons, List.map_cons, List.sum_cons, Gap.between, Span.length,
        matched_cons] at this ⊢
      omega

theorem Settled.edits_add_matched {endX endY : Nat}
    (h : Settled same endX endY 0 0 script.snakes) :
    script.edits + 2 * matched script.snakes = endX + endY := by
  obtain ⟨first, rest, hfirst, hx, hy⟩ := h.head
  have hasc := h.ascends
  have hlast := h.last
  rw [hfirst] at hasc hlast
  have hsum := sum_gaps_add_matched hasc hlast
  rw [hx, hy] at hsum
  simp only [Script.edits, Script.gaps, Script.steps, hfirst, List.tail_cons]
  exact hsum

theorem sum_length_eq_matched (snakes : List Snake) :
    (snakes.map Snake.length).sum = matched snakes := by
  induction snakes with
  | nil => rfl
  | cons s rest ih => rw [List.map_cons, List.sum_cons, ih, matched_cons, Snake.length]

/-- Where the tokens that may match are those that are equal, and as many rounds are allowed for as half
the tokens, no other script has more pairs: they are a longest common subsequence. -/
theorem script_minimal (hc : c.Decides valid fails same)
    (hlikely : ∀ i j, i < c.oldCount → j < c.newCount → c.likely i j = same i j)
    (hdepth : (c.oldCount + c.newCount) / 2 ≤ tuning.maxDepth c.oldCount c.newCount fast)
    (hs : valid s) :
    (∀ script t, c.script fast tuning s = .ok script t →
      IsGreatest {k | ∃ pairs, IsMatching same ⟨0, 0, c.oldCount, c.newCount⟩ pairs ∧
        pairs.length = k} (matched script.snakes) ∧
      script.edits + 2 * matched script.snakes = c.oldCount + c.newCount ∧
      (script.snakes.map Snake.length).sum = matched script.snakes) ∧
    ((∀ e, ¬ fails e) → ∃ script t, c.script fast tuning s = .ok script t) := by
  refine ⟨fun script t h => ?_, fun hnever => ?_⟩
  · obtain ⟨-, hcount, hsettled, found, hfound, hle⟩ :=
      (script_ensures (hc.weaken fun _ _ => trivial) fun _ _ _ _ => trivial).of_ok hs h
    have hmost := hfound.matched_eq_lcs hlikely ⟨Nat.zero_le _, Nat.zero_le _⟩
      (by simp only; omega)
    have hleast := matched_le_lcs hsettled.ascends
    have heq : matched script.snakes = Rect.lcs same ⟨0, 0, c.oldCount, c.newCount⟩ :=
      le_antisymm hleast (hmost ▸ hle)
    exact ⟨heq ▸ Rect.lcs_isGreatest same _, hsettled.edits_add_matched, sum_length_eq_matched _⟩
  · have hnone : c.Decides valid (fun _ => False) same := hc.weaken hnever
    exact exists_script hnone (fun hx hy => by omega) hs

/-- As many rounds as half the tokens are just enough for four pairs here. -/
theorem script_minimal_of_lists : ∃ script,
    (Comparison.ofLists id [1, 2, 3, 1, 2, 2, 1] [3, 2, 1, 2, 1, 3]).script true
      { minDepth := 6 } () = .ok script () ∧ script.edits = 5 ∧
    IsGreatest {k | ∃ pairs, IsMatching
      (fun i j => [1, 2, 3, 1, 2, 2, 1][i]? == [3, 2, 1, 2, 1, 3][j]?) ⟨0, 0, 7, 6⟩ pairs ∧
      pairs.length = k} 4 := by
  have hrun : (Comparison.ofLists id [1, 2, 3, 1, 2, 2, 1] [3, 2, 1, 2, 1, 3]).script true
      { minDepth := 6 } () = .ok ⟨[⟨0, 0, 0, 0⟩, ⟨1, 2, 1, 2⟩, ⟨3, 5, 2, 4⟩, ⟨6, 7, 4, 5⟩,
        ⟨7, 7, 6, 6⟩], 7, 6, 6⟩ () := by
    cbv
  have hc : (Comparison.ofLists id [1, 2, 3, 1, 2, 2, 1] [3, 2, 1, 2, 1, 3]).Decides
      (fun _ => True) (fun _ => False) _ := Comparison.ofLists_decides id _ _
  have hdepth : (7 + 6) / 2 ≤ Tuning.maxDepth { minDepth := 6 } 7 6 true := by decide
  have hmost := (script_minimal hc (fun i j _ _ => by simp [Comparison.ofLists]) hdepth
    trivial).1 _ _ hrun
  exact ⟨_, hrun, rfl, hmost.1⟩

/-! ## The search comes to an end -/

/-- The search comes to an end. It stalls at no rectangle, since each is divided into smaller ones; it looks
up no diagonal off its frontiers, and the snakes it divides at have coordinates inside the rectangle. -/
theorem script_terminates (hc : c.Decides valid (fun _ => False) same)
    (hdepth : 1 ≤ tuning.maxDepth c.oldCount c.newCount fast) :
    (∀ s, valid s → ∃ script t, c.script fast tuning s = .ok script t) ∧
    ∀ (bound : Nat) (f : Frontiers bound) (r : Rect) (h : r.isOpen),
      (c.board r h).middle? f = some ((c.board r h).middle f) ∧
      ∃ (run : Run) (snake : Snake), run = ((c.board r h).middle f).1 ∧
        snake = (c.divide r h f).1 ∧
        ((snake.x : Int) = r.startX + run.x ∧ (snake.u : Int) = r.startX + run.u ∧
          (snake.y : Int) = r.startY + run.y ∧ (snake.v : Int) = r.startY + run.v) ∧
        (r.startX ≤ snake.x ∧ snake.x ≤ snake.u ∧ snake.u ≤ r.endX) ∧
        (r.startY ≤ snake.y ∧ snake.y ≤ snake.v ∧ snake.v ≤ r.endY) ∧
        snake.u - snake.x = snake.v - snake.y ∧
        (1 ≤ bound → (r.before snake).extent < r.extent ∧ (r.after snake).extent < r.extent) := by
  refine ⟨fun s hs => ?_, fun bound f r h => ⟨(c.board r h).middle?_eq_some f, _, _, rfl, rfl, ?_⟩⟩
  · exact exists_script hc (fun _ _ => hdepth) hs
  · have hdiv := c.divide_divided r h f
    have hleft := hdiv.left
    have hright := hdiv.right
    have hxu := hdiv.matched.x_le_u
    have hdiag := hdiv.matched.diagonal
    have hrun := ((c.board r h).middle_divides f).toOnBoard
    have hplace : (c.divide r h f).1 = r.place ((c.board r h).middle f).1 := rfl
    refine ⟨?_, ⟨hleft.1, hxu, hright.1⟩, ⟨hleft.2, by omega, hright.2⟩, by omega, hdiv.shrinks⟩
    have := hrun.x_nonneg
    have := hrun.y_nonneg
    have := hrun.x_le_u
    have := hrun.diagonal
    simp only [hplace, Rect.place]
    omega

/-- A single round for tokens that look alike where they are not. -/
theorem script_terminates_of_collisions : (∃ script t,
    (Comparison.ofLists (· / 2) [0, 0, 1, 4, 4, 5] [1, 0, 4, 5, 5]).script true
      { minDepth := 1 } () = .ok script t) ∧
    ∃ run, ((Comparison.ofLists (· / 2) [0, 0, 1, 4, 4, 5] [1, 0, 4, 5, 5]).board ⟨0, 0, 6, 5⟩
      (by decide)).middle? (Frontiers.start 1) = some run := by
  have hdepth : 1 ≤ Tuning.maxDepth { minDepth := 1 } 6 5 true := by decide
  have hends := script_terminates
    (Comparison.ofLists_decides (· / 2) [0, 0, 1, 4, 4, 5] [1, 0, 4, 5, 5]) hdepth
  exact ⟨hends.1 () trivial, _, (hends.2 1 _ _ _).1⟩

/-! ## The normal form -/

theorem forall_mem_steps {R : Snake → Snake → Prop} {snakes : List Snake} (h : snakes.IsChain R) :
    ∀ p ∈ snakes.zip snakes.tail, R p.1 p.2 := by
  induction h with
  | nil => simp
  | singleton s => simp
  | cons_cons hst _ ih =>
      intro p hp
      rcases List.mem_cons.1 hp with rfl | hp
      · exact hst
      · exact ih p hp

/-- Each gap between settled snakes is an edit. -/
theorem Settled.kind?_ne_none {endX endY x y : Nat}
    (h : Settled same endX endY x y script.snakes) : ∀ gap ∈ script.gaps, gap.kind? ≠ none := by
  intro gap hgap hnone
  obtain ⟨⟨p, q⟩, hpq, rfl⟩ := List.mem_map.1 hgap
  have hsep := forall_mem_steps h.gaps _ hpq
  obtain ⟨hold, hnew⟩ := Gap.kind?_eq_none_iff.1 hnone
  simp only [Gap.between, Span.length] at hold hnew hsep
  omega

/-- A script is in normal form: no snake but the last could be slid any further, each gap has a token to
delete or to insert, and only the first and the last snake may be empty. -/
theorem script_canonical (hc : c.Decides valid (fun _ => True) same) (hs : valid s)
    (h : c.script fast tuning s = .ok script t) :
    (∀ snake ∈ script.snakes.dropLast,
      snake.u = c.oldCount ∨ snake.v = c.newCount ∨ same snake.u snake.v = false) ∧
    (∀ gap ∈ script.gaps, gap.kind? ≠ none) ∧
    ∀ snake ∈ script.snakes.tail.dropLast, snake.isEmpty = false := by
  obtain ⟨-, -, hsettled, -⟩ := (script_ensures hc fun _ _ _ _ => trivial).of_ok hs h
  refine ⟨fun snake hsnake => ?_, hsettled.kind?_ne_none, fun snake hsnake => ?_⟩
  · have hstuck := hsettled.stuck snake hsnake
    obtain ⟨-, -, hu, hv⟩ := hsettled.ascends.of_mem (List.dropLast_subset _ hsnake)
    by_contra hgrow
    rw [not_or, not_or, Bool.not_eq_false] at hgrow
    exact hstuck ⟨⟨by omega, by omega⟩, hgrow.2.2⟩
  · have hlt := hsettled.nonempty snake hsnake
    simp only [Snake.isEmpty, beq_eq_false_iff_ne]
    omega

/-- Two changes with a deletion between them. -/
theorem script_canonical_of_lists : ∃ script,
    (Comparison.ofLists (· / 2) [0, 0, 1, 4, 4, 5] [1, 0, 4, 5, 5]).script true
      { minDepth := 1 } () = .ok script () ∧
    script.snakes = [⟨0, 0, 0, 0⟩, ⟨1, 2, 1, 2⟩, ⟨3, 4, 2, 3⟩, ⟨5, 6, 4, 5⟩] ∧
    ∀ gap ∈ script.gaps, gap.kind? ≠ none := by
  have hrun : (Comparison.ofLists (· / 2) [0, 0, 1, 4, 4, 5] [1, 0, 4, 5, 5]).script true
      { minDepth := 1 } () =
        .ok ⟨[⟨0, 0, 0, 0⟩, ⟨1, 2, 1, 2⟩, ⟨3, 4, 2, 3⟩, ⟨5, 6, 4, 5⟩], 6, 5, 1⟩ () := by
    cbv
  exact ⟨_, hrun, rfl,
    (script_canonical (Comparison.ofLists_decides (· / 2) _ _) trivial hrun).2.1⟩

end TokenDiff
