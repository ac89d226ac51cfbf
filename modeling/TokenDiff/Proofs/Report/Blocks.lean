import TokenDiff.Proofs.Report.Unified

/-!
# The blocks of a script

A report in hunks shows a script block by block, a block being a hunk together with what it covers. Where a
script is cut into blocks and where these lie is the same for all such reports (`Script.CutInto`).

Blocks are laid out along the snakes (`Laid`): each one begins within the snake before its first edit and ends
within the snake after its last one, both times at the same distance from the start of the snake on both sides.
What is said of all blocks is by induction on this. Which tokens there are makes no difference to it, so the
steps are followed as a `Route` over tokens that are all alike.
-/

namespace TokenDiff

/-! ## The two sides -/

def Span.Holds (span : Span) (i : Nat) : Prop := span.start ≤ i ∧ i < span.stop

instance (span : Span) (i : Nat) : Decidable (span.Holds i) := inferInstanceAs (Decidable (_ ∧ _))

def Snake.on (s : Snake) (side : Side) : Span := side.pick ⟨s.x, s.u⟩ ⟨s.y, s.v⟩

def Gap.on (gap : Gap) (side : Side) : Span := side.pick gap.old gap.new

def Extent.on (extent : Extent) (side : Side) : Span := side.pick extent.old extent.new

def Script.countOn (script : Script) (side : Side) : Nat := side.pick script.oldCount script.newCount

def Step.gap (step : Step) : Gap := Gap.between step.1 step.2

theorem Step.gap_on (step : Step) (side : Side) :
    (Step.gap step).on side = ⟨(step.1.on side).stop, (step.2.on side).start⟩ := by
  cases side <;> rfl

/-! ## Trails -/

/-- The steps lead from a snake to a snake within sequences of `m` and `n` tokens. -/
abbrev Trail (m n : Nat) : Snake → List Step → Snake → Prop :=
  Route (List.replicate m []) (List.replicate n [])

section

variable {old new : List (List UInt8)} {s t e : Snake} {steps : List Step}

theorem Snake.Joins.on_le (h : s.Joins old new) (side : Side) : (s.on side).start ≤ (s.on side).stop := by
  have hxu := h.x_le_u
  have hdiag := h.diagonal
  cases side
  · exact hxu
  · change s.y ≤ s.v
    omega

theorem Snake.Joins.on_stop_le (h : s.Joins old new) (side : Side) :
    (s.on side).stop ≤ side.pick old.length new.length := by
  cases side
  · exact h.u_le
  · exact h.v_le

theorem Snake.Joins.on_length (h : s.Joins old new) (side : Side) :
    (s.on side).start + (s.u - s.x) = (s.on side).stop := by
  have hxu := h.x_le_u
  have hdiag := h.diagonal
  cases side
  · change s.x + (s.u - s.x) = s.u
    omega
  · change s.y + (s.u - s.x) = s.v
    omega

namespace Route

theorem on_le (h : Route old new s steps e) (hne : steps ≠ []) (side : Side) :
    (s.on side).stop ≤ (e.on side).start := by
  obtain ⟨hold, hnew⟩ := h.gap hne
  cases side
  · exact hold
  · exact hnew

theorem on_start_le (h : Route old new s steps e) (side : Side) : (s.on side).start ≤ (e.on side).start := by
  cases side
  · exact h.le.1
  · exact h.le.2

theorem on_le_of_mem (h : Route old new s steps e) {step : Step} (hstep : step ∈ steps) (side : Side) :
    (s.on side).stop ≤ (step.1.on side).stop ∧ (step.1.on side).stop ≤ (step.2.on side).start ∧
      (step.2.on side).start ≤ (e.on side).start := by
  induction h with
  | nil _ => cases hstep
  | @cons s t e steps hs hgap rest ih =>
      have hst := (Route.cons hs hgap (.nil rest.head)).on_le (List.cons_ne_nil _ _) side
      have ht := rest.head.on_le side
      rcases List.mem_cons.1 hstep with rfl | hstep
      · exact ⟨Nat.le_refl _, hst, rest.on_start_le side⟩
      · obtain ⟨hlow, hmid, hhigh⟩ := ih hstep
        exact ⟨by omega, hmid, hhigh⟩

/-- A place between the ends of a route is in one of its snakes or gaps. -/
theorem exists_of_within (h : Route old new s steps e) {side : Side} {i : Nat}
    (hi : (s.on side).start ≤ i ∧ i < (e.on side).stop) :
    (∃ r ∈ s :: steps.map Prod.snd, (r.on side).Holds i) ∨
      ∃ step ∈ steps, ((Step.gap step).on side).Holds i := by
  induction h with
  | nil _ => exact .inl ⟨_, List.mem_singleton_self _, hi⟩
  | @cons s t e steps hs hgap rest ih =>
      by_cases hsnake : i < (s.on side).stop
      · exact .inl ⟨s, List.mem_cons_self, hi.1, hsnake⟩
      · by_cases hbetween : i < (t.on side).start
        · refine .inr ⟨(s, t), List.mem_cons_self, ?_⟩
          rw [Step.gap_on]
          exact ⟨Nat.le_of_not_lt hsnake, hbetween⟩
        · rcases ih ⟨by omega, hi.2⟩ with ⟨r, hr, hholds⟩ | ⟨step, hstep, hholds⟩
          · exact .inl ⟨r, List.mem_cons_of_mem _ hr, hholds⟩
          · exact .inr ⟨step, List.mem_cons_of_mem _ hstep, hholds⟩

/-- No place is both in a snake and in a gap. -/
theorem not_gap_of_snake (h : Route old new s steps e) {side : Side} {i : Nat} {r : Snake}
    (hr : r ∈ s :: steps.map Prod.snd) (hi : (r.on side).Holds i) {step : Step} (hstep : step ∈ steps) :
    ¬ ((Step.gap step).on side).Holds i := by
  induction h with
  | nil _ => cases hstep
  | @cons s t e steps hs hgap rest ih =>
      rintro hholds
      rcases List.mem_cons.1 hr with rfl | hr
      · -- the snake is the first one, and the gap comes after it
        have hlow := ((Route.cons hs hgap rest).on_le_of_mem hstep side).1
        rw [Step.gap_on] at hholds
        exact absurd hi.2 (Nat.not_lt.2 (Nat.le_trans hlow hholds.1))
      · rcases List.mem_cons.1 hstep with rfl | hstep
        · -- the gap is the first one, and the snake comes after it
          have hlow : (t.on side).start ≤ (r.on side).start := by
            rcases List.mem_cons.1 hr with rfl | hr
            · exact Nat.le_refl _
            · obtain ⟨step, hmem, rfl⟩ := List.mem_map.1 hr
              have hmid := rest.on_le_of_mem hmem side
              have ht := rest.head.on_le side
              omega
          rw [Step.gap_on] at hholds
          exact absurd hholds.2 (Nat.not_lt.2 (Nat.le_trans hlow hi.1))
        · exact ih hr hstep hholds

/-- No place is in two gaps. -/
theorem eq_of_gap (h : Route old new s steps e) {side : Side} {i : Nat} {p q : Step} (hp : p ∈ steps)
    (hq : q ∈ steps) (hip : ((Step.gap p).on side).Holds i) (hiq : ((Step.gap q).on side).Holds i) :
    p = q := by
  induction h with
  | nil _ => cases hp
  | @cons s t e steps hs hgap rest ih =>
      have hfirst {step : Step} (hstep : step ∈ steps) (hi : ((Step.gap step).on side).Holds i)
          (hi' : ((Step.gap (s, t)).on side).Holds i) : False := by
        have hlow := (rest.on_le_of_mem hstep side).1
        have ht := rest.head.on_le side
        rw [Step.gap_on] at hi hi'
        exact absurd hi'.2 (Nat.not_lt.2 (Nat.le_trans (Nat.le_trans ht hlow) hi.1))
      rcases List.mem_cons.1 hp with rfl | hp
      · rcases List.mem_cons.1 hq with rfl | hq
        · rfl
        · exact (hfirst hq hiq hip).elim
      · rcases List.mem_cons.1 hq with rfl | hq
        · exact (hfirst hp hip hiq).elim
        · exact ih hp hq

end Route

end

theorem Script.Aligns.trail {same : Nat → Nat → Bool} {script : Script} (h : script.Aligns same) :
    ∃ s e, Trail script.oldCount script.newCount s script.steps e ∧
      script.snakes = s :: script.steps.map Prod.snd ∧ (s.x = 0 ∧ s.y = 0) ∧ e.u = script.oldCount ∧
      e.v = script.newCount := by
  refine h.exists_route fun s hs => ?_
  obtain ⟨⟨hxu, hu⟩, ⟨hyv, hv⟩, hdiag⟩ := h.inside s hs
  refine ⟨hxu, ?_, ?_, by omega, fun k hk => ?_⟩
  · rwa [List.length_replicate]
  · rwa [List.length_replicate]
  · rw [List.getElem?_replicate_of_lt (by omega), List.getElem?_replicate_of_lt (by omega)]

/-! ## Blocks -/

/-- A hunk of a script and what it covers. -/
structure Block where
  extent : Extent
  steps : List Step

namespace Script

def block? (script : Script) (context : Nat) (steps : List Step) : Option Block := do
  let first ← steps.head?
  let last ← steps.getLast?
  return ⟨Extent.around context script.oldCount script.newCount first.1 last.2, steps⟩

def blocks (script : Script) (context : Nat) : List Block :=
  (script.hunks context).filterMap (script.block? context)

variable {script : Script} {context : Nat}

theorem block?_eq {steps : List Step} {first last : Step} (hfirst : steps.head? = some first)
    (hlast : steps.getLast? = some last) :
    script.block? context steps =
      some ⟨Extent.around context script.oldCount script.newCount first.1 last.2, steps⟩ := by
  rw [block?, hfirst, hlast]
  rfl

/-- A report in hunks is that of its blocks, if their sums fit. -/
theorem SumsFit.renderHunks_eq_blocks (h : script.SumsFit context) (render : Extent → List Step → List Piece) :
    script.renderHunks context render =
      (script.blocks context).flatMap fun b => render b.extent b.steps := by
  rw [h.renderHunks_eq, blocks]
  induction script.hunks context with
  | nil => rfl
  | cons steps groups ih =>
      rw [List.flatMap_cons, ih, List.filterMap_cons, block?]
      cases steps.head? with
      | none => rfl
      | some first =>
          cases steps.getLast? with
          | none => rfl
          | some last => rfl

theorem map_steps_blocks : (script.blocks context).map Block.steps = script.hunks context := by
  have hne : ∀ steps ∈ script.hunks context, steps ≠ [] := fun _ => ne_nil_of_mem_hunks
  rw [blocks]
  generalize script.hunks context = groups at hne
  induction groups with
  | nil => rfl
  | cons steps groups ih =>
      obtain ⟨hsteps, hrest⟩ := List.forall_mem_cons.1 hne
      rw [List.filterMap_cons, block?_eq (List.head?_eq_some_head hsteps)
        (List.getLast?_eq_some_getLast hsteps), List.map_cons, ih hrest]

theorem flatMap_steps_blocks (script : Script) (context : Nat) :
    (script.blocks context).flatMap Block.steps = script.steps := by
  rw [List.flatMap_def, map_steps_blocks, flatten_hunks]

end Script

/-! ## Where the blocks lie -/

/-- From place `d` of a snake on, the blocks follow the script to its end. Each one begins and ends within
snakes, at the same distance from the start of the snake on both sides. -/
inductive Laid (script : Script) : Snake → Nat → List Block → Prop
  | nil {s : Snake} {d : Nat} (hs : s ∈ script.snakes) (htrail : Trail script.oldCount script.newCount s [] s)
    (hcorner : s.u = script.oldCount ∧ s.v = script.newCount) (hd : d ≤ s.u - s.x) : Laid script s d []
  | cons {s t : Snake} {d d₁ d₂ : Nat} {steps : List Step} {blocks : List Block} (hs : s ∈ script.snakes)
    (htrail : Trail script.oldCount script.newCount s steps t) (hne : steps ≠ []) (hd : d ≤ d₁)
    (hd₁ : d₁ ≤ s.u - s.x) (hd₂ : d₂ ≤ t.u - t.x) (rest : Laid script t d₂ blocks) :
    Laid script s d (⟨⟨⟨s.x + d₁, t.x + d₂⟩, ⟨s.y + d₁, t.y + d₂⟩⟩, steps⟩ :: blocks)

/-- The block leads from a snake to a snake, and begins and ends within them. -/
structure Block.Frames (m n : Nat) (s t : Snake) (b : Block) : Prop where
  trail : Trail m n s b.steps t
  nonempty : b.steps ≠ []
  start_eq : ∃ d ≤ s.u - s.x, ∀ side, (b.extent.on side).start = (s.on side).start + d
  stop_eq : ∃ d ≤ t.u - t.x, ∀ side, (b.extent.on side).stop = (t.on side).start + d

namespace Block.Frames

variable {m n : Nat} {s t : Snake} {b : Block}

theorem start_mem (h : b.Frames m n s t) (side : Side) :
    (s.on side).start ≤ (b.extent.on side).start ∧ (b.extent.on side).start ≤ (s.on side).stop := by
  obtain ⟨d, hd, hstart⟩ := h.start_eq
  have hlength := h.trail.head.on_length side
  have hside := hstart side
  omega

theorem stop_mem (h : b.Frames m n s t) (side : Side) :
    (t.on side).start ≤ (b.extent.on side).stop ∧ (b.extent.on side).stop ≤ (t.on side).stop := by
  obtain ⟨d, hd, hstop⟩ := h.stop_eq
  have hlength := h.trail.last.on_length side
  have hside := hstop side
  omega

theorem within (h : b.Frames m n s t) (side : Side) :
    (b.extent.on side).start ≤ (b.extent.on side).stop ∧ (b.extent.on side).stop ≤ side.pick m n := by
  have hstart := (h.start_mem side).2
  have hstop := h.stop_mem side
  have hgap := h.trail.on_le h.nonempty side
  have hlast := h.trail.last.on_stop_le side
  rw [List.length_replicate, List.length_replicate] at hlast
  exact ⟨by omega, Nat.le_trans hstop.2 hlast⟩

end Block.Frames

section

variable {script : Script} {context : Nat} {s t e : Snake} {d d₁ d₂ : Nat} {steps : List Step}
  {blocks : List Block}

namespace Laid

theorem exists_frames (h : Laid script s d blocks) {b : Block} (hb : b ∈ blocks) :
    ∃ s ∈ script.snakes, ∃ t, b.Frames script.oldCount script.newCount s t := by
  induction h with
  | nil => cases hb
  | cons hs htrail hne hd hd₁ hd₂ rest ih =>
      rcases List.mem_cons.1 hb with rfl | hb
      · exact ⟨_, hs, _, htrail, hne, ⟨_, hd₁, fun side => by cases side <;> rfl⟩, _, hd₂, fun side => by
          cases side <;> rfl⟩
      · exact ih hb

theorem start_le (h : Laid script s d blocks) {b : Block} (hb : b ∈ blocks) (side : Side) :
    (s.on side).start + d ≤ (b.extent.on side).start := by
  induction h with
  | nil => cases hb
  | @cons s t d d₁ d₂ steps blocks hs htrail hne hd hd₁ hd₂ rest ih =>
      rcases List.mem_cons.1 hb with rfl | hb
      · cases side <;> exact Nat.add_le_add_left hd _
      · have hlength := htrail.head.on_length side
        have hgap := htrail.on_le hne side
        have hrest := ih hb
        omega

theorem ascending (h : Laid script s d blocks) (side : Side) :
    blocks.Pairwise fun b b' => (b.extent.on side).stop ≤ (b'.extent.on side).start := by
  induction h with
  | nil => exact List.Pairwise.nil
  | cons hs htrail hne hd hd₁ hd₂ rest ih =>
      refine List.pairwise_cons.2 ⟨fun b hb => ?_, ih⟩
      have hstart := rest.start_le hb side
      cases side <;> exact hstart

end Laid

/-- The blocks of some groups of steps follow the script, if the groups are parted by snakes that are longer than
two contexts. -/
theorem laid_ofGroups {groups : List (List Step)} (htrail : Trail script.oldCount script.newCount s groups.flatten e)
    (hcorner : e.u = script.oldCount ∧ e.v = script.newCount) (hne : ∀ steps ∈ groups, steps ≠ [])
    (hparted : Parted context groups) (hs : s ∈ script.snakes)
    (hsnakes : ∀ step ∈ groups.flatten, step.2 ∈ script.snakes) (hd : d ≤ s.u - s.x)
    (hstart : groups ≠ [] → (s.x = 0 ∧ s.y = 0 ∧ d = 0) ∨ d + context ≤ s.u - s.x) :
    Laid script s d (groups.filterMap (script.block? context)) := by
  induction groups generalizing s d with
  | nil =>
      cases htrail with
      | nil hjoins => exact .nil hs (.nil hjoins) hcorner hd
  | cons steps groups ih =>
      obtain ⟨hsteps, hrest⟩ := List.forall_mem_cons.1 hne
      have hbegin := hstart (List.cons_ne_nil steps groups)
      rw [List.flatten_cons] at htrail hsnakes
      obtain ⟨t, hgroup, htail⟩ := htrail.split
      obtain ⟨first, last, hhead, hlast, hfirst, ht⟩ := hgroup.ends hsteps
      have hmem : t ∈ script.snakes :=
        ht ▸ hsnakes last (List.mem_append_left _ (List.mem_of_getLast? hlast))
      -- the last snake either parts the block from the next one or ends at the corner
      have hend : (groups = [] ∧ t.u = script.oldCount ∧ t.v = script.newCount) ∨ t.Parts context := by
        cases groups with
        | nil =>
            cases htail
            exact .inl ⟨rfl, hcorner⟩
        | cons next groups =>
            rw [Parted, List.isChain_cons_cons] at hparted
            exact .inr (ht ▸ hparted.1 last hlast)
      simp only [Snake.Parts] at hend
      have hroomy : (s.x = 0 ∧ s.y = 0) ∨ context ≤ s.u - s.x := by omega
      have hextent := around_within context hgroup.head hgroup.last hroomy
        (by rw [List.length_replicate, List.length_replicate]; omega)
      rw [List.length_replicate, List.length_replicate] at hextent
      have hlaid := ih htail hrest (List.IsChain.tail hparted) hmem
        (fun step hstep => hsnakes step (List.mem_append_right _ hstep))
        (Nat.min_le_right context (t.u - t.x)) fun hgroups => by
          have hparts := hend.resolve_left fun h => hgroups h.1
          omega
      rw [List.filterMap_cons, Script.block?_eq hhead hlast, hfirst, ht, hextent]
      exact .cons hs hgroup hsteps (by omega) (Nat.sub_le _ _) (Nat.min_le_right _ _) hlaid

/-- The blocks of a script follow it from its start. -/
theorem Script.Aligns.laid_blocks {same : Nat → Nat → Bool} (h : script.Aligns same) (context : Nat) :
    ∃ s, (s.x = 0 ∧ s.y = 0) ∧ Laid script s 0 (script.blocks context) := by
  obtain ⟨s, e, htrail, hsnakes, hstart, hcorner⟩ := h.trail
  rw [← flatten_hunks script context] at htrail
  refine ⟨s, hstart, laid_ofGroups htrail hcorner (fun _ => ne_nil_of_mem_hunks) parted_hunks ?_ ?_
    (Nat.zero_le _) fun _ => .inl ⟨hstart.1, hstart.2, rfl⟩⟩
  · rw [hsnakes]
    exact List.mem_cons_self
  · intro step hstep
    rw [flatten_hunks] at hstep
    rw [hsnakes]
    exact List.mem_cons_of_mem _ (List.mem_map_of_mem hstep)

end

/-! ## What the blocks leave out -/

theorem range'_append_range' {i j k : Nat} (hij : i ≤ j) (hjk : j ≤ k) :
    List.range' i (j - i) ++ List.range' j (k - j) = List.range' i (k - i) := by
  obtain ⟨m, rfl⟩ := Nat.exists_eq_add_of_le hij
  obtain ⟨n, rfl⟩ := Nat.exists_eq_add_of_le hjk
  rw [Nat.add_sub_cancel_left, Nat.add_sub_cancel_left, List.range'_append_1, Nat.add_assoc, Nat.add_sub_cancel_left]

/-- The places from `start` on and before `stop` that are in none of the spans. -/
def uncovered (start stop : Nat) (spans : List Span) : List Nat :=
  (List.range' start (stop - start)).filter fun i => ∀ span ∈ spans, ¬ span.Holds i

theorem uncovered_nil (start stop : Nat) : uncovered start stop [] = List.range' start (stop - start) :=
  List.filter_eq_self.2 fun _ _ => decide_eq_true fun _ h => absurd h List.not_mem_nil

/-- Before the first of some spans that come one after the other, and behind it. -/
theorem uncovered_cons {start stop : Nat} {span : Span} {spans : List Span}
    (hspan : start ≤ span.start ∧ span.start ≤ span.stop ∧ span.stop ≤ stop)
    (hrest : ∀ next ∈ spans, span.stop ≤ next.start) :
    uncovered start stop (span :: spans) =
      List.range' start (span.start - start) ++ uncovered span.stop stop spans := by
  have hsplit : List.range' start (stop - start) = List.range' start (span.start - start) ++
      (List.range' span.start span.length ++ List.range' span.stop (stop - span.stop)) := by
    rw [Span.length, range'_append_range' hspan.2.1 hspan.2.2,
      range'_append_range' hspan.1 (Nat.le_trans hspan.2.1 hspan.2.2)]
  rw [uncovered, hsplit, List.filter_append, List.filter_append]
  congr 1
  · refine List.filter_eq_self.2 fun i hi => decide_eq_true fun next hnext hholds => ?_
    rw [List.mem_range'_1] at hi
    rcases List.mem_cons.1 hnext with rfl | hnext
    · exact absurd hholds.1 (by omega)
    · exact absurd hholds.1 (by have := hrest next hnext; omega)
  · have hinside : (List.range' span.start span.length).filter
        (fun i => ∀ next ∈ span :: spans, ¬ next.Holds i) = [] := by
      refine List.filter_eq_nil_iff.2 fun i hi hnone => of_decide_eq_true hnone span List.mem_cons_self ?_
      rw [List.mem_range'_1, Span.length] at hi
      exact ⟨hi.1, by omega⟩
    rw [hinside, List.nil_append]
    refine List.filter_congr fun i hi => decide_eq_decide.2 ?_
    rw [List.mem_range'_1] at hi
    rw [List.forall_mem_cons]
    exact and_iff_right fun hholds => absurd hholds.2 (by omega)

/-- Two tokens stand in the same place of a snake. -/
def Script.Pairs (script : Script) (i j : Nat) : Prop :=
  ∃ s ∈ script.snakes, ∃ k < s.u - s.x, i = s.x + k ∧ j = s.y + k

theorem forall₂_range' {R : Nat → Nat → Prop} {i j n : Nat} (h : ∀ k < n, R (i + k) (j + k)) :
    List.Forall₂ R (List.range' i n) (List.range' j n) := by
  rw [List.forall₂_iff_get]
  refine ⟨by rw [List.length_range', List.length_range'], fun k hk hk' => ?_⟩
  rw [List.length_range'] at hk
  simpa using h k hk

theorem Script.forall₂_pairs {script : Script} {s : Snake} (hs : s ∈ script.snakes) {d d' : Nat}
    (hd' : d' ≤ s.u - s.x) :
    List.Forall₂ script.Pairs (List.range' (s.x + d) (d' - d)) (List.range' (s.y + d) (d' - d)) := by
  refine forall₂_range' fun k hk => ⟨s, hs, d + k, by omega, ?_, ?_⟩
  · rw [Nat.add_assoc]
  · rw [Nat.add_assoc]

/-- The tokens that no block covers are paired in order. -/
theorem Laid.outside {script : Script} {s : Snake} {d : Nat} {blocks : List Block}
    (h : Laid script s d blocks) :
    List.Forall₂ script.Pairs (uncovered (s.x + d) script.oldCount (blocks.map (·.extent.old)))
      (uncovered (s.y + d) script.newCount (blocks.map (·.extent.new))) := by
  induction h with
  | @nil s d hs htrail hcorner hd =>
      have hxu := htrail.head.x_le_u
      have hdiag := htrail.head.diagonal
      have hold : script.oldCount - (s.x + d) = s.u - s.x - d := by omega
      have hnew : script.newCount - (s.y + d) = s.u - s.x - d := by omega
      rw [List.map_nil, List.map_nil, uncovered_nil, uncovered_nil, hold, hnew]
      exact Script.forall₂_pairs hs (Nat.le_refl _)
  | @cons s t d d₁ d₂ steps blocks hs htrail hne hd hd₁ hd₂ rest ih =>
      have hgap := htrail.gap hne
      have hxu := htrail.head.x_le_u
      have hdiag := htrail.head.diagonal
      obtain ⟨hxu', hu, hv, hdiag', -⟩ := htrail.last
      rw [List.length_replicate] at hu hv
      have hold : ∀ next ∈ blocks.map (·.extent.old), t.x + d₂ ≤ next.start :=
        List.forall_mem_map.2 fun b hb => rest.start_le hb .old
      have hnew : ∀ next ∈ blocks.map (·.extent.new), t.y + d₂ ≤ next.start :=
        List.forall_mem_map.2 fun b hb => rest.start_le hb .new
      rw [List.map_cons, List.map_cons, uncovered_cons (by dsimp only; omega) hold,
        uncovered_cons (by dsimp only; omega) hnew]
      refine List.rel_append ?_ ih
      dsimp only
      rw [Nat.add_sub_add_left, Nat.add_sub_add_left]
      exact Script.forall₂_pairs hs hd₁

/-! ## How a script is cut -/

/-- Two elements next to each other are in one group, if they are not parted. -/
theorem exists_group_of_flatten {α : Type} {r : α → α → Bool} {groups : List (List α)}
    (hparted : groups.IsChain fun a b => ∃ (ha : a ≠ []) (hb : b ≠ []), r (a.getLast ha) (b.head hb) = false)
    {p q : α} (hr : r p q = true) (h : [p, q] <:+: groups.flatten) :
    ∃ group ∈ groups, [p, q] <:+: group := by
  induction groups with
  | nil => exact absurd (List.infix_nil.1 h) (List.cons_ne_nil _ _)
  | cons group groups ih =>
      have hlater (hrest : [p, q] <:+: groups.flatten) : ∃ g ∈ group :: groups, [p, q] <:+: g := by
        obtain ⟨g, hg, hpair⟩ := ih hparted.tail hrest
        exact ⟨g, List.mem_cons_of_mem _ hg, hpair⟩
      rw [List.flatten_cons, List.infix_append_iff] at h
      rcases h with hfirst | hrest | ⟨l₁, l₂, hsplit, hsuffix, hprefix⟩
      · exact ⟨group, List.mem_cons_self, hfirst⟩
      · exact hlater hrest
      · match l₁, l₂, hsplit with
        | [], _, rfl => exact hlater hprefix.isInfix
        | [_, _], [], rfl => exact ⟨group, List.mem_cons_self, hsuffix.isInfix⟩
        | [_], [_], rfl =>
            -- one is the last of the group and the other one the first of the next group
            cases groups with
            | nil => exact absurd (List.prefix_nil.1 hprefix) (List.cons_ne_nil _ _)
            | cons next groups =>
                rw [List.isChain_cons_cons] at hparted
                obtain ⟨⟨hne, hne', hfalse⟩, -⟩ := hparted
                obtain ⟨init, hinit⟩ := hsuffix
                obtain ⟨rest, hrest⟩ := hprefix
                obtain ⟨b, next, rfl⟩ := List.exists_cons_of_ne_nil hne'
                rw [List.flatten_cons, List.cons_append, List.cons_append, List.cons.injEq] at hrest
                have hlast : group.getLast hne = p := by simp [← hinit]
                rw [hlast, List.head_cons, ← hrest.1, hr] at hfalse
                cases hfalse

/-- How a report in hunks cuts a script into blocks. The blocks consist of all steps in order; two gaps next to
each other share one if the snake between them is at most as long as two contexts. They cover parts of both
sequences, one after the other, and what they leave out is paired in order. -/
structure Script.CutInto (script : Script) (context : Nat) (blocks : List Block) : Prop where
  gaps : blocks.flatMap (fun b => b.steps.map Step.gap) = script.gaps
  nonempty : ∀ b ∈ blocks, b.steps ≠ []
  share_iff : ∀ r s t, [(r, s), (s, t)] <:+: script.steps →
    ((∃ b ∈ blocks, [(r, s), (s, t)] <:+: b.steps) ↔ s.u - s.x ≤ 2 * context)
  within : ∀ b ∈ blocks, ∀ side, (b.extent.on side).start ≤ (b.extent.on side).stop ∧
    (b.extent.on side).stop ≤ script.countOn side
  ascending : ∀ side, blocks.Pairwise fun b b' => (b.extent.on side).stop ≤ (b'.extent.on side).start
  outside : List.Forall₂ script.Pairs (uncovered 0 script.oldCount (blocks.map (·.extent.old)))
    (uncovered 0 script.newCount (blocks.map (·.extent.new)))

section

variable {script : Script} {context : Nat}

theorem Script.share_iff {r s t : Snake} (h : [(r, s), (s, t)] <:+: script.steps) :
    (∃ b ∈ script.blocks context, [(r, s), (s, t)] <:+: b.steps) ↔ s.u - s.x ≤ 2 * context := by
  have hmap : (∃ b ∈ script.blocks context, [(r, s), (s, t)] <:+: b.steps) ↔
      ∃ steps ∈ script.hunks context, [(r, s), (s, t)] <:+: steps := by
    rw [← map_steps_blocks]
    simp only [List.mem_map, exists_exists_and_eq_and]
  rw [hmap, ← Snake.isBridged_iff]
  constructor
  · rintro ⟨steps, hsteps, before, after, rfl⟩
    have hchain := (List.isChain_of_mem_splitBy hsteps).left_of_append.right_of_append
    rw [List.isChain_cons_cons] at hchain
    exact hchain.1
  · intro hbridged
    rw [← flatten_hunks script context] at h
    exact exists_group_of_flatten (List.isChain_getLast_head_splitBy _ script.steps) hbridged h

/-- The blocks of a script cut it. -/
theorem Script.Aligns.cutInto {same : Nat → Nat → Bool} (h : script.Aligns same) (context : Nat) :
    script.CutInto context (script.blocks context) := by
  obtain ⟨s, ⟨hx, hy⟩, hlaid⟩ := h.laid_blocks context
  constructor
  case gaps => rw [← List.map_flatMap, flatMap_steps_blocks]; rfl
  case nonempty =>
    intro b hb
    exact ne_nil_of_mem_hunks (map_steps_blocks ▸ List.mem_map_of_mem hb)
  case share_iff =>
    exact fun r s t => Script.share_iff
  case within =>
    intro b hb side
    obtain ⟨s, -, t, hframes⟩ := hlaid.exists_frames hb
    exact hframes.within side
  case ascending => exact hlaid.ascending
  case outside =>
    have houtside := hlaid.outside
    rwa [hx, hy] at houtside

end

end TokenDiff
