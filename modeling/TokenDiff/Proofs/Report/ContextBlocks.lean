import TokenDiff.Proofs.Report.Blocks

/-!
# The blocks of the context report

The context report shows the two sides of a block one after the other, each of them only if it has edits
(`Script.ShowsSide`). What is shown of a side are all its tokens in the block, and the mark of a token says
whether it is in a snake, in a gap of this side alone, or in a gap of both sides (`context_blocks_complete`).

The lines of a side are printed edit by edit, and a gap that is empty on this side is passed over. The runs
between the edits then go over several snakes. What is needed of the edits is that they come one after the other
(`EditsWithin`), which they do since the steps of a block are a trail (`Route.editsWithin`).
-/

namespace TokenDiff

/-! ## Marked tokens -/

theorem markedTokens_append (xs ys : List Piece) :
    markedTokens (xs ++ ys) = markedTokens xs ++ markedTokens ys := List.flatMap_append

theorem mem_markedTokens_marked {t : MarkedToken} {mark : String} {side : Side} {span : Span} {noted : Bool} :
    t ∈ markedTokens [.marked mark side span noted] ↔ t.mark = mark ∧ t.side = side ∧ span.Holds t.index := by
  have hspan (i : Nat) : i ∈ List.range' span.start span.length ↔ span.Holds i := by
    rw [List.mem_range'_1, Span.Holds, Span.length]
    omega
  obtain ⟨mark', side', i⟩ := t
  simp only [markedTokens, List.flatMap_singleton, Piece.markedTokens, List.mem_map, hspan, MarkedToken.mk.injEq]
  constructor
  · rintro ⟨j, hj, rfl, rfl, rfl⟩
    exact ⟨rfl, rfl, hj⟩
  · rintro ⟨rfl, rfl, hi⟩
    exact ⟨i, hi, rfl, rfl, rfl⟩

theorem map_index_marked (mark : String) (side : Side) (span : Span) (noted : Bool) :
    (markedTokens [.marked mark side span noted]).map MarkedToken.index =
      List.range' span.start span.length := by
  rw [markedTokens, List.flatMap_singleton, Piece.markedTokens, List.map_map]
  exact List.map_id _

/-! ## The lines of one side -/

def EditsWithin (stop : Nat) : Nat → List (Span × String) → Prop
  | start, [] => start ≤ stop
  | start, (span, _) :: edits => start ≤ span.start ∧ span.start ≤ span.stop ∧ EditsWithin stop span.stop edits

section

variable {side : Side} {start stop : Nat} {edits : List (Span × String)}

theorem EditsWithin.le (h : EditsWithin stop start edits) : start ≤ stop := by
  induction edits generalizing start with
  | nil => exact h
  | cons edit edits ih => exact Nat.le_trans h.1 (Nat.le_trans h.2.1 (ih h.2.2))

theorem EditsWithin.start_le (h : EditsWithin stop start edits) {edit : Span × String} (hedit : edit ∈ edits) :
    start ≤ edit.1.start := by
  induction edits generalizing start with
  | nil => cases hedit
  | cons first edits ih =>
      rcases List.mem_cons.1 hedit with rfl | hedit
      · exact h.1
      · exact Nat.le_trans h.1 (Nat.le_trans h.2.1 (ih h.2.2 hedit))

theorem markedTokens_contextLines_cons (side : Side) (start stop : Nat) (span : Span) (mark : String)
    (edits : List (Span × String)) :
    markedTokens (contextLines side start stop ((span, mark) :: edits)) =
      markedTokens [.marked "  " side ⟨start, span.start⟩ false] ++
        (markedTokens [.marked mark side span false] ++
          markedTokens (contextLines side span.stop stop edits)) := by
  rw [contextLines, ← markedTokens_append, ← markedTokens_append]
  rfl

/-- The lines of a side are those of its tokens between the two places, each of them once and in order. -/
theorem map_index_contextLines (h : EditsWithin stop start edits) :
    (markedTokens (contextLines side start stop edits)).map MarkedToken.index =
      List.range' start (stop - start) := by
  induction edits generalizing start with
  | nil => exact map_index_marked "  " side ⟨start, stop⟩ false
  | cons edit edits ih =>
      obtain ⟨span, mark⟩ := edit
      obtain ⟨hstart, hspan, hrest⟩ := h
      have hstop := hrest.le
      rw [markedTokens_contextLines_cons, List.map_append, List.map_append, map_index_marked, map_index_marked,
        ih hrest, Span.length, Span.length]
      dsimp only at hstart hspan hstop ⊢
      rw [range'_append_range' hspan hstop, range'_append_range' hstart (Nat.le_trans hspan hstop)]

/-- A line is marked as the edit it is in, and as context if it is in none. -/
theorem mark_of_mem_contextLines (h : EditsWithin stop start edits) {t : MarkedToken}
    (ht : t ∈ markedTokens (contextLines side start stop edits)) :
    t.side = side ∧ ((t.mark = "  " ∧ ∀ edit ∈ edits, ¬ edit.1.Holds t.index) ∨
      ∃ edit ∈ edits, edit.1.Holds t.index ∧ t.mark = edit.2) := by
  induction edits generalizing start with
  | nil =>
      obtain ⟨hmark, hside, -⟩ := mem_markedTokens_marked.1 ht
      exact ⟨hside, .inl ⟨hmark, fun _ hedit => absurd hedit List.not_mem_nil⟩⟩
  | cons edit edits ih =>
      obtain ⟨span, mark⟩ := edit
      obtain ⟨hstart, hspan, hrest⟩ := h
      rw [markedTokens_contextLines_cons, List.mem_append, List.mem_append] at ht
      rcases ht with ht | ht | ht
      · -- before the first edit, and so before all of them
        obtain ⟨hmark, hside, hindex⟩ := mem_markedTokens_marked.1 ht
        have hhere : EditsWithin stop span.start ((span, mark) :: edits) := ⟨Nat.le_refl _, hspan, hrest⟩
        refine ⟨hside, .inl ⟨hmark, fun edit hedit hholds => ?_⟩⟩
        have hlater := hhere.start_le hedit
        exact absurd hindex.2 (Nat.not_lt.2 (Nat.le_trans hlater hholds.1))
      · obtain ⟨hmark, hside, hindex⟩ := mem_markedTokens_marked.1 ht
        exact ⟨hside, .inr ⟨_, List.mem_cons_self, hindex, hmark⟩⟩
      · have hindex := List.mem_map_of_mem (f := MarkedToken.index) ht
        rw [map_index_contextLines hrest, List.mem_range'_1] at hindex
        obtain ⟨hside, hnone | ⟨edit, hedit, hholds⟩⟩ := ih hrest ht
        · refine ⟨hside, .inl ⟨hnone.1, List.forall_mem_cons.2 ⟨fun hholds => ?_, hnone.2⟩⟩⟩
          exact absurd hholds.2 (Nat.not_lt.2 hindex.1)
        · exact ⟨hside, .inr ⟨edit, List.mem_cons_of_mem _ hedit, hholds⟩⟩

end

/-! ## The edits of one side -/

namespace Side

def other : Side → Side
  | .old => .new
  | .new => .old

def mark (side : Side) : String := side.pick "- " "+ "

def kind (side : Side) : GapKind := side.pick .delete .add

end Side

def sideEdits (side : Side) (steps : List Step) : List (Span × String) :=
  markedEdits (·.on side) (·.on side.other) side.mark steps

theorem mem_sideEdits {side : Side} {steps : List Step} {edit : Span × String} :
    edit ∈ sideEdits side steps ↔ ∃ step ∈ steps, ((Step.gap step).on side).length ≠ 0 ∧
      edit = ((Step.gap step).on side, if ((Step.gap step).on side.other).isEmpty then side.mark else "! ") := by
  simp only [sideEdits, markedEdits, List.mem_map, List.mem_filter, Bool.not_eq_true', ← Bool.not_eq_true,
    Span.isEmpty_iff]
  constructor
  · rintro ⟨gap, ⟨⟨step, hstep, rfl⟩, hlength⟩, rfl⟩
    exact ⟨step, hstep, hlength, rfl⟩
  · rintro ⟨step, hstep, hlength, rfl⟩
    exact ⟨_, ⟨⟨step, hstep, rfl⟩, hlength⟩, rfl⟩

theorem sideEdits_cons (side : Side) (step : Step) (steps : List Step) :
    sideEdits side (step :: steps) =
      if ((Step.gap step).on side).isEmpty then sideEdits side steps
      else ((Step.gap step).on side, if ((Step.gap step).on side.other).isEmpty then side.mark else "! ") ::
        sideEdits side steps := by
  rw [sideEdits, markedEdits, List.map_cons, List.filter_cons]
  change (if (!((Step.gap step).on side).isEmpty) = true then _ else _ : List Gap).map _ = _
  cases ((Step.gap step).on side).isEmpty <;> rfl

theorem Gap.kind?_of_on {gap : Gap} {side : Side} (h : (gap.on side).length ≠ 0) :
    gap.kind? = some (if (gap.on side.other).isEmpty then side.kind else .change) := by
  have hsome : (gap.on side).isEmpty = false := Bool.not_eq_true _ ▸ mt Span.isEmpty_iff.1 h
  cases side with
  | old =>
      rw [kind?, show gap.old.isEmpty = false from hsome, show gap.on Side.old.other = gap.new from rfl]
      cases gap.new.isEmpty <;> rfl
  | new =>
      rw [kind?, show gap.new.isEmpty = false from hsome, show gap.on Side.new.other = gap.old from rfl]
      cases gap.old.isEmpty <;> rfl

section

variable {old new : List (List UInt8)} {s e : Snake} {steps : List Step}

theorem Route.editsWithin (h : Route old new s steps e) {side : Side} {start stop : Nat}
    (hstart : start ≤ (s.on side).stop) (hle : start ≤ stop) (hstop : (e.on side).start ≤ stop) :
    EditsWithin stop start (sideEdits side steps) := by
  induction h generalizing start with
  | nil _ => exact hle
  | @cons s t e steps hs hgap rest ih =>
      have hst := (Route.cons hs hgap (.nil rest.head)).on_le (List.cons_ne_nil _ _) side
      have ht := rest.head.on_le side
      have hte := rest.on_start_le side
      rw [sideEdits_cons, Step.gap_on]
      split
      · -- a gap without tokens of this side is passed over
        exact ih (Nat.le_trans hstart (Nat.le_trans hst ht)) hle hstop
      · exact ⟨hstart, hst, ih ht (Nat.le_trans hte hstop) hstop⟩

end

/-! ## Tokens of a script -/

namespace Script

/-- The token is in a snake. -/
def IsMatched (script : Script) (side : Side) (i : Nat) : Prop := ∃ s ∈ script.snakes, (s.on side).Holds i

/-- The token is in a gap of this kind. -/
def IsEdited (script : Script) (side : Side) (kind : GapKind) (i : Nat) : Prop :=
  ∃ gap ∈ script.gaps, gap.kind? = some kind ∧ (gap.on side).Holds i

variable {same : Nat → Nat → Bool} {script : Script} {side : Side} {kind kind' : GapKind} {i : Nat}

theorem isEdited_iff : script.IsEdited side kind i ↔
    ∃ step ∈ script.steps, (Step.gap step).kind? = some kind ∧ ((Step.gap step).on side).Holds i := by
  rw [IsEdited, gaps]
  simp only [List.mem_map, exists_exists_and_eq_and]
  rfl

theorem Aligns.not_isEdited (h : script.Aligns same) (hmatched : script.IsMatched side i) :
    ¬ script.IsEdited side kind i := by
  rw [isEdited_iff]
  rintro ⟨step, hstep, -, hholds⟩
  obtain ⟨s, e, htrail, hsnakes, -⟩ := h.trail
  obtain ⟨r, hr, hi⟩ := hmatched
  exact htrail.not_gap_of_snake (hsnakes ▸ hr) hi hstep hholds

theorem Aligns.kind_eq (h : script.Aligns same) (hkind : script.IsEdited side kind i)
    (hkind' : script.IsEdited side kind' i) : kind = kind' := by
  rw [isEdited_iff] at hkind hkind'
  obtain ⟨p, hp, hpkind, hpi⟩ := hkind
  obtain ⟨q, hq, hqkind, hqi⟩ := hkind'
  obtain ⟨s, e, htrail, -⟩ := h.trail
  obtain rfl := htrail.eq_of_gap hp hq hpi hqi
  exact Option.some.inj (hpkind.symm.trans hqkind)

theorem Aligns.exists_gap (h : script.Aligns same) (hi : i < script.countOn side)
    (hmatched : ¬ script.IsMatched side i) : ∃ step ∈ script.steps, ((Step.gap step).on side).Holds i := by
  obtain ⟨s, e, htrail, hsnakes, ⟨hx, hy⟩, hu, hv⟩ := h.trail
  have hwithin : (s.on side).start ≤ i ∧ i < (e.on side).stop := by
    cases side
    · change i < script.oldCount at hi
      change s.x ≤ i ∧ i < e.u
      omega
    · change i < script.newCount at hi
      change s.y ≤ i ∧ i < e.v
      omega
  refine (htrail.exists_of_within hwithin).resolve_left fun hsnake => hmatched ?_
  rwa [← hsnakes] at hsnake

end Script

/-! ## What is shown of a side -/

def Block.section (b : Block) (side : Side) : List Piece :=
  contextSide side (b.extent.on side) (sideEdits side b.steps)

/-- A side of a block is shown only if it has edits, and then all its tokens in the block are shown in order. The
mark of a token says whether it is matched, in a gap of this side alone, or in a gap of both sides. -/
structure Script.ShowsSide (script : Script) (b : Block) (side : Side) : Prop where
  nothing : (∀ step ∈ b.steps, ((Step.gap step).on side).length = 0) → b.section side = []
  index : (∃ step ∈ b.steps, ((Step.gap step).on side).length ≠ 0) →
    (markedTokens (b.section side)).map MarkedToken.index =
      List.range' (b.extent.on side).start ((b.extent.on side).stop - (b.extent.on side).start)
  mark : ∀ t ∈ markedTokens (b.section side), t.side = side ∧
    (t.mark = "  " ↔ script.IsMatched side t.index) ∧
    (t.mark = side.mark ↔ script.IsEdited side side.kind t.index) ∧
    (t.mark = "! " ↔ script.IsEdited side .change t.index)

theorem Block.section_eq {b : Block} {side : Side} (h : sideEdits side b.steps ≠ []) :
    b.section side =
      contextLines side (b.extent.on side).start (b.extent.on side).stop (sideEdits side b.steps) := by
  rw [Block.section, contextSide, if_neg (mt List.isEmpty_iff.1 h)]

section

variable {same : Nat → Nat → Bool} {script : Script} {context : Nat} {b : Block} {s t : Snake} {side : Side}

/-- A token is marked as what it is in the script. -/
theorem Block.Frames.label_of_mem_section (hframes : b.Frames script.oldCount script.newCount s t)
    (hs : s ∈ script.snakes) (hsteps : ∀ step ∈ b.steps, step ∈ script.steps) {token : MarkedToken}
    (htoken : token ∈ markedTokens (b.section side)) : token.side = side ∧
      ((token.mark = "  " ∧ script.IsMatched side token.index) ∨
        (token.mark = side.mark ∧ script.IsEdited side side.kind token.index) ∨
        (token.mark = "! " ∧ script.IsEdited side .change token.index)) := by
  have hedits := hframes.trail.editsWithin (hframes.start_mem side).2 (hframes.within side).1
    (hframes.stop_mem side).1
  by_cases hnone : sideEdits side b.steps = []
  · rw [Block.section, contextSide, if_pos (List.isEmpty_iff.2 hnone)] at htoken
    cases htoken
  · rw [Block.section_eq hnone] at htoken
    have hindex := List.mem_map_of_mem (f := MarkedToken.index) htoken
    rw [map_index_contextLines hedits, List.mem_range'_1] at hindex
    obtain ⟨hside, hcontext | ⟨edit, hedit, hholds, hmark⟩⟩ := mark_of_mem_contextLines hedits htoken
    · refine ⟨hside, .inl ⟨hcontext.1, ?_⟩⟩
      have hwithin : (s.on side).start ≤ token.index ∧ token.index < (t.on side).stop := by
        have hstart := (hframes.start_mem side).1
        have hstop := (hframes.stop_mem side).2
        omega
      rcases hframes.trail.exists_of_within hwithin with ⟨r, hr, hholds⟩ | ⟨step, hstep, hholds⟩
      · refine ⟨r, ?_, hholds⟩
        rcases List.mem_cons.1 hr with rfl | hr
        · exact hs
        · obtain ⟨step, hstep, rfl⟩ := List.mem_map.1 hr
          exact List.mem_of_mem_tail (List.of_mem_zip (hsteps step hstep)).2
      · -- the gap has this token, so it is one of the edits
        have hlength : ((Step.gap step).on side).length ≠ 0 := by
          rw [Span.length]
          have hbetween := hholds
          rw [Span.Holds] at hbetween
          omega
        exact absurd hholds (hcontext.2 _ (mem_sideEdits.2 ⟨step, hstep, hlength, rfl⟩))
    · obtain ⟨step, hstep, hlength, rfl⟩ := mem_sideEdits.1 hedit
      have hkind := Gap.kind?_of_on hlength
      have hedited {kind : GapKind} (hkind : (Step.gap step).kind? = some kind) :
          script.IsEdited side kind token.index :=
        Script.isEdited_iff.2 ⟨step, hsteps step hstep, hkind, hholds⟩
      refine ⟨hside, .inr ?_⟩
      cases hother : ((Step.gap step).on side.other).isEmpty with
      | true =>
          rw [hother] at hmark hkind
          exact .inl ⟨hmark, hedited hkind⟩
      | false =>
          rw [hother] at hmark hkind
          exact .inr ⟨hmark, hedited hkind⟩

/-- The context report shows the sides of the blocks. -/
theorem Script.Aligns.showsSide (h : script.Aligns same) (hb : b ∈ script.blocks context) (side : Side) :
    script.ShowsSide b side := by
  obtain ⟨s, -, hlaid⟩ := h.laid_blocks context
  obtain ⟨s, hs, t, hframes⟩ := hlaid.exists_frames hb
  have hsteps : ∀ step ∈ b.steps, step ∈ script.steps := fun step hstep =>
    Script.flatMap_steps_blocks script context ▸ List.mem_flatMap.2 ⟨b, hb, hstep⟩
  constructor
  case nothing =>
    intro hnone
    have hempty : sideEdits side b.steps = [] := by
      refine List.eq_nil_iff_forall_not_mem.2 fun edit hedit => ?_
      obtain ⟨step, hstep, hlength, -⟩ := mem_sideEdits.1 hedit
      exact hlength (hnone step hstep)
    rw [Block.section, contextSide, if_pos (List.isEmpty_iff.2 hempty)]
  case index =>
    rintro ⟨step, hstep, hlength⟩
    rw [Block.section_eq (List.ne_nil_of_mem (mem_sideEdits.2 ⟨step, hstep, hlength, rfl⟩))]
    exact map_index_contextLines (hframes.trail.editsWithin (hframes.start_mem side).2 (hframes.within side).1
      (hframes.stop_mem side).1)
  case mark =>
    intro token htoken
    have hblank : "  " ≠ side.mark ∧ "! " ≠ side.mark := by cases side <;> decide
    have hchange : "  " ≠ "! " := by decide
    have hkind : side.kind ≠ .change := by cases side <;> decide
    obtain ⟨hside, hlabel⟩ := hframes.label_of_mem_section hs hsteps htoken
    refine ⟨hside, ?_⟩
    rcases hlabel with ⟨hmark, hmatched⟩ | ⟨hmark, hedited⟩ | ⟨hmark, hedited⟩
    · rw [hmark]
      exact ⟨iff_of_true rfl hmatched, iff_of_false hblank.1 (h.not_isEdited hmatched),
        iff_of_false hchange (h.not_isEdited hmatched)⟩
    · rw [hmark]
      exact ⟨iff_of_false hblank.1.symm fun hmatched => h.not_isEdited hmatched hedited,
        iff_of_true rfl hedited, iff_of_false hblank.2.symm fun hother => hkind (h.kind_eq hedited hother)⟩
    · rw [hmark]
      exact ⟨iff_of_false hchange.symm fun hmatched => h.not_isEdited hmatched hedited,
        iff_of_false hblank.2 fun hother => hkind (h.kind_eq hother hedited), iff_of_true rfl hedited⟩

end

/-! ## The whole report -/

def shownOn (side : Side) (pieces : List Piece) : List Nat :=
  ((markedTokens pieces).filter (·.side = side)).map MarkedToken.index

theorem shownOn_append (side : Side) (xs ys : List Piece) :
    shownOn side (xs ++ ys) = shownOn side xs ++ shownOn side ys := by
  rw [shownOn, markedTokens_append, List.filter_append, List.map_append]
  rfl

theorem shownOn_flatMap {α : Type} (side : Side) (l : List α) (f : α → List Piece) :
    shownOn side (l.flatMap f) = l.flatMap fun a => shownOn side (f a) := by
  induction l with
  | nil => rfl
  | cons a l ih => rw [List.flatMap_cons, shownOn_append, ih, List.flatMap_cons]

namespace Script

variable {script : Script} {b : Block} {side : Side}

/-- What is shown of a side of a block are tokens of this side. -/
theorem ShowsSide.shownOn_section {side' : Side} (h : script.ShowsSide b side') :
    shownOn side (b.section side') =
      if side' = side then (markedTokens (b.section side')).map MarkedToken.index else [] := by
  rw [shownOn]
  split
  · rename_i hside
    rw [List.filter_eq_self.2 fun t ht => decide_eq_true ((h.mark t ht).1.trans hside)]
  · rename_i hside
    rw [List.filter_eq_nil_iff.2 fun t ht hmem => hside ((h.mark t ht).1.symm.trans (of_decide_eq_true hmem))]
    rfl

end Script

namespace Block

/-- The header of the old side of a block names the tokens that the block covers, counted from one. -/
def oldHeader (b : Block) : String := s!"*** {b.extent.old.start + 1},{b.extent.old.stop} ****\n"

def newHeader (b : Block) : String := s!"--- {b.extent.new.start + 1},{b.extent.new.stop} ----\n"

def pieces (b : Block) : List Piece :=
  [.text "***************\n", .text b.oldHeader] ++ b.section .old ++ [.text b.newHeader] ++ b.section .new

end Block

section

variable {same : Nat → Nat → Bool} {script : Script} {context : Nat} {b : Block} {side : Side}

theorem Script.SumsFit.report_context (h : script.SumsFit context) :
    script.report .context context = (script.blocks context).flatMap Block.pieces :=
  h.renderHunks_eq_blocks contextHunk

theorem Script.ShowsSide.shownOn_pieces (h : ∀ side, script.ShowsSide b side) :
    shownOn side b.pieces = (markedTokens (b.section side)).map MarkedToken.index := by
  rw [Block.pieces, shownOn_append, shownOn_append, shownOn_append, (h .old).shownOn_section,
    (h .new).shownOn_section]
  cases side with
  | old =>
      rw [if_pos rfl, if_neg (by decide), List.append_nil]
      exact List.append_nil _
  | new =>
      rw [if_neg (by decide), if_pos rfl]
      rfl

/-- The tokens that are shown of a side of a block are in ascending order, and the block covers them. -/
theorem Script.ShowsSide.ascending (h : script.ShowsSide b side) :
    ((markedTokens (b.section side)).map MarkedToken.index).Pairwise (· < ·) ∧
      ∀ i ∈ (markedTokens (b.section side)).map MarkedToken.index, (b.extent.on side).Holds i := by
  by_cases hnone : ∀ step ∈ b.steps, ((Step.gap step).on side).length = 0
  · rw [h.nothing hnone]
    exact ⟨List.Pairwise.nil, fun i hi => absurd hi List.not_mem_nil⟩
  · push Not at hnone
    rw [h.index hnone]
    refine ⟨List.pairwise_lt_range' 1, fun i hi => ?_⟩
    rw [List.mem_range'_1] at hi
    exact ⟨hi.1, by omega⟩

theorem Script.Aligns.nodup_shownOn (h : script.Aligns same) (hsums : script.SumsFit context) (side : Side) :
    (shownOn side (script.report .context context)).Nodup := by
  have hshows : ∀ b ∈ script.blocks context, ∀ side, script.ShowsSide b side :=
    fun b hb => h.showsSide hb
  rw [hsums.report_context, shownOn_flatMap,
    List.flatMap_congr fun b hb => Script.ShowsSide.shownOn_pieces (hshows b hb)]
  refine List.Pairwise.imp Nat.ne_of_lt (List.pairwise_flatMap.2 ⟨fun b hb => (hshows b hb side).ascending.1, ?_⟩)
  refine ((h.cutInto context).ascending side).imp_of_mem fun {b b'} hb hb' hle i hi j hj => ?_
  have hlow := (hshows b hb side).ascending.2 i hi
  have hhigh := (hshows b' hb' side).ascending.2 j hj
  exact Nat.lt_of_lt_of_le hlow.2 (Nat.le_trans hle hhigh.1)

/-- A token that is not matched is shown. -/
theorem Script.Aligns.mem_shownOn (h : script.Aligns same) (hsums : script.SumsFit context) {i : Nat}
    (hi : i < script.countOn side) (hmatched : ¬ script.IsMatched side i) :
    i ∈ shownOn side (script.report .context context) := by
  obtain ⟨step, hstep, hholds⟩ := h.exists_gap hi hmatched
  rw [← Script.flatMap_steps_blocks script context] at hstep
  obtain ⟨b, hb, hstep⟩ := List.mem_flatMap.1 hstep
  have hshows := h.showsSide hb
  rw [hsums.report_context, shownOn_flatMap]
  refine List.mem_flatMap.2 ⟨b, hb, ?_⟩
  have hlength : ((Step.gap step).on side).length ≠ 0 :=
    Nat.sub_ne_zero_of_lt (Nat.lt_of_le_of_lt hholds.1 hholds.2)
  rw [Script.ShowsSide.shownOn_pieces hshows, (hshows side).index ⟨step, hstep, hlength⟩, List.mem_range'_1]
  -- the gap lies between the snakes in which the block begins and ends
  obtain ⟨s, -, hlaid⟩ := h.laid_blocks context
  obtain ⟨s, -, t, hframes⟩ := hlaid.exists_frames hb
  have hbetween := hframes.trail.on_le_of_mem hstep side
  have hstart := hframes.start_mem side
  have hstop := hframes.stop_mem side
  rw [Step.gap_on] at hholds
  have hlow := hholds.1
  have hhigh := hholds.2
  dsimp only at hlow hhigh
  omega

end

/-! ## What is printed -/

section

variable (p : Policy) (type : LineType) (S T : List UInt8)

theorem exists_marked_of_mem_contextLines {side : Side} {start stop : Nat} {edits : List (Span × String)}
    {piece : Piece} (h : piece ∈ contextLines side start stop edits) :
    ∃ mark span, piece = .marked mark side span false := by
  fun_induction contextLines side start stop edits with
  | case1 start => exact ⟨"  ", _, List.mem_singleton.1 h⟩
  | case2 start span mark edits ih =>
      rw [List.cons_append, List.cons_append, List.mem_cons, List.mem_cons] at h
      rcases h with h | h | h
      · exact ⟨"  ", _, h⟩
      · exact ⟨mark, span, h⟩
      · exact ih h

/-- What is printed of a side of a block is each of its tokens behind its mark. -/
theorem Block.bytes_section (b : Block) (side : Side) :
    (b.section side).flatMap (·.bytes p type S T) =
      (markedTokens (b.section side)).flatMap (·.bytes p type S T) := by
  rw [markedTokens, List.flatMap_assoc]
  refine List.flatMap_congr fun piece hpiece => ?_
  rw [Block.section, contextSide] at hpiece
  split at hpiece
  · cases hpiece
  · obtain ⟨mark, span, rfl⟩ := exists_marked_of_mem_contextLines hpiece
    rw [Piece.bytes, Piece.bytesAcross, Side.pick_self, Piece.markedTokens, List.flatMap_map, List.flatMap_map]
    exact List.append_nil _

def Block.contextBytes (b : Block) : List UInt8 :=
  utf8Bytes "***************\n" ++ utf8Bytes b.oldHeader ++
    (markedTokens (b.section .old)).flatMap (·.bytes p type S T) ++ utf8Bytes b.newHeader ++
    (markedTokens (b.section .new)).flatMap (·.bytes p type S T)

theorem Block.bytes_pieces (b : Block) :
    b.pieces.flatMap (·.bytes p type S T) = b.contextBytes p type S T := by
  rw [Block.pieces, List.flatMap_append, List.flatMap_append, List.flatMap_append, b.bytes_section, b.bytes_section,
    contextBytes, List.flatMap_cons, List.flatMap_singleton, List.flatMap_singleton]
  rfl

end

/-- The context report of two sequences consists of the blocks of their script, cut as those of the unified
report. Each side of a block is shown as a whole or not at all, with the marks that its tokens deserve, and each
token that is not matched is shown once. The width of the context is such that the sums with it are counters. -/
theorem context_blocks_complete {S T : List UInt8} {old new : Source} (hold : old.Replays S)
    (hnew : new.Replays T) (p : Policy) (tuning tuning' : Tuning) :
    ∃ a b, Sequence.ofSource old p tuning = .ok a ∧ Sequence.ofSource new p tuning' = .ok b ∧
      ∀ fast search script windows context type,
        (a.table.comparison b.table).script fast search (a.window, b.window) = .ok script windows →
        2 * context + a.table.count + b.table.count < Word.modulus →
        (script.oldCount = a.table.count ∧ script.newCount = b.table.count) ∧
        script.CutInto context (script.blocks context) ∧
        (∀ block ∈ script.blocks context, ∀ side, script.ShowsSide block side) ∧
        (∀ side, ∀ i < script.countOn side, ¬ script.IsMatched side i →
          (shownOn side (script.report .context context)).count i = 1) ∧
        ∃ printer, Layout.printAll ⟨a.table, b.table, type⟩ (script.report .context context) { windows } =
          .ok ((script.blocks context).flatMap (·.contextBytes p type S T)) printer := by
  obtain ⟨a, ha, hofA⟩ := Sequence.exists_ofSource hold p tuning
  obtain ⟨b, hb, hofB⟩ := Sequence.exists_ofSource hnew p tuning'
  refine ⟨a, b, ha, hb, fun fast search script windows context type hscript hword => ?_⟩
  obtain ⟨hcounts, haligns, hprint⟩ := hofA.report_of_script hofB hscript
  rw [← hcounts.1, ← hcounts.2] at hword
  have hsums := haligns.sumsFit hword
  obtain ⟨printer, hprint⟩ := (hprint type .context context).1 (haligns.printable_of_lt hword)
  refine ⟨hcounts, haligns.cutInto context, fun block hblock => haligns.showsSide hblock,
    fun side i hi hmatched => ?_, printer, hprint.trans ?_⟩
  · exact List.count_eq_one_of_mem (haligns.nodup_shownOn hsums side) (haligns.mem_shownOn hsums hi hmatched)
  · rw [hsums.report_context, List.flatMap_assoc]
    simp only [Block.bytes_pieces]

/-- A line is taken out, one is changed and one is put in. The first and the last of these are in different
blocks. -/
theorem context_blocks_complete_of_bytes : ∃ a b script windows printer,
    Sequence.ofSource (.ofBytes "old" .raw [97, 10, 49, 10, 98, 10, 10, 10, 10, 50, 10]) .line {} = .ok a ∧
    Sequence.ofSource (.ofBytes "new" .raw [49, 10, 99, 10, 10, 10, 10, 50, 10, 100]) .line {} = .ok b ∧
    (a.table.comparison b.table).script true {} (a.window, b.window) = .ok script windows ∧
    script.CutInto 1 (script.blocks 1) ∧
    (∀ block ∈ script.blocks 1, ∀ side, script.ShowsSide block side) ∧
    (∀ side, ∀ i < script.countOn side, ¬ script.IsMatched side i →
      (shownOn side (script.report .context 1)).count i = 1) ∧
    Layout.printAll ⟨a.table, b.table, .raw⟩ (script.report .context 1) { windows } =
      .ok ((script.blocks 1).flatMap (·.contextBytes .line .raw
        [97, 10, 49, 10, 98, 10, 10, 10, 10, 50, 10] [49, 10, 99, 10, 10, 10, 10, 50, 10, 100])) printer := by
  have hold := Source.replays_ofBytes "old" [97, 10, 49, 10, 98, 10, 10, 10, 10, 50, 10]
  have hnew := Source.replays_ofBytes "new" [49, 10, 99, 10, 10, 10, 10, 50, 10, 100]
  obtain ⟨a, b, ha, hb, hreport⟩ := context_blocks_complete hold hnew .line {} {}
  have hcount : a.table.count = 7 := (Sequence.of_ofSource hold ha).count_eq
  have hcount' : b.table.count = 7 := (Sequence.of_ofSource hnew hb).count_eq
  have hround : 0 < ({} : Tuning).minDepth := by decide
  obtain ⟨script, windows, hscript⟩ := exists_script_of_replays hold hnew hround true ha hb
  obtain ⟨-, hcut, hshows, hcomplete, printer, hprint⟩ := hreport true {} script windows 1 .raw hscript (by
    rw [hcount, hcount']
    decide)
  exact ⟨a, b, script, windows, printer, ha, hb, hscript, hcut, hshows, hcomplete, hprint⟩

end TokenDiff
