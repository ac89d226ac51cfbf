import TokenDiff.Proofs.Report.Blocks

/-!
# Wide contexts

A context at least as wide as both sequences is meant to show everything: one block with all the steps, which
covers both sequences from their start to their end, or no block if there is no step (`Script.whole`). These are
the blocks for every such width (`Script.Aligns.blocks_eq_whole`). They are printed as long as there is room for
the sums with the width (`Script.Room`): the one that decides whether a snake between two edits is shown as a
whole, and the two that say where the block ends.

So the whole is printed for every width up to about half the largest counter. For the largest counter itself,
which stands for a width beyond all counters, there is no room, unless there is nothing to print.
-/

namespace TokenDiff

namespace Script

/-- The block that shows everything, and none if there is no step. -/
def whole (script : Script) : List Block :=
  if script.steps.isEmpty then [] else [⟨⟨⟨0, script.oldCount⟩, ⟨0, script.newCount⟩⟩, script.steps⟩]

/-- The sums of a block with all the steps are counters: twice the width can be added to where a snake between two
edits starts, and the width to where the last snake starts. -/
structure Room (script : Script) (context : Nat) : Prop where
  between : ∀ step ∈ script.steps.dropLast, step.2.x + 2 * context < Word.modulus
  after : ∀ step ∈ script.steps.getLast?, step.2.x + context < Word.modulus ∧ step.2.y + context < Word.modulus

variable {same : Nat → Nat → Bool} {script : Script} {context : Nat}

/-! ## The block that shows everything -/

theorem hunks_eq_singleton (hne : script.steps ≠ []) (hwide : ∀ step ∈ script.steps, step.2.u ≤ context) :
    script.hunks context = [script.steps] := by
  have hbridged : script.steps.Pairwise fun step _ => step.2.isBridged context = true := by
    refine List.pairwise_of_forall_mem_list fun step hstep _ _ => ?_
    have hu := hwide step hstep
    rw [Snake.isBridged, decide_eq_true_iff]
    omega
  exact List.splitBy_of_isChain hne hbridged.isChain

theorem Aligns.hunks_of_wide (h : script.Aligns same) (hold : script.oldCount ≤ context)
    (hne : script.steps ≠ []) : script.hunks context = [script.steps] :=
  hunks_eq_singleton hne fun step hstep =>
    Nat.le_trans (forall_steps h.inside_counts step hstep).2.u_le hold

theorem around_of_wide {m n : Nat} {first last : Snake} (hfirst : first.Inside m n) (hm : m ≤ context)
    (hn : n ≤ context) : Extent.around context m n first last = ⟨⟨0, m⟩, ⟨0, n⟩⟩ := by
  have hu := hfirst.u_le
  have hv := hfirst.v_le
  simp only [Extent.around, Extent.mk.injEq, Span.mk.injEq]
  omega

/-- A context as wide as both sequences has a single block, which shows everything. -/
theorem Aligns.blocks_eq_whole (h : script.Aligns same) (hold : script.oldCount ≤ context)
    (hnew : script.newCount ≤ context) : script.blocks context = script.whole := by
  by_cases hnil : script.steps = []
  · rw [blocks, hunks, whole, hnil]
    rfl
  have hfirst := List.head?_eq_some_head hnil
  have hinside := (forall_steps h.inside_counts _ (List.mem_of_head? hfirst)).1
  have hblock : script.block? context script.steps =
      some ⟨Extent.around context script.oldCount script.newCount _ _, script.steps⟩ :=
    block?_eq hfirst (List.getLast?_eq_some_getLast hnil)
  rw [around_of_wide hinside hold hnew] at hblock
  rw [blocks, h.hunks_of_wide hold hnil, List.filterMap_cons_some hblock, List.filterMap_nil, whole,
    if_neg (by rwa [List.isEmpty_iff])]

/-! ## Room for the sums -/

theorem sumsFit_steps_iff : TokenDiff.sumsFit context script.steps = true ↔ script.Room context := by
  rw [TokenDiff.sumsFit, Bool.and_eq_true, List.all_eq_true, Option.all_eq_true]
  simp only [Bool.and_eq_true, decide_eq_true_iff]
  exact ⟨fun h => ⟨h.1, h.2⟩, fun h => ⟨h.between, h.after⟩⟩

theorem room_of_steps_eq_nil (hnil : script.steps = []) : script.Room context := by
  constructor
  case between => simp [hnil]
  case after => simp [hnil]

/-- The sums of a wide context fit just if there is room for those of its block. -/
theorem Aligns.sumsFit_iff_room (h : script.Aligns same) (hold : script.oldCount ≤ context) :
    script.SumsFit context ↔ script.Room context := by
  by_cases hnil : script.steps = []
  · refine iff_of_true (fun hunk hhunk => ?_) (room_of_steps_eq_nil hnil)
    rw [hunks, hnil] at hhunk
    cases hhunk
  · rw [SumsFit, h.hunks_of_wide hold hnil, List.forall_mem_singleton, sumsFit_steps_iff]

theorem Room.mono {narrow : Nat} (h : script.Room context) (hle : narrow ≤ context) : script.Room narrow := by
  constructor
  case between =>
    intro step hstep
    have hsum := h.between step hstep
    omega
  case after =>
    intro step hstep
    have hsums := h.after step hstep
    omega

/-- There is room for every width up to about half the largest counter. -/
theorem Aligns.room_of_lt (h : script.Aligns same)
    (hword : 2 * context + max script.oldCount script.newCount < Word.modulus) : script.Room context := by
  have hinside := forall_steps h.inside_counts
  constructor
  case between =>
    intro step hstep
    have hx := (hinside step (List.dropLast_subset _ hstep)).2.x_le
    omega
  case after =>
    intro step hstep
    have hlast := (hinside step (List.mem_of_getLast? hstep)).2
    have hx := hlast.x_le
    have hy := hlast.y_le
    omega

/-- There is no room for the largest counter, since the last edit leads away from the start of both sequences. -/
theorem not_room_of_max (hgaps : ∀ gap ∈ script.gaps, gap.kind? ≠ none) (hne : script.steps ≠ []) :
    ¬ script.Room (Word.modulus - 1) := by
  intro h
  have hlast := List.getLast?_eq_some_getLast hne
  have hafter := h.after _ hlast
  refine hgaps _ (List.mem_map_of_mem (List.mem_of_getLast? hlast)) (Gap.kind?_eq_none_iff.2 ?_)
  simp only [Gap.between, Span.length]
  omega

/-- Where there is room for a wide context, the reports are those of the block that shows everything. -/
theorem Aligns.report_of_wide (h : script.Aligns same) (hold : script.oldCount ≤ context)
    (hnew : script.newCount ≤ context) (hroom : script.Room context) :
    script.report .unified context = script.whole.flatMap (fun b => unifiedHunk b.extent b.steps) ∧
      script.report .context context = script.whole.flatMap fun b => contextHunk b.extent b.steps := by
  have hsums := (h.sumsFit_iff_room hold).2 hroom
  rw [← h.blocks_eq_whole hold hnew]
  exact ⟨hsums.renderHunks_eq_blocks unifiedHunk, hsums.renderHunks_eq_blocks contextHunk⟩

end Script

/-- A context at least as wide as both sequences shows everything in one block, from the start of both sequences to
their end, or nothing if they do not differ. As long as there is room for the sums with the width, this is printed,
and it is what is printed for a context just as wide as the longer sequence. Otherwise the sums overflow and nothing
is printed at all. There is room for every width up to about half the largest counter and never for the largest
counter itself, unless there is nothing to show. -/
theorem wide_context_whole_iff {S T : List UInt8} {old new : Source} (hold : old.Replays S) (hnew : new.Replays T)
    (p : Policy) (tuning tuning' : Tuning) :
    ∃ a b, Sequence.ofSource old p tuning = .ok a ∧ Sequence.ofSource new p tuning' = .ok b ∧
      ∀ fast search script windows,
        (a.table.comparison b.table).script fast search (a.window, b.window) = .ok script windows →
        ∀ context, max a.table.count b.table.count ≤ context → context < Word.modulus →
          script.blocks context = script.whole ∧
          (script.Room context →
            script.report .unified context = script.whole.flatMap (fun b => unifiedHunk b.extent b.steps) ∧
            script.report .context context = script.whole.flatMap fun b => contextHunk b.extent b.steps) ∧
          (∀ type, ∀ format ∈ [Format.context, .unified],
            (script.Room context → ∃ text printer printer',
              Layout.printAll ⟨a.table, b.table, type⟩ (script.report format context) { windows } =
                .ok text printer ∧
              Layout.printAll ⟨a.table, b.table, type⟩
                (script.report format (max a.table.count b.table.count)) { windows } = .ok text printer' ∧
              text = (script.report format context).flatMap (·.bytes p type S T)) ∧
            (¬ script.Room context → ∃ printer,
              Layout.printAll ⟨a.table, b.table, type⟩ (script.report format context) { windows } =
                .error .overflow printer)) ∧
          (2 * context + max a.table.count b.table.count < Word.modulus → script.Room context) ∧
          (context = Word.modulus - 1 → (script.Room context ↔ script.steps = [])) := by
  obtain ⟨a, ha, hofA⟩ := Sequence.exists_ofSource hold p tuning
  obtain ⟨b, hb, hofB⟩ := Sequence.exists_ofSource hnew p tuning'
  refine ⟨a, b, ha, hb, fun fast search script windows hscript context hwide hc => ?_⟩
  obtain ⟨hcounts, haligns, hprint⟩ := hofA.report_of_script hofB hscript
  rw [hofA.table, hofB.table] at hscript
  obtain ⟨-, -, hsettled⟩ := settled_of_script ⟨hofA.window, hofB.window⟩ hscript
  rw [← hcounts.1, ← hcounts.2] at hwide ⊢
  have hwideOld : script.oldCount ≤ context := Nat.le_trans (Nat.le_max_left _ _) hwide
  have hwideNew : script.newCount ≤ context := Nat.le_trans (Nat.le_max_right _ _) hwide
  have hprintable {width : Nat} (hle : script.oldCount ≤ width) {format : Format}
      (hformat : format ∈ [Format.context, .unified]) :
      script.Printable format width ↔ script.Room width := by
    rw [haligns.printable_iff, ← haligns.sumsFit_iff_room hle]
    exact forall_prop_of_true hformat
  refine ⟨haligns.blocks_eq_whole hwideOld hwideNew, haligns.report_of_wide hwideOld hwideNew,
    fun type format hformat => ⟨fun hroom => ?_, fun hroom => ?_⟩, haligns.room_of_lt, ?_⟩
  · have hsame : script.report format (max script.oldCount script.newCount) = script.report format context := by
      have hreport := haligns.report_of_wide hwideOld hwideNew hroom
      have hreport' := haligns.report_of_wide (Nat.le_max_left _ _) (Nat.le_max_right _ _) (hroom.mono hwide)
      simp only [List.mem_cons, List.not_mem_nil, or_false] at hformat
      rcases hformat with rfl | rfl
      · rw [hreport.2, hreport'.2]
      · rw [hreport.1, hreport'.1]
    obtain ⟨printer, hrun⟩ := (hprint type format context).1 ((hprintable hwideOld hformat).2 hroom)
    exact ⟨_, printer, printer, hrun, hsame ▸ hrun, rfl⟩
  · exact (hprint type format context).2 fun h => hroom ((hprintable hwideOld hformat).1 h)
  · rintro rfl
    refine ⟨fun hroom => ?_, Script.room_of_steps_eq_nil⟩
    by_contra hne
    exact Script.not_room_of_max hsettled.kind?_ne_none hne hroom

/-- One line is changed. With a context of one line the report shows it as the whole of both texts, with the largest
counter nothing is printed. -/
theorem wide_context_whole_iff_of_bytes : ∃ a b script windows printer printer',
    Sequence.ofSource (.ofBytes "old" .raw [97, 10]) .line {} = .ok a ∧
    Sequence.ofSource (.ofBytes "new" .raw [98, 10]) .line {} = .ok b ∧
    (a.table.comparison b.table).script true {} (a.window, b.window) = .ok script windows ∧
    script.blocks 1 = script.whole ∧ script.blocks (Word.modulus - 1) = script.whole ∧
    Layout.printAll ⟨a.table, b.table, .raw⟩ (script.report .unified 1) { windows } =
      .ok (utf8Bytes "@@ -1,1 +1,1 @@\n-a\n+b\n") printer ∧
    Layout.printAll ⟨a.table, b.table, .raw⟩ (script.report .unified (Word.modulus - 1)) { windows } =
      .error .overflow printer' := by
  have hold := Source.replays_ofBytes "old" [97, 10]
  have hnew := Source.replays_ofBytes "new" [98, 10]
  obtain ⟨a, b, ha, hb, hreport⟩ := wide_context_whole_iff hold hnew .line {} {}
  have hcount : a.table.count = 1 := (Sequence.of_ofSource hold ha).count_eq
  have hcount' : b.table.count = 1 := (Sequence.of_ofSource hnew hb).count_eq
  obtain ⟨script, windows, hscript⟩ := exists_script_of_replays hold hnew (by decide) true ha hb
  have hwide := hreport true {} script windows hscript
  rw [hcount, hcount'] at hwide
  obtain ⟨hwhole, -, hprint, hroom, -⟩ := hwide 1 (by decide) (by decide)
  obtain ⟨hwhole', -, hprint', -, hmax⟩ := hwide (Word.modulus - 1) (by decide) (by decide)
  obtain ⟨text, printer, -, hrun, -, rfl⟩ := (hprint .raw .unified (by decide)).1 (hroom (by decide))
  have hscript' : (do
      let a ← Sequence.ofSource (.ofBytes "old" .raw [97, 10]) .line {}
      let b ← Sequence.ofSource (.ofBytes "new" .raw [98, 10]) .line {}
      match (a.table.comparison b.table).script true {} (a.window, b.window) with
      | .ok script _ => return script
      | .error fault _ => throw fault : Except Fault Script) =
        .ok ⟨[⟨0, 0, 0, 0⟩, ⟨1, 1, 1, 1⟩], 1, 1, 42⟩ := by
    cbv
  rw [ha, hb] at hscript'
  simp only [bind, Except.bind, hscript] at hscript'
  obtain rfl := Except.ok.inj hscript'
  have hcrowded := mt (hmax rfl).1 (by decide)
  obtain ⟨printer', hstop⟩ := (hprint' .raw .unified (by decide)).2 hcrowded
  refine ⟨a, b, _, windows, printer, printer', ha, hb, hscript, hwhole, hwhole', hrun.trans ?_, hstop⟩
  cbv

end TokenDiff
