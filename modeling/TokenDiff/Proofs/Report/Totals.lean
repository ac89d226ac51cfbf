import TokenDiff.Proofs.Report.Blocks
import TokenDiff.Proofs.Report.Buffering
import TokenDiff.Proofs.Report.Commands

/-!
# The totals of a script

The totals, the verdict and the reports go through the gaps of a script each on its own. They agree on what
they find there. A gap adds its tokens, one chunk and its commands to the totals (`Summary.linesOn_count`,
`Summary.chunks_count`, `Summary.commands_count`), so the totals of a script are sums over its gaps, and the
snakes and gaps of a trail together are as long as both sequences (`Route.start_add_matched`). No gap of a
settled script is empty, and so each one is shown in every style that shows edits.
-/

namespace TokenDiff

/-! ## What a gap adds to the totals -/

def Gap.sides (gap : Gap) : Nat :=
  (if gap.old.start < gap.old.stop then 1 else 0) + if gap.new.start < gap.new.stop then 1 else 0

theorem Gap.kind?_cases (gap : Gap) :
    (gap.kind? = none ∧ gap.old.stop ≤ gap.old.start ∧ gap.new.stop ≤ gap.new.start) ∨
    (gap.kind? = some .add ∧ gap.old.stop ≤ gap.old.start ∧ gap.new.start < gap.new.stop) ∨
    (gap.kind? = some .delete ∧ gap.old.start < gap.old.stop ∧ gap.new.stop ≤ gap.new.start) ∨
    (gap.kind? = some .change ∧ gap.old.start < gap.old.stop ∧ gap.new.start < gap.new.stop) := by
  unfold kind? Span.isEmpty
  by_cases hold : gap.old.stop ≤ gap.old.start <;> by_cases hnew : gap.new.stop ≤ gap.new.start <;>
    simp [hold, hnew, Nat.not_le.1]

namespace Summary

def linesOn (t : Summary) (side : Side) : Nat :=
  side.pick (t.deletedLines + t.changedLinesIn) (t.addedLines + t.changedLinesOut)

def chunks (t : Summary) : Nat := t.addedChunks + t.deletedChunks + t.changedChunks

/-- The commands for these edits, where a change is made by a deletion and an addition. -/
def commands (t : Summary) : Nat := t.addedChunks + t.deletedChunks + 2 * t.changedChunks

variable (t : Summary) {gap : Gap}

theorem linesOn_count (gap : Gap) (side : Side) :
    (t.count gap).linesOn side = t.linesOn side + (gap.on side).length := by
  unfold count
  rcases gap.kind?_cases with ⟨hkind, hold, hnew⟩ | ⟨hkind, hold, hnew⟩ | ⟨hkind, hold, hnew⟩ |
      ⟨hkind, hold, hnew⟩ <;> rw [hkind] <;> cases side <;>
    simp only [linesOn, Side.pick, Gap.on, Span.length] <;> omega

theorem chunks_count (h : gap.kind? ≠ none) : (t.count gap).chunks = t.chunks + 1 := by
  unfold count
  cases hkind : gap.kind? with
  | none => exact absurd hkind h
  | some kind => cases kind <;> simp only [chunks] <;> omega

theorem commands_count (gap : Gap) : (t.count gap).commands = t.commands + gap.sides := by
  unfold count Gap.sides
  rcases gap.kind?_cases with ⟨hkind, hold, hnew⟩ | ⟨hkind, hold, hnew⟩ | ⟨hkind, hold, hnew⟩ |
      ⟨hkind, hold, hnew⟩ <;> rw [hkind] <;> simp only [commands] <;> split_ifs <;> omega

/-- What grows by its share with each gap has grown by the sum of the shares. -/
theorem foldl_count (measure : Summary → Nat) {share : Gap → Nat} {gaps : List Gap}
    (h : ∀ t, ∀ gap ∈ gaps, measure (t.count gap) = measure t + share gap) (t : Summary) :
    measure (gaps.foldl count t) = measure t + (gaps.map share).sum := by
  induction gaps generalizing t with
  | nil => rfl
  | cons gap gaps ih =>
      rw [List.foldl_cons, ih fun t gap hgap => h t gap (List.mem_cons_of_mem _ hgap),
        h t gap List.mem_cons_self, List.map_cons, List.sum_cons, Nat.add_assoc]

end Summary

/-! ## The totals of a script -/

section

variable {script : Script}

theorem linesOn_ofScript (script : Script) (side : Side) :
    (Summary.ofScript script).linesOn side =
      (script.steps.map fun step => ((Step.gap step).on side).length).sum := by
  rw [Summary.ofScript,
    Summary.foldl_count (·.linesOn side) fun t gap _ => t.linesOn_count gap side,
    Script.gaps, List.map_map]
  cases side <;> exact Nat.zero_add _

theorem chunks_ofScript (hgaps : ∀ gap ∈ script.gaps, gap.kind? ≠ none) :
    (Summary.ofScript script).chunks = script.steps.length := by
  rw [Summary.ofScript,
    Summary.foldl_count Summary.chunks fun t gap hgap => t.chunks_count (hgaps gap hgap),
    List.map_const', List.sum_replicate, smul_eq_mul, Nat.mul_one, Script.gaps, List.length_map]
  exact Nat.zero_add _

theorem commandCount_rcsStep (step : Step) :
    ((rcsStep step).map Piece.commandCount).sum = (Step.gap step).sides := by
  obtain ⟨s, t⟩ := step
  by_cases hold : s.u < t.x <;> by_cases hnew : s.v < t.y <;>
    simp [rcsStep, Gap.sides, Step.gap, Gap.between, Piece.commandCount, hold, hnew]

/-- The commands of the report for machines are those that the totals call for. -/
theorem commandCount_rcs (script : Script) (context : Nat) :
    ((script.report .rcs context).map Piece.commandCount).sum = (Summary.ofScript script).commands := by
  rw [Summary.ofScript,
    Summary.foldl_count Summary.commands fun t gap _ => t.commands_count gap,
    Script.report, Script.gaps]
  induction script.steps with
  | nil => rfl
  | cons step steps ih =>
      rw [List.flatMap_cons, List.map_append, List.sum_append, ih, commandCount_rcsStep, List.map_cons,
        List.map_cons, List.sum_cons]
      exact Nat.add_left_comm _ _ _

end

/-! ## Snakes and gaps together -/

/-- From one snake to another, the snakes and gaps of a route cover each side. -/
theorem Route.start_add_matched {old new : List (List UInt8)} {s e : Snake} {steps : List Step}
    (h : Route old new s steps e) (side : Side) :
    (s.on side).start + matched (s :: steps.map Prod.snd) +
      (steps.map fun step => ((Step.gap step).on side).length).sum = (e.on side).stop := by
  induction h with
  | nil hs =>
      have hlength := hs.on_length side
      simpa using hlength
  | @cons s t e steps hs hgap rest ih =>
      have hlength := hs.on_length side
      have hst := (Route.cons hs hgap (.nil rest.head)).on_le (List.cons_ne_nil _ _) side
      rw [List.map_cons, matched_cons, List.map_cons, List.sum_cons, Step.gap_on, Span.length]
      dsimp only
      omega

/-- The snakes of a script and the tokens that its totals count are all tokens of a side. -/
theorem Script.Aligns.matched_add_linesOn {same : Nat → Nat → Bool} {script : Script}
    (h : script.Aligns same) (side : Side) :
    matched script.snakes + (Summary.ofScript script).linesOn side = script.countOn side := by
  obtain ⟨s, e, htrail, hsnakes, ⟨hx, hy⟩, hu, hv⟩ := h.trail
  have hcover := htrail.start_add_matched side
  rw [← hsnakes, ← linesOn_ofScript] at hcover
  have hstart : (s.on side).start = 0 := by cases side <;> assumption
  have hstop : (e.on side).stop = script.countOn side := by cases side <;> assumption
  omega

theorem ofScript_eq_iff {script : Script} (hgaps : ∀ gap ∈ script.gaps, gap.kind? ≠ none) :
    Summary.ofScript script = {} ↔ script.steps = [] := by
  refine ⟨fun htotals => ?_, fun hnil => ?_⟩
  · have hchunks := chunks_ofScript hgaps
    rw [htotals] at hchunks
    exact List.length_eq_zero_iff.1 hchunks.symm
  · rw [Summary.ofScript, Script.gaps, hnil]
    rfl

/-! ## The styles that show edits -/

/-- The piece is a line of fixed text. -/
def Piece.IsLine : Piece → Prop
  | .text s | .command s => ∃ line, s = line ++ "\n"
  | .tokens _ _ | .marked _ _ _ _ | .overflow => False

theorem Piece.IsLine.bytesAcross_ne_nil {p q : Policy} {type : LineType} {S T : List UInt8} {piece : Piece}
    (h : piece.IsLine) : piece.bytesAcross p q type S T ≠ [] := by
  have hline (line : String) : utf8Bytes (line ++ "\n") ≠ [] := by
    rw [utf8Bytes_append]
    exact List.append_ne_nil_of_right_ne_nil _ (by decide)
  cases piece with
  | text s =>
      obtain ⟨line, rfl⟩ := h
      exact hline line
  | command s =>
      obtain ⟨line, rfl⟩ := h
      exact hline line
  | tokens side span => exact h.elim
  | marked mark side span noted => exact h.elim
  | overflow => exact h.elim

theorem exists_line_normalStep {step : Step} (h : (Step.gap step).kind? ≠ none) :
    ∃ piece ∈ normalStep step, piece.IsLine := by
  obtain ⟨kind, hkind⟩ := Option.ne_none_iff_exists'.1 h
  rw [Step.gap] at hkind
  rw [normalStep, hkind]
  exact ⟨_, List.mem_append_left _ (List.mem_append_left _ List.mem_cons_self), _, rfl⟩

theorem exists_line_rcsStep {step : Step} (h : (Step.gap step).kind? ≠ none) :
    ∃ piece ∈ rcsStep step, piece.IsLine := by
  obtain ⟨s, t⟩ := step
  by_cases hold : s.u < t.x
  · refine ⟨.command s!"d{s.u + 1} {t.x - s.u}\n", List.mem_append_left _ ?_, _, rfl⟩
    rw [if_pos hold]
    exact List.mem_singleton_self _
  · have hnew : s.v < t.y := by
      rw [Ne, Gap.kind?_eq_none_iff] at h
      simp only [Step.gap, Gap.between, Span.length] at h
      omega
    refine ⟨.command s!"a{t.x} {t.y - s.v}\n", List.mem_append_right _ ?_, _, rfl⟩
    rw [if_pos hnew]
    exact List.mem_cons_self

theorem exists_line_contextHunk (extent : Extent) (steps : List Step) :
    ∃ piece ∈ contextHunk extent steps, piece.IsLine :=
  ⟨.text "***************\n", by simp [contextHunk], "***************", by decide⟩

theorem exists_line_unifiedHunk (extent : Extent) (steps : List Step) :
    ∃ piece ∈ unifiedHunk extent steps, piece.IsLine := by
  have hend : toString " @@\n" = " @@" ++ "\n" := by decide
  refine ⟨_, List.mem_cons_self, ?_⟩
  rw [Piece.IsLine, hend, ← String.append_assoc]
  exact ⟨_, rfl⟩

section

variable {script : Script} {format : Format} {context : Nat}

/-- Where there are gaps and none of them is empty, each style that shows edits has a line of fixed text. -/
theorem exists_line_report (hgaps : ∀ gap ∈ script.gaps, gap.kind? ≠ none) (hne : script.steps ≠ [])
    (hformat : format ∈ [Format.normal, .context, .unified, .rcs])
    (hsums : format ∈ [Format.context, .unified] → script.SumsFit context) :
    ∃ piece ∈ script.report format context, piece.IsLine := by
  obtain ⟨step, hstep⟩ := List.exists_mem_of_ne_nil _ hne
  have hkind := hgaps (Step.gap step) (List.mem_map_of_mem hstep)
  have hblocks : script.blocks context ≠ [] := by
    intro hnil
    rw [← script.flatMap_steps_blocks context, hnil] at hne
    exact hne rfl
  obtain ⟨b, hb⟩ := List.exists_mem_of_ne_nil _ hblocks
  cases format with
  | normal =>
      obtain ⟨piece, hpiece, hline⟩ := exists_line_normalStep hkind
      exact ⟨piece, List.mem_flatMap.2 ⟨step, hstep, hpiece⟩, hline⟩
  | context =>
      obtain ⟨piece, hpiece, hline⟩ := exists_line_contextHunk b.extent b.steps
      rw [Script.report, (hsums (by decide)).renderHunks_eq_blocks]
      exact ⟨piece, List.mem_flatMap.2 ⟨b, hb, hpiece⟩, hline⟩
  | unified =>
      obtain ⟨piece, hpiece, hline⟩ := exists_line_unifiedHunk b.extent b.steps
      rw [Script.report, (hsums (by decide)).renderHunks_eq_blocks]
      exact ⟨piece, List.mem_flatMap.2 ⟨b, hb, hpiece⟩, hline⟩
  | rcs =>
      obtain ⟨piece, hpiece, hline⟩ := exists_line_rcsStep hkind
      exact ⟨piece, List.mem_flatMap.2 ⟨step, hstep, hpiece⟩, hline⟩
  | html => simp at hformat
  | summary => simp at hformat

theorem report_eq_nil (hnil : script.steps = [])
    (hformat : format ∈ [Format.normal, .context, .unified, .rcs]) : script.report format context = [] := by
  have hhunks : script.hunks context = [] := by
    rw [Script.hunks, hnil]
    rfl
  cases format with
  | normal => rw [Script.report, hnil, List.flatMap_nil]
  | context => rw [Script.report, Script.renderHunks, hhunks, List.flatMap_nil]
  | unified => rw [Script.report, Script.renderHunks, hhunks, List.flatMap_nil]
  | rcs => rw [Script.report, hnil, List.flatMap_nil]
  | html => simp at hformat
  | summary => simp at hformat

/-- Nothing is printed in a style that shows edits if and only if there is none. -/
theorem flatMap_bytesAcross_eq_nil_iff {p q : Policy} {type : LineType} {S T : List UInt8}
    (hgaps : ∀ gap ∈ script.gaps, gap.kind? ≠ none)
    (hformat : format ∈ [Format.normal, .context, .unified, .rcs])
    (hsums : format ∈ [Format.context, .unified] → script.SumsFit context) :
    (script.report format context).flatMap (·.bytesAcross p q type S T) = [] ↔ script.steps = [] := by
  refine ⟨fun hempty => ?_, fun hnil => ?_⟩
  · by_contra hne
    obtain ⟨piece, hpiece, hline⟩ : ∃ piece ∈ script.report format context, piece.IsLine :=
      exists_line_report hgaps hne hformat hsums
    exact hline.bytesAcross_ne_nil (List.flatMap_eq_nil_iff.1 hempty piece hpiece)
  · rw [report_eq_nil hnil hformat, List.flatMap_nil]

end

/-! ## The totals, the verdict and the reports -/

/-- On sequences that need not even be built under the same policy, the totals of a script account for all
tokens: together with the snakes they are as long as each sequence, and there is a chunk between any two
snakes. The verdict, the totals and the four styles that show edits agree on whether there is any difference,
and the report for machines has the commands that the totals call for, whichever reports the printer has
written before. Any report can be printed unless its context is so wide that the sums overflow. -/
theorem totals_agree {S T : List UInt8} {old new : Source} (hold : old.Replays S) (hnew : new.Replays T)
    (p q : Policy) (tuning tuning' : Tuning) :
    ∃ a b, Sequence.ofSource old p tuning = .ok a ∧ Sequence.ofSource new q tuning' = .ok b ∧
      ∀ fast search script windows,
        (a.table.comparison b.table).script fast search (a.window, b.window) = .ok script windows →
        let totals := Summary.ofScript script
        (a.table.count =
            (script.snakes.map Snake.length).sum + totals.deletedLines + totals.changedLinesIn ∧
          b.table.count =
            (script.snakes.map Snake.length).sum + totals.addedLines + totals.changedLinesOut) ∧
        totals.addedChunks + totals.deletedChunks + totals.changedChunks + 1 = script.snakes.length ∧
        (script.isIdentical = true ↔ totals = {}) ∧
        (∀ format context, (format ∈ [Format.context, .unified] →
          2 * context + a.table.count + b.table.count < Word.modulus) → script.Printable format context) ∧
        ∀ type requests, (∀ request ∈ requests, script.Printable request.1 request.2) →
          ∃ texts printer,
            Layout.printReports ⟨a.table, b.table, type⟩ script requests { windows } = .ok texts printer ∧
            (∀ context, ∃ text printer',
              Layout.printAll ⟨a.table, b.table, type⟩ (script.report .rcs context) printer =
                .ok text printer' ∧
              printer'.commands = printer.commands +
                (totals.addedChunks + totals.deletedChunks + 2 * totals.changedChunks)) ∧
            ∀ format ∈ [Format.normal, .context, .unified, .rcs], ∀ context,
              script.Printable format context → ∃ text printer',
                Layout.printAll ⟨a.table, b.table, type⟩ (script.report format context) printer =
                  .ok text printer' ∧
                (script.isIdentical = true ↔ text = []) := by
  obtain ⟨a, ha, hofA⟩ := Sequence.exists_ofSource hold p tuning
  obtain ⟨b, hb, hofB⟩ := Sequence.exists_ofSource hnew q tuning'
  refine ⟨a, b, ha, hb, fun fast search script windows hscript => ?_⟩
  rw [hofA.count_eq, hofB.count_eq]
  rw [hofA.table, hofB.table] at hscript ⊢
  obtain ⟨hover, hcounts, hsettled⟩ := settled_of_script_across ⟨hofA.window, hofB.window⟩ hscript
  obtain ⟨-, -, haligns⟩ := aligns_of_script_across ⟨hofA.window, hofB.window⟩ hscript
  have hgaps := hsettled.kind?_ne_none
  have hsteps : script.steps.length + 1 = script.snakes.length := by
    obtain ⟨s, e, -, hsnakes, -⟩ := haligns.trail
    rw [hsnakes, List.length_cons, List.length_map]
  have hidentical : script.isIdentical = true ↔ script.steps = [] := by
    rw [Script.isIdentical, beq_iff_eq, ← hsteps, Nat.add_eq_right, List.length_eq_zero_iff]
  refine ⟨?_, ?_, ?_, fun format context hword => ?_, fun type requests hprintable => ?_⟩
  · rw [sum_length_eq_matched, Nat.add_assoc, Nat.add_assoc, ← hcounts.1, ← hcounts.2]
    exact ⟨(haligns.matched_add_linesOn .old).symm, (haligns.matched_add_linesOn .new).symm⟩
  · rw [← hsteps, ← chunks_ofScript hgaps]
    rfl
  · rw [hidentical, ofScript_eq_iff hgaps]
  · rw [← hcounts.1, ← hcounts.2] at hword
    exact haligns.printable_iff.2 fun hformat => haligns.sumsFit (hword hformat)
  · obtain ⟨texts, printer, hrun, hover', rfl⟩ :=
      (printReports_ensures_across type hcounts haligns hprintable).exists_ok (s := { windows }) hover
    refine ⟨_, printer, hrun, fun context => ?_, fun format hformat context hone => ?_⟩
    · have hone : script.Printable .rcs context := haligns.printable_iff.2 (by simp)
      obtain ⟨text, printer', hprint, -, -⟩ :=
        (printReport_ensures_across type hcounts haligns hone).exists_ok hover'
      refine ⟨text, printer', hprint, ?_⟩
      rw [(counts_printAll _ _).of_ok hprint, commandCount_rcs]
      rfl
    · obtain ⟨text, printer', hprint, -, rfl⟩ :=
        (printReport_ensures_across type hcounts haligns hone).exists_ok hover'
      refine ⟨_, printer', hprint, ?_⟩
      rw [hidentical, flatMap_bytesAcross_eq_nil_iff hgaps hformat (haligns.printable_iff.1 hone)]

/-- A line is replaced by two, under a policy for each side. The second report for machines has two commands
like the first one. -/
theorem totals_agree_of_bytes : ∃ a b script windows texts printer text printer',
    Sequence.ofSource (.ofBytes "old" .raw [97, 10, 98, 10]) .line {} = .ok a ∧
    Sequence.ofSource (.ofBytes "new" .raw [97, 10, 99, 10, 100, 10]) .lineEnding {} = .ok b ∧
    (a.table.comparison b.table).script true {} (a.window, b.window) = .ok script windows ∧
    Summary.ofScript script = { changedChunks := 1, changedLinesIn := 1, changedLinesOut := 2 } ∧
    2 = (script.snakes.map Snake.length).sum + 0 + 1 ∧ 3 = (script.snakes.map Snake.length).sum + 0 + 2 ∧
    script.isIdentical = false ∧
    Layout.printReports ⟨a.table, b.table, .raw⟩ script [(.rcs, 0)] { windows } = .ok texts printer ∧
    Layout.printAll ⟨a.table, b.table, .raw⟩ (script.report .rcs 0) printer = .ok text printer' ∧
    printer'.commands = printer.commands + 2 ∧ text ≠ [] := by
  have hold := Source.replays_ofBytes "old" [97, 10, 98, 10]
  have hnew := Source.replays_ofBytes "new" [97, 10, 99, 10, 100, 10]
  obtain ⟨a, b, ha, hb, hagree⟩ := totals_agree hold hnew .line .lineEnding {} {}
  have hcount : a.table.count = 2 := (Sequence.of_ofSource hold ha).count_eq
  have hcount' : b.table.count = 3 := (Sequence.of_ofSource hnew hb).count_eq
  obtain ⟨script, windows, hscript⟩ := exists_script_of_replays hold hnew (by decide) true ha hb
  obtain ⟨⟨hlength, hlength'⟩, -, hverdict, hprintable, hreports⟩ := hagree true {} script windows hscript
  have hrcs : script.Printable .rcs 0 := hprintable .rcs 0 (by simp)
  obtain ⟨texts, printer, hrun, hcommands, hsilent⟩ :=
    hreports .raw [(.rcs, 0)] (List.forall_mem_singleton.2 hrcs)
  obtain ⟨text, printer', hprint, hraised⟩ := hcommands 0
  obtain ⟨_, _, hprint', hempty⟩ := hsilent .rcs (by decide) 0 hrcs
  obtain ⟨rfl, -⟩ := EStateM.Result.ok.inj (hprint.symm.trans hprint')
  have hscript' : (do
      let a ← Sequence.ofSource (.ofBytes "old" .raw [97, 10, 98, 10]) .line {}
      let b ← Sequence.ofSource (.ofBytes "new" .raw [97, 10, 99, 10, 100, 10]) .lineEnding {}
      match (a.table.comparison b.table).script true {} (a.window, b.window) with
      | .ok script _ => return script
      | .error fault _ => throw fault : Except Fault Script) =
        .ok ⟨[⟨0, 1, 0, 1⟩, ⟨2, 2, 3, 3⟩], 2, 3, 42⟩ := by
    cbv
  rw [ha, hb] at hscript'
  simp only [bind, Except.bind, hscript] at hscript'
  obtain rfl := Except.ok.inj hscript'
  rw [hcount] at hlength
  rw [hcount'] at hlength'
  exact ⟨a, b, _, windows, texts, printer, text, printer', ha, hb, hscript, rfl, hlength, hlength', rfl,
    hrun, hprint, hraised, fun hnil => absurd (hempty.2 hnil) (by decide)⟩

end TokenDiff
