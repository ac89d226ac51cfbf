import TokenDiff.Proofs.Report.Blocks

/-!
# The headers of the unified report

The header of a hunk names where it starts on both sides and how many tokens of each side are printed in it
(`unified_hunks_wellFormed`). The context is printed of the old side only. It counts for the new side as well,
since a block begins and ends at the same distance from the start of a snake on both sides
(`Route.countMarked_new`).
-/

namespace TokenDiff

def countMarked (marks : List String) (pieces : List Piece) : Nat :=
  (markedTokens pieces).countP fun t => t.mark ∈ marks

theorem countMarked_cons (marks : List String) (mark : String) (side : Side) (span : Span) (noted : Bool)
    (pieces : List Piece) :
    countMarked marks (.marked mark side span noted :: pieces) =
      (if mark ∈ marks then span.length else 0) + countMarked marks pieces := by
  rw [countMarked, markedTokens, List.flatMap_cons, List.countP_append, Piece.markedTokens, List.countP_map]
  congr 1
  split
  · rename_i hmark
    have hall : ∀ i ∈ List.range' span.start span.length, decide (mark ∈ marks) = true :=
      fun _ _ => decide_eq_true hmark
    exact (List.countP_eq_length.2 hall).trans List.length_range'
  · rename_i hmark
    exact List.countP_eq_zero.2 fun _ _ h => hmark (of_decide_eq_true h)

section

variable {old new : List (List UInt8)} {s e : Snake} {steps : List Step}

theorem Route.countMarked_old (h : Route old new s steps e) {start stop : Nat} (hstart : start ≤ s.u)
    (hstop : e.x ≤ stop) : countMarked [" ", "-"] (unifiedLines start stop steps) = stop - start := by
  induction h generalizing start with
  | nil hs =>
      rw [unifiedLines, countMarked_cons, if_pos (by decide)]
      rfl
  | @cons s t e steps hs hgap rest ih =>
      have hle := rest.le
      have hrest := ih rest.head.x_le_u hstop
      simp only [unifiedLines, List.cons_append, List.nil_append, countMarked_cons]
      rw [if_pos (by decide), if_pos (by decide), if_neg (by decide), hrest, Span.length, Span.length]
      dsimp only
      omega

theorem Route.countMarked_new (h : Route old new s steps e) {d d' : Nat} (hd : d ≤ s.u - s.x) :
    countMarked [" ", "+"] (unifiedLines (s.x + d) (e.x + d') steps) = e.y + d' - (s.y + d) := by
  induction h generalizing d with
  | nil hs =>
      rw [unifiedLines, countMarked_cons, if_pos (by decide), Nat.add_sub_add_left, Span.length]
      exact Nat.add_sub_add_left _ _ _
  | @cons s t e steps hs hgap rest ih =>
      have hle := rest.le
      have hxu := hs.x_le_u
      have hdiag := hs.diagonal
      have hrest := ih (d := 0) (Nat.zero_le _)
      rw [Nat.add_zero, Nat.add_zero] at hrest
      simp only [unifiedLines, List.cons_append, List.nil_append, countMarked_cons]
      rw [if_pos (by decide), if_neg (by decide), if_pos (by decide), hrest, Span.length, Span.length]
      dsimp only
      omega

end

namespace Block

def lines (b : Block) : List Piece := unifiedLines b.extent.old.start b.extent.old.stop b.steps

def oldShown (b : Block) : Nat := countMarked [" ", "-"] b.lines

def newShown (b : Block) : Nat := countMarked [" ", "+"] b.lines

variable {m n : Nat} {s t : Snake} {b : Block}

theorem Frames.shown_eq (h : b.Frames m n s t) :
    b.oldShown = b.extent.old.stop - b.extent.old.start ∧
      b.newShown = b.extent.new.stop - b.extent.new.start := by
  obtain ⟨d, hd, hstart⟩ := h.start_eq
  obtain ⟨d', -, hstop⟩ := h.stop_eq
  have hold : b.extent.old.start = s.x + d ∧ b.extent.old.stop = t.x + d' := ⟨hstart .old, hstop .old⟩
  have hnew : b.extent.new.start = s.y + d ∧ b.extent.new.stop = t.y + d' := ⟨hstart .new, hstop .new⟩
  have hxu := h.trail.head.x_le_u
  rw [oldShown, newShown, lines, hold.1, hold.2, hnew.1, hnew.2]
  exact ⟨h.trail.countMarked_old (by omega) (Nat.le_add_right _ _), h.trail.countMarked_new hd⟩

end Block

/-- The header of a block names where it starts, counted from one, and how many tokens are printed of it. -/
def Block.header (b : Block) : String :=
  s!"@@ -{b.extent.old.start + 1},{b.oldShown} +{b.extent.new.start + 1},{b.newShown} @@\n"

section

variable {same : Nat → Nat → Bool} {script : Script} {context : Nat}

theorem Script.Aligns.shown_eq (h : script.Aligns same) (context : Nat) :
    ∀ b ∈ script.blocks context, b.extent.old.start + b.oldShown = b.extent.old.stop ∧
      b.extent.new.start + b.newShown = b.extent.new.stop := by
  intro b hb
  obtain ⟨s, -, hlaid⟩ := h.laid_blocks context
  obtain ⟨s, -, t, hframes⟩ := hlaid.exists_frames hb
  rw [hframes.shown_eq.1, hframes.shown_eq.2]
  exact ⟨Nat.add_sub_cancel' (hframes.within .old).1, Nat.add_sub_cancel' (hframes.within .new).1⟩

/-- The unified report prints each block behind its header. -/
theorem Script.Aligns.report_unified (h : script.Aligns same) (hsums : script.SumsFit context) :
    script.report .unified context = (script.blocks context).flatMap fun b => .text b.header :: b.lines := by
  refine (hsums.renderHunks_eq_blocks unifiedHunk).trans (List.flatMap_congr fun b hb => ?_)
  obtain ⟨hold, hnew⟩ := h.shown_eq context b hb
  have hcount : b.extent.old.length = b.oldShown := by
    rw [Span.length]
    omega
  have hcount' : b.extent.new.length = b.newShown := by
    rw [Span.length]
    omega
  have hstring (s : String) : toString s = s := rfl
  simp only [unifiedHunk, Block.header, Block.lines, hcount, hcount', hstring, String.append_assoc]

end

/-- The unified report of two sequences consists of the blocks of their script, each behind a header. The numbers
in it are those of the tokens printed behind a blank or a minus, and behind a blank or a plus, and the block
covers as many tokens of each side. The width of the context is such that the sums with it are counters. -/
theorem unified_hunks_wellFormed {S T : List UInt8} {old new : Source} (hold : old.Replays S)
    (hnew : new.Replays T) (p : Policy) (tuning tuning' : Tuning) :
    ∃ a b, Sequence.ofSource old p tuning = .ok a ∧ Sequence.ofSource new p tuning' = .ok b ∧
      ∀ fast search script windows context type,
        (a.table.comparison b.table).script fast search (a.window, b.window) = .ok script windows →
        2 * context + a.table.count + b.table.count < Word.modulus →
        (script.oldCount = a.table.count ∧ script.newCount = b.table.count) ∧
        script.CutInto context (script.blocks context) ∧
        (∀ block ∈ script.blocks context, block.extent.old.start + block.oldShown = block.extent.old.stop ∧
          block.extent.new.start + block.newShown = block.extent.new.stop) ∧
        ∃ printer, Layout.printAll ⟨a.table, b.table, type⟩ (script.report .unified context) { windows } =
          .ok ((script.blocks context).flatMap fun block =>
            utf8Bytes block.header ++ block.lines.flatMap (·.bytes p type S T)) printer := by
  obtain ⟨a, ha, hofA⟩ := Sequence.exists_ofSource hold p tuning
  obtain ⟨b, hb, hofB⟩ := Sequence.exists_ofSource hnew p tuning'
  refine ⟨a, b, ha, hb, fun fast search script windows context type hscript hword => ?_⟩
  obtain ⟨hcounts, haligns, hprint⟩ := hofA.report_of_script hofB hscript
  rw [← hcounts.1, ← hcounts.2] at hword
  obtain ⟨printer, hprint⟩ := (hprint type .unified context).1 (haligns.printable_of_lt hword)
  refine ⟨hcounts, haligns.cutInto context, haligns.shown_eq context, printer, hprint.trans ?_⟩
  rw [haligns.report_unified (haligns.sumsFit hword), List.flatMap_assoc]
  rfl

/-- The lines differ at both ends, and between these are more lines than two contexts. -/
theorem unified_hunks_wellFormed_of_bytes : ∃ a b script windows printer,
    Sequence.ofSource (.ofBytes "old" .raw [97, 10, 10, 10, 10, 98, 10]) .line {} = .ok a ∧
    Sequence.ofSource (.ofBytes "new" .raw [99, 10, 10, 10, 10, 100]) .line {} = .ok b ∧
    (a.table.comparison b.table).script true {} (a.window, b.window) = .ok script windows ∧
    script.CutInto 1 (script.blocks 1) ∧
    (∀ block ∈ script.blocks 1, block.extent.old.start + block.oldShown = block.extent.old.stop ∧
      block.extent.new.start + block.newShown = block.extent.new.stop) ∧
    Layout.printAll ⟨a.table, b.table, .raw⟩ (script.report .unified 1) { windows } =
      .ok ((script.blocks 1).flatMap fun block => utf8Bytes block.header ++ block.lines.flatMap
        (·.bytes .line .raw [97, 10, 10, 10, 10, 98, 10] [99, 10, 10, 10, 10, 100])) printer := by
  have hold := Source.replays_ofBytes "old" [97, 10, 10, 10, 10, 98, 10]
  have hnew := Source.replays_ofBytes "new" [99, 10, 10, 10, 10, 100]
  obtain ⟨a, b, ha, hb, hreport⟩ := unified_hunks_wellFormed hold hnew .line {} {}
  have hcount : a.table.count = 5 := (Sequence.of_ofSource hold ha).count_eq
  have hcount' : b.table.count = 5 := (Sequence.of_ofSource hnew hb).count_eq
  have hround : 0 < ({} : Tuning).minDepth := by decide
  obtain ⟨script, windows, hscript⟩ := exists_script_of_replays hold hnew hround true ha hb
  obtain ⟨-, hcut, hshown, printer, hprint⟩ := hreport true {} script windows 1 .raw hscript (by
    rw [hcount, hcount']
    decide)
  exact ⟨a, b, script, windows, printer, ha, hb, hscript, hcut, hshown, hprint⟩

end TokenDiff
