import TokenDiff.Proofs.Report.PatchText
import TokenDiff.Proofs.Report.Text
import TokenDiff.Proofs.Token.Sequence
import TokenDiff.Proofs.Window.Decoding

/-!
# The unified report is a patch

A unified report is read as hunks, and these turn the old text into the new one (`unified_roundtrip`). What is
printed of a hunk is what is written of the hunk of its steps: of the lines in a run only the last one may
lack its line end, so the note after the run is the note on that line. The steps of a script lead from the
start of both texts to their end over equal lines, and two hunks are parted by a snake that is longer than
their context.
-/

namespace TokenDiff

open Window

/-! ## The lines of a text -/

theorem not_mem_dropLast_of_isChain {line : List UInt8}
    (h : line.IsChain fun b c => (!Policy.line.cuts b c) = true) : 10 ∉ line.dropLast := by
  induction line with
  | nil => exact List.not_mem_nil
  | cons b line ih =>
      cases line with
      | nil => exact List.not_mem_nil
      | cons c line =>
          rw [List.isChain_cons_cons] at h
          rw [List.dropLast_cons_cons, List.mem_cons, not_or]
          refine ⟨fun hb => ?_, ih h.2⟩
          rw [← hb] at h
          exact absurd h.1 (by simp [Policy.cuts])

theorem whole_of_mem {text line : List UInt8} (h : line ∈ Policy.line.tokens text) (mark : Patch.Mark) :
    Patch.Line.Whole ⟨mark, line⟩ :=
  ⟨Policy.ne_nil_of_mem_tokens h, not_mem_dropLast_of_isChain (List.isChain_of_mem_splitBy h)⟩

theorem isChain_endsLine (text : List UInt8) :
    (Policy.line.tokens text).IsChain fun line _ => endsLine line = true := by
  refine (List.isChain_getLast_head_splitBy _ text).imp ?_
  rintro line next ⟨hne, hne', hcut⟩
  rw [Bool.not_eq_false'] at hcut
  rw [endsLine, List.getLast?_eq_some_getLast hne]
  exact hcut

/-! ## What is printed of a hunk -/

theorem spanBytes_line {text : List UInt8} {i : Nat} (h : i < (Policy.line.tokens text).length) :
    Policy.line.spanBytes .raw text ⟨i, i + 1⟩ = (Policy.line.tokens text)[i] := by
  rw [Policy.spanBytes, Nat.add_sub_cancel_left, List.drop_eq_getElem_cons h, List.take_succ_cons,
    List.take_zero, List.flatten_singleton]
  rfl

theorem map_spanBytes {text : List UInt8} {span : Span}
    (h : span.stop ≤ (Policy.line.tokens text).length) :
    ((List.range' span.start span.length).map fun i => Policy.line.spanBytes .raw text ⟨i, i + 1⟩) =
      (Policy.line.tokens text).extract span.start span.stop := by
  have hlength := length_extract_of_le (Policy.line.tokens text) (i := span.start) h
  apply List.ext_getElem
  · rw [List.length_map, List.length_range', hlength]
    rfl
  · intro k hk hk'
    rw [hlength] at hk'
    rw [List.getElem_map, List.getElem_range', Nat.one_mul, spanBytes_line (by omega)]
    simp only [List.extract_eq_take_drop, List.getElem_take, List.getElem_drop]

/-- What is written of lines with one mark is each of them behind the mark, and at the end a note if the last
one lacks its line end. -/
theorem flatten_written (mark : Patch.Mark) {lines : List (List UInt8)}
    (h : lines.IsChain fun line _ => endsLine line = true) :
    ((lines.map (⟨mark, ·⟩)).flatMap Patch.Line.written).flatten =
      lines.flatMap ([mark.byte] ++ ·) ++
        if !endsLine (lines.getLastD []) then utf8Bytes Layout.missingNewline else [] := by
  have hnote : utf8Bytes Layout.missingNewline = 10 :: Patch.note := by decide
  have hwritten (line : List UInt8) : (Patch.Line.written ⟨mark, line⟩).flatten =
      [mark.byte] ++ line ++ if !endsLine line then utf8Bytes Layout.missingNewline else [] := by
    rw [Patch.Line.written, hnote]
    cases endsLine line <;> simp
  induction lines with
  | nil => rfl
  | cons line lines ih =>
      rw [List.map_cons, List.flatMap_cons, List.flatten_append, hwritten, List.flatMap_cons]
      cases lines with
      | nil => simp
      | cons next lines =>
          -- a line with another one after it has its line end, and so no note of its own
          rw [List.isChain_cons_cons] at h
          rw [ih h.2, h.1]
          simp

section

variable {S T : List UInt8}

theorem bytes_marked (mark : String) (m : Patch.Mark) (hmark : utf8Bytes mark = [m.byte]) (side : Side)
    (span : Span) (h : span.stop ≤ (Policy.line.tokens (side.pick S T)).length) :
    Piece.bytes .line .raw S T (.marked mark side span true) =
      ((((Policy.line.tokens (side.pick S T)).extract span.start span.stop).map (⟨m, ·⟩)).flatMap
        Patch.Line.written).flatten := by
  have hchain : ((Policy.line.tokens (side.pick S T)).extract span.start span.stop).IsChain
      fun line _ => endsLine line = true := by
    rw [List.extract_eq_take_drop]
    exact ((isChain_endsLine _).drop _).take _
  rw [flatten_written m hchain, Piece.bytes, Piece.bytesAcross, Side.pick_self, map_spanBytes h, hmark]
  rfl

theorem bytes_unifiedLines {steps : List Step}
    (h : ∀ step ∈ steps, step.1.Inside (Policy.line.tokens S).length (Policy.line.tokens T).length ∧
      step.2.Inside (Policy.line.tokens S).length (Policy.line.tokens T).length)
    (start stop : Nat) (hstop : stop ≤ (Policy.line.tokens S).length) :
    (unifiedLines start stop steps).flatMap (·.bytes .line .raw S T) =
      ((Patch.stepLines (Policy.line.tokens S) (Policy.line.tokens T) start stop steps).flatMap
        Patch.Line.written).flatten := by
  have hcontext (start stop : Nat) (hstop : stop ≤ (Policy.line.tokens S).length) :=
    bytes_marked (S := S) (T := T) " " .context (by decide) .old ⟨start, stop⟩ hstop
  induction steps generalizing start with
  | nil =>
      rw [unifiedLines, List.flatMap_singleton, hcontext start stop hstop]
      rfl
  | cons step steps ih =>
      obtain ⟨s, t⟩ := step
      obtain ⟨⟨hs, ht⟩, hrest⟩ := List.forall_mem_cons.1 h
      have hremoved :=
        bytes_marked (S := S) (T := T) "-" .removed (by decide) .old ⟨s.u, t.x⟩ ht.x_le
      have hadded :=
        bytes_marked (S := S) (T := T) "+" .added (by decide) .new ⟨s.v, t.y⟩ ht.y_le
      simp only [unifiedLines, List.cons_append, List.nil_append, List.flatMap_cons, Patch.stepLines,
        List.flatMap_append, List.flatten_append, List.append_assoc, hcontext start s.u hs.u_le, hremoved,
        hadded, ih hrest]
      rfl

/-- A hunk is printed as it is written. -/
theorem bytes_unifiedHunk {extent : Extent} {steps : List Step}
    (h : ∀ step ∈ steps, step.1.Inside (Policy.line.tokens S).length (Policy.line.tokens T).length ∧
      step.2.Inside (Policy.line.tokens S).length (Policy.line.tokens T).length)
    (hstop : extent.old.stop ≤ (Policy.line.tokens S).length) :
    (unifiedHunk extent steps).flatMap (·.bytes .line .raw S T) =
      (Patch.Hunk.ofSteps (Policy.line.tokens S) (Policy.line.tokens T) extent steps).written.flatten := by
  rw [unifiedHunk, List.flatMap_cons, bytes_unifiedLines h _ _ hstop, Patch.Hunk.written,
    List.flatten_cons]
  have hstring (s : String) : toString s = s := rfl
  simp only [Span.length, Piece.bytesAcross, Patch.Hunk.header, Patch.Hunk.ofSteps, hstring,
    String.append_assoc]

end

/-! ## The steps of a script -/

theorem Policy.eq_of_same_line {xs ys : List UInt8} (h : Policy.line.same xs ys = true) : xs = ys := by
  rw [same, Bool.and_eq_true] at h
  exact eq_of_beq h.2

/-- The snakes of a script join equal tokens, if only these are the same. -/
theorem Script.Aligns.joins_of_same {p : Policy} (hp : ∀ xs ys, p.same xs ys = true → xs = ys)
    {S T : List UInt8} {script : Script} (h : script.Aligns (p.sameAt S T))
    (hcounts : script.oldCount = (p.tokens S).length ∧ script.newCount = (p.tokens T).length) :
    ∀ s ∈ script.snakes, s.Joins (p.tokens S) (p.tokens T) := by
  intro s hs
  obtain ⟨⟨hxu, hu⟩, ⟨hyv, hv⟩, hdiag⟩ := h.inside s hs
  rw [hcounts.1] at hu
  rw [hcounts.2] at hv
  refine ⟨hxu, hu, hv, by omega, fun k hk => ?_⟩
  have hsame := h.equal s hs k hk
  have hi : s.x + k < (p.tokens S).length := by omega
  have hj : s.y + k < (p.tokens T).length := by omega
  rw [Policy.sameAt_eq hi hj] at hsame
  rw [List.getElem?_eq_getElem hi, List.getElem?_eq_getElem hj, hp _ _ hsame]

theorem Script.Aligns.joins {S T : List UInt8} {script : Script} (h : script.Aligns (Policy.line.sameAt S T))
    (hcounts : script.oldCount = (Policy.line.tokens S).length ∧
      script.newCount = (Policy.line.tokens T).length) :
    ∀ s ∈ script.snakes, s.Joins (Policy.line.tokens S) (Policy.line.tokens T) :=
  h.joins_of_same (fun _ _ => Policy.eq_of_same_line) hcounts

theorem Route.of_snakes {old new : List (List UInt8)} {s e : Snake} {snakes : List Snake}
    (hjoins : ∀ t ∈ s :: snakes, t.Joins old new)
    (hordered : (s :: snakes).IsChain fun s t => s.u ≤ t.x ∧ s.v ≤ t.y)
    (hlast : (s :: snakes).getLast? = some e) : Route old new s ((s :: snakes).zip snakes) e := by
  induction snakes generalizing s with
  | nil =>
      obtain rfl := Option.some.inj hlast
      exact .nil (hjoins s List.mem_cons_self)
  | cons t snakes ih =>
      rw [List.isChain_cons_cons] at hordered
      rw [List.getLast?_cons_cons] at hlast
      exact .cons (hjoins s List.mem_cons_self) hordered.1
        (ih (fun t ht => hjoins t (List.mem_cons_of_mem s ht)) hordered.2 hlast)

/-- The steps of a script lead through its snakes, from the start of both sides to their end. -/
theorem Script.Aligns.exists_route {same : Nat → Nat → Bool} {script : Script} (h : script.Aligns same)
    {old new : List (List UInt8)} (hjoins : ∀ s ∈ script.snakes, s.Joins old new) :
    ∃ s e, Route old new s script.steps e ∧ script.snakes = s :: script.steps.map Prod.snd ∧
      (s.x = 0 ∧ s.y = 0) ∧ e.u = script.oldCount ∧ e.v = script.newCount := by
  obtain ⟨s, rest, hsnakes, hx, hy⟩ := h.first
  obtain ⟨init, e, hinit, hu, hv⟩ := h.last
  have hordered := h.ordered
  have hlast : script.snakes.getLast? = some e := by rw [hinit, List.getLast?_concat]
  rw [hsnakes] at hjoins hordered hlast
  refine ⟨s, e, ?_, ?_, ⟨hx, hy⟩, hu, hv⟩
  · rw [Script.steps, hsnakes]
    exact Route.of_snakes hjoins hordered hlast
  · rw [Script.steps, hsnakes, List.tail_cons, List.map_snd_zip (Nat.le_succ _)]

theorem Script.Aligns.route {S T : List UInt8} {script : Script} (h : script.Aligns (Policy.line.sameAt S T))
    (hcounts : script.oldCount = (Policy.line.tokens S).length ∧
      script.newCount = (Policy.line.tokens T).length) :
    ∃ s e, Route (Policy.line.tokens S) (Policy.line.tokens T) s script.steps e ∧ (s.x = 0 ∧ s.y = 0) ∧
      e.u = (Policy.line.tokens S).length ∧ e.v = (Policy.line.tokens T).length := by
  obtain ⟨s, e, hroute, -, hstart, hu, hv⟩ := h.exists_route (h.joins hcounts)
  exact ⟨s, e, hroute, hstart, hcounts.1 ▸ hu, hcounts.2 ▸ hv⟩

theorem Snake.Joins.inside {old new : List (List UInt8)} {s : Snake} (h : s.Joins old new) :
    s.Inside old.length new.length := by
  obtain ⟨hxu, hu, hv, hdiag, -⟩ := h
  constructor <;> omega

theorem Route.inside {old new : List (List UInt8)} {s e : Snake} {steps : List Step}
    (h : Route old new s steps e) : ∀ step ∈ steps,
      step.1.Inside old.length new.length ∧ step.2.Inside old.length new.length := by
  induction h with
  | nil _ => simp
  | cons hs _ rest ih => exact List.forall_mem_cons.2 ⟨⟨hs.inside, rest.head.inside⟩, ih⟩

/-! ## The hunks of a script -/

section

variable {S T : List UInt8} {script : Script} {context : Nat}

theorem Snake.isBridged_iff {s : Snake} : s.isBridged context = true ↔ s.u - s.x ≤ 2 * context := by
  rw [isBridged, decide_eq_true_iff]
  omega

theorem parted_hunks : Parted context (script.hunks context) := by
  refine (List.isChain_getLast_head_splitBy _ script.steps).imp ?_
  rintro group next ⟨hne, hne', hbridged⟩ last hlast
  rw [List.getLast?_eq_some_getLast hne, Option.mem_some_iff] at hlast
  subst hlast
  have hlong := mt Snake.isBridged_iff.2 (Bool.not_eq_true _ ▸ hbridged)
  rw [Snake.Parts]
  omega

/-- What is printed of the hunks of a script is what is written of them. -/
theorem bytes_renderHunks (h : script.Aligns (Policy.line.sameAt S T))
    (hcounts : script.oldCount = (Policy.line.tokens S).length ∧
      script.newCount = (Policy.line.tokens T).length)
    (hsums : script.SumsFit context) :
    (script.renderHunks context unifiedHunk).flatMap (·.bytes .line .raw S T) =
      ((Patch.ofGroups (Policy.line.tokens S) (Policy.line.tokens T) context
        (script.hunks context)).flatMap Patch.Hunk.written).flatten := by
  obtain ⟨s, e, hroute, -⟩ := h.route hcounts
  have hgroups : ∀ group ∈ script.hunks context, group ≠ [] := fun _ => ne_nil_of_mem_hunks
  rw [← flatten_hunks script context] at hroute
  rw [hsums.renderHunks_eq, hcounts.1, hcounts.2]
  -- from here on the groups are any that the route goes through
  generalize script.hunks context = groups at hroute hgroups
  induction groups generalizing s with
  | nil => rfl
  | cons group groups ih =>
      obtain ⟨hne, hrest⟩ := List.forall_mem_cons.1 hgroups
      rw [List.flatten_cons] at hroute
      obtain ⟨m, hgroup, hroute⟩ := hroute.split
      obtain ⟨first, last, hhead, hlast, hfirst, hm⟩ := hgroup.ends hne
      have hstop : (Extent.around context (Policy.line.tokens S).length (Policy.line.tokens T).length s
          m).old.stop ≤ (Policy.line.tokens S).length := Nat.min_le_right _ _
      have hbytes := bytes_unifiedHunk hgroup.inside hstop
      rw [List.flatMap_cons, List.flatMap_append, ih m hroute hrest, Patch.ofGroups_cons groups hhead hlast,
        hhead, hlast, List.flatMap_cons, List.flatten_append, hfirst, hm, ← hbytes]
      simp only [hfirst, hm]

/-- The hunks of a script turn the old lines into the new ones. -/
theorem applyFrom_hunks (context : Nat) (h : script.Aligns (Policy.line.sameAt S T))
    (hcounts : script.oldCount = (Policy.line.tokens S).length ∧
      script.newCount = (Policy.line.tokens T).length) :
    Patch.applyFrom 0 0 (Policy.line.tokens S)
      (Patch.ofGroups (Policy.line.tokens S) (Policy.line.tokens T) context (script.hunks context)) =
      some (Policy.line.tokens T) := by
  obtain ⟨s, e, hroute, hfirst, hcorner⟩ := h.route hcounts
  rw [← flatten_hunks script context] at hroute
  have happly := applyFrom_ofGroups hroute hcorner (fun _ => ne_nil_of_mem_hunks) parted_hunks
    (Nat.zero_le _) fun _ => .inl ⟨hfirst.1, hfirst.2, rfl⟩
  rwa [hfirst.1, hfirst.2] at happly

theorem mem_stepLines {old new : List (List UInt8)} {start stop : Nat} {steps : List Step} {l : Patch.Line}
    (h : l ∈ Patch.stepLines old new start stop steps) : l.text ∈ old ∨ l.text ∈ new := by
  have hextract (mark : Patch.Mark) (lines : List (List UInt8)) (i j : Nat)
      (h : l ∈ (lines.extract i j).map (⟨mark, ·⟩)) : l.text ∈ lines := by
    rw [List.extract_eq_take_drop, List.mem_map] at h
    obtain ⟨text, htext, rfl⟩ := h
    exact List.mem_of_mem_drop (List.mem_of_mem_take htext)
  induction steps generalizing start with
  | nil => exact .inl (hextract _ _ _ _ h)
  | cons step steps ih =>
      simp only [Patch.stepLines, List.mem_append] at h
      rcases h with ((h | h) | h) | h
      · exact .inl (hextract _ _ _ _ h)
      · exact .inl (hextract _ _ _ _ h)
      · exact .inr (hextract _ _ _ _ h)
      · exact ih h

theorem whole_of_mem_ofGroups {groups : List (List Step)} :
    ∀ hunk ∈ Patch.ofGroups (Policy.line.tokens S) (Policy.line.tokens T) context groups,
      ∀ l ∈ hunk.lines, l.Whole := by
  intro hunk hhunk l hl
  obtain ⟨group, -, hhunk⟩ := List.mem_flatMap.1 hhunk
  split at hhunk
  · rw [List.mem_singleton.1 hhunk] at hl
    exact (mem_stepLines hl).elim (fun h => whole_of_mem h l.mark) (fun h => whole_of_mem h l.mark)
  · cases hhunk

end

/-- The unified report on the lines of two texts, with or without a line end after the last one, is a patch.
Under any tuning it is printed whenever the search finds a script, and it is read as hunks that name the
lines of both texts at the places they say. Applied to the old text they yield the new one, byte by byte. The
width of the context is such that the sums with it are counters. -/
theorem unified_roundtrip {S T : List UInt8} {old new : Source} (hold : old.Replays S) (hnew : new.Replays T)
    (fast : Bool) (tuning : Tuning) (context : Nat)
    (hword : 2 * context + (Policy.line.tokens S).length + (Policy.line.tokens T).length < Word.modulus) :
    ∃ a b, Sequence.ofSource old .line tuning = .ok a ∧ Sequence.ofSource new .line tuning = .ok b ∧
      a.table.count = (Policy.line.tokens S).length ∧ b.table.count = (Policy.line.tokens T).length ∧
      ∀ script windows,
        (a.table.comparison b.table).script fast tuning (a.window, b.window) = .ok script windows →
        ∃ text printer hunks,
          Layout.printAll ⟨a.table, b.table, .raw⟩ (script.report .unified context) { windows } =
            .ok text printer ∧
          Patch.parse text = some hunks ∧
          (∀ hunk ∈ hunks, hunk.Names (Policy.line.tokens S) (Policy.line.tokens T)) ∧
          Patch.apply hunks S = some T := by
  obtain ⟨⟨table, w⟩, ha, rfl, hw⟩ := Sequence.exists_ofSource hold .line tuning
  obtain ⟨⟨table, w'⟩, hb, rfl, hw'⟩ := Sequence.exists_ofSource hnew .line tuning
  refine ⟨_, _, ha, hb, count_table .line S, count_table .line T, fun script windows hscript => ?_⟩
  obtain ⟨hover, hcounts, haligns⟩ := aligns_of_script ⟨hw, hw'⟩ hscript
  rw [← hcounts.1, ← hcounts.2] at hword
  have hprintable : script.Printable .unified context := haligns.printable_of_lt hword
  obtain ⟨text, printer, hprint, -, rfl⟩ :=
    (printReport_ensures_across .raw hcounts haligns hprintable).exists_ok (s := { windows }) hover
  have happly := applyFrom_hunks context haligns hcounts
  refine ⟨_, printer, _, hprint, ?_, Patch.names_of_applyFrom (i := 0) (j := 0) happly, ?_⟩
  · rw [Script.report, bytes_renderHunks haligns hcounts (haligns.sumsFit hword)]
    exact Patch.parse_written whole_of_mem_ofGroups
  · rw [Patch.apply, happly, Option.map_some, Policy.flatten_tokens]

/-- Neither text ends its last line, which is the one that differs. -/
theorem unified_roundtrip_of_bytes : ∃ a b script windows text printer hunks,
    Sequence.ofSource (.ofBytes "old" .raw [97, 10, 98]) .line {} = .ok a ∧
    Sequence.ofSource (.ofBytes "new" .raw [97, 10, 99]) .line {} = .ok b ∧
    (a.table.comparison b.table).script true {} (a.window, b.window) = .ok script windows ∧
    Layout.printAll ⟨a.table, b.table, .raw⟩ (script.report .unified 1) { windows } = .ok text printer ∧
    Patch.parse text = some hunks ∧ Patch.apply hunks [97, 10, 98] = some [97, 10, 99] := by
  have hold := Source.replays_ofBytes "old" [97, 10, 98]
  have hnew := Source.replays_ofBytes "new" [97, 10, 99]
  obtain ⟨a, b, ha, hb, -, -, hreport⟩ := unified_roundtrip hold hnew true {} 1 (by decide)
  obtain ⟨a', ha', htable, hover⟩ := Sequence.exists_ofSource hold .line {}
  obtain ⟨b', hb', htable', hover'⟩ := Sequence.exists_ofSource hnew .line {}
  obtain rfl := Except.ok.inj (ha.symm.trans ha')
  obtain rfl := Except.ok.inj (hb.symm.trans hb')
  have hdecides := comparison_decides .line [97, 10, 98] [97, 10, 99]
  rw [← htable, ← htable'] at hdecides
  obtain ⟨script, windows, hscript⟩ := exists_script hdecides (s := (a.window, b.window))
    (fun _ _ => Nat.lt_of_lt_of_le (by decide) (Tuning.minDepth_le_maxDepth {} _ _ true))
    ⟨hover, hover'⟩
  obtain ⟨text, printer, hunks, hprint, hparse, -, happly⟩ := hreport script windows hscript
  exact ⟨a, b, script, windows, text, printer, hunks, ha, hb, hscript, hprint, hparse, happly⟩

end TokenDiff
