import TokenDiff.Proofs.Report.ContextBlocks
import TokenDiff.Proofs.Report.Normal
import TokenDiff.Proofs.Report.Painting
import TokenDiff.Proofs.Report.UnifiedHunks

/-!
# Tones follow the edits

The tone of a line is found in its bytes, long after it has been written. It is nevertheless the one that the
edit calls for, whatever the tokens look like (`tones_follow_edits`): each line begins with fixed text, and of
the fixed texts of a style no two with different tones begin alike.

A report is taken as a list of rows, one for each line that is written (`Piece.rows`). What is written of a row
has one line feed, at its end, so the rows are also the lines that the report is split into again.
-/

namespace TokenDiff

/-! ## Rows -/

/-- A line of a report: fixed text, or a token behind a mark. -/
inductive Row where
  | fixed (s : String)
  | token (t : MarkedToken)
deriving DecidableEq, Repr

def Piece.rows : Piece → List Row
  | .text s | .command s => [.fixed s]
  | .tokens _ _ | .overflow => []
  | .marked mark side span noted => (Piece.marked mark side span noted).markedTokens.map .token

namespace Row

def bytes (S T : List UInt8) : Row → List UInt8
  | .fixed s => utf8Bytes s
  | .token t => t.bytes .line .raw S T

def text (S T : List UInt8) (row : Row) : List UInt8 := (row.bytes S T).dropLast

end Row

section

variable {S T : List UInt8}

theorem endsLine_of_append {mark line : List UInt8} (h : endsLine (mark ++ line) = true) :
    endsLine line = true := by
  cases line with
  | nil => rfl
  | cons b line => rwa [endsLine, List.getLast?_append_of_ne_nil _ (List.cons_ne_nil b line)] at h

/-- The lines of a text that consists of rows are the rows. -/
theorem textLines_rows {rows : List Row} (h : ∀ row ∈ rows, Patch.Terminated (row.bytes S T)) :
    textLines (rows.flatMap (·.bytes S T)) = rows.map (·.text S T) ++ [[]] := by
  induction rows with
  | nil => exact textLines_of_not_mem List.not_mem_nil
  | cons row rows ih =>
      obtain ⟨⟨body, hbytes, hbody⟩, hrest⟩ := List.forall_mem_cons.1 h
      rw [List.flatMap_cons, hbytes, List.append_assoc, List.singleton_append, textLines_append hbody, ih hrest,
        List.map_cons, Row.text, hbytes, List.dropLast_concat]
      rfl

/-- What is printed of a piece are its rows. There is no note on a line that has its line feed. -/
theorem Piece.bytes_rows {piece : Piece} (hlined : ∀ side span, piece ≠ .tokens side span)
    (h : ∀ row ∈ piece.rows, Patch.Terminated (row.bytes S T)) :
    piece.bytes .line .raw S T = piece.rows.flatMap (·.bytes S T) := by
  cases piece with
  | text s => exact (List.flatMap_singleton ..).symm
  | command s => exact (List.flatMap_singleton ..).symm
  | tokens side span => exact absurd rfl (hlined side span)
  | marked mark side span noted =>
      rw [rows, markedTokens, List.forall_mem_map, List.forall_mem_map] at h
      rw [rows, List.flatMap_map, markedTokens, List.flatMap_map, bytes, bytesAcross, List.flatMap_map]
      simp only [Side.pick_self]
      generalize List.range' span.start span.length = indices at h ⊢
      have hends : endsLine ((indices.map fun i =>
          Policy.line.spanBytes .raw (side.pick S T) ⟨i, i + 1⟩).getLastD []) = true := by
        rcases List.eq_nil_or_concat' indices with rfl | ⟨init, i, rfl⟩
        · rfl
        · rw [List.map_append, List.map_singleton, List.getLastD_concat]
          have hline := (h i (List.mem_append_right _ List.mem_cons_self)).endsLine
          exact endsLine_of_append hline
      rw [hends, Bool.not_true, Bool.and_false]
      exact List.append_nil _
  | overflow => rfl

end

/-! ## Fixed lines -/

/-- The fixed lines of a style, but for the divider: commands, the lines between blocks, and headers with
ranges. -/
inductive Heading : Format → String → Prop
  | command (gap : Gap) (kind : GapKind) :
      Heading .normal (lineRange gap.old ++ kind.letter ++ lineRange gap.new ++ "\n")
  | separator : Heading .context "***************\n"
  | oldRange (first last : Nat) : Heading .context s!"*** {first},{last} ****\n"
  | newRange (first last : Nat) : Heading .context s!"--- {first},{last} ----\n"
  | range (oldStart oldCount newStart newCount : Nat) :
      Heading .unified s!"@@ -{oldStart},{oldCount} +{newStart},{newCount} @@\n"

theorem begins_append (s : String) (text : List UInt8) : begins (utf8Bytes s ++ text) s = true :=
  List.isPrefixOf_iff_prefix.2 (List.prefix_append _ _)

theorem ends_append (text : List UInt8) (s : String) : ends (text ++ utf8Bytes s) s = true :=
  List.isSuffixOf_iff_suffix.2 (List.suffix_append _ _)

theorem Normal.Range.exists_digit (r : Normal.Range) :
    ∃ b rest, utf8Bytes r.text = b :: rest ∧ isDigitByte b = true := by
  have hnumber (n : Nat) : ∃ b rest, utf8Bytes (toString n) = b :: rest ∧ isDigitByte b = true := by
    have hne : utf8Bytes (toString n) ≠ [] := by
      rw [utf8Bytes_toString, Ne, List.map_eq_nil_iff]
      exact Nat.toDigits_ne_nil
    obtain ⟨b, rest, hbytes⟩ := List.exists_cons_of_ne_nil hne
    exact ⟨b, rest, hbytes, isDigitByte_of_mem (hbytes ▸ List.mem_cons_self)⟩
  obtain ⟨b, rest, hbytes, hdigit⟩ := hnumber r.first
  rw [Normal.Range.text]
  split
  · rw [Normal.utf8Bytes_pair, hbytes]
    exact ⟨b, _, rfl, hdigit⟩
  · exact ⟨b, rest, hbytes, hdigit⟩

/-- A header of the context style has its numbers between two fixed texts. -/
theorem exists_body_of_range {start stop : String}
    (h : (start, stop) ∈ [("*** ", " ****"), ("--- ", " ----")]) (first last : Nat) :
    ∃ body, utf8Bytes (start ++ s!"{first},{last}" ++ (stop ++ "\n")) = body ++ [10] ∧ 10 ∉ body ∧
      Format.context.tone body = .hunk := by
  simp only [List.mem_cons, List.not_mem_nil, or_false, Prod.mk.injEq] at h
  refine ⟨utf8Bytes start ++ utf8Bytes s!"{first},{last}" ++ utf8Bytes stop, ?_, ?_, ?_⟩
  · have hend : utf8Bytes (stop ++ "\n") = utf8Bytes stop ++ [10] := by
      rw [utf8Bytes_append]
      rfl
    rw [utf8Bytes_append, utf8Bytes_append start, hend, List.append_assoc _ _ [10]]
  · have hnumbers : 10 ∉ utf8Bytes s!"{first},{last}" := by
      simp only [Normal.utf8Bytes_pair, List.mem_append, lineFeed_not_mem_toString, false_or, or_false]
      decide
    have hfixed : 10 ∉ utf8Bytes start ∧ 10 ∉ utf8Bytes stop := by
      rcases h with ⟨rfl, rfl⟩ | ⟨rfl, rfl⟩ <;> decide
    simp only [List.mem_append, hnumbers, hfixed.1, hfixed.2, or_self, not_false_eq_true]
  · have hbegins : begins (utf8Bytes start ++ utf8Bytes s!"{first},{last}" ++ utf8Bytes stop) start = true := by
      rw [List.append_assoc]
      exact begins_append ..
    have hends := ends_append (utf8Bytes start ++ utf8Bytes s!"{first},{last}") stop
    rw [Format.tone]
    rcases h with ⟨rfl, rfl⟩ | ⟨rfl, rfl⟩
    · simp only [hbegins, hends, Bool.and_true, Bool.or_true, Bool.true_or, if_true]
    · simp only [hbegins, hends, Bool.and_true, Bool.or_true, if_true]

theorem eq_append_of_concat {first rest body : List UInt8} (h : first ++ rest = body ++ [10]) (hrest : rest ≠ []) :
    body = first ++ rest.dropLast := by
  have hinit := congrArg List.dropLast h
  rw [List.dropLast_append_of_ne_nil hrest, List.dropLast_concat] at hinit
  exact hinit.symm

/-- A heading is a line, and its tone is that of a heading. -/
theorem Heading.exists_body {format : Format} {s : String} (h : Heading format s) :
    ∃ body, utf8Bytes s = body ++ [10] ∧ 10 ∉ body ∧ format.tone body = .hunk := by
  cases h with
  | command gap kind =>
      obtain ⟨body, hbytes, hbody⟩ :=
        Normal.terminated_text ⟨kind, Normal.rangeOf gap.old, Normal.rangeOf gap.new⟩
      rw [← Normal.text_rangeOf, ← Normal.text_rangeOf]
      refine ⟨body, hbytes, hbody, ?_⟩
      obtain ⟨b, rest, hrange, hdigit⟩ := (Normal.rangeOf gap.old).exists_digit
      have hend : utf8Bytes "\n" ≠ [] := by decide
      rw [Normal.Header.text, utf8Bytes_append, utf8Bytes_append, utf8Bytes_append, hrange, List.append_assoc,
        List.append_assoc] at hbytes
      rw [eq_append_of_concat hbytes (List.append_ne_nil_of_right_ne_nil _
        (List.append_ne_nil_of_right_ne_nil _ hend)), List.cons_append, Format.tone]
      rw [isDigitByte, Bool.and_eq_true, decide_eq_true_eq, decide_eq_true_eq] at hdigit
      have hmark : b ≠ 60 ∧ b ≠ 62 := by
        constructor
        all_goals
          rintro rfl
          exact absurd hdigit.2 (by decide)
      simp only [if_neg hmark.1, if_neg hmark.2, if_pos hdigit]
  | separator => exact ⟨utf8Bytes "***************", by decide, by decide, by decide⟩
  | oldRange first last =>
      have htext : s!"*** {first},{last} ****\n" = "*** " ++ s!"{first},{last}" ++ (" ****" ++ "\n") := by
        simp only [String.append_assoc]
        rfl
      rw [htext]
      exact exists_body_of_range List.mem_cons_self first last
  | newRange first last =>
      have htext : s!"--- {first},{last} ----\n" = "--- " ++ s!"{first},{last}" ++ (" ----" ++ "\n") := by
        simp only [String.append_assoc]
        rfl
      rw [htext]
      exact exists_body_of_range (List.mem_cons_of_mem _ List.mem_cons_self) first last
  | range oldStart oldCount newStart newCount =>
      obtain ⟨body, hbytes, hbody⟩ := Patch.terminated_header ⟨oldStart, oldCount, newStart, newCount, []⟩
      refine ⟨body, hbytes, hbody, ?_⟩
      have hend : utf8Bytes " @@\n" ≠ [] := by decide
      have hopening : utf8Bytes "@@ -" = utf8Bytes "@@ " ++ [45] := by decide
      rw [Patch.header_eq] at hbytes
      rw [eq_append_of_concat hbytes (by simp only [Ne, List.append_eq_nil_iff, hend, and_false, not_false_eq_true]),
        hopening, List.append_assoc, Format.tone, begins_append, if_pos rfl]

/-! ## Marks -/

/-- The marks of a style, with the tones of the tokens behind them. -/
def Format.marks : Format → List (String × Tone)
  | .normal => [("< ", .removed), ("> ", .added)]
  | .context => [("  ", .plain), ("- ", .removed), ("+ ", .added), ("! ", .changed)]
  | .unified => [(" ", .plain), ("-", .removed), ("+", .added)]
  | .rcs | .html | .summary => []

/-- The mark of a line settles its tone, whatever stands behind it. -/
theorem Format.tone_mark {format : Format} {mark : String} {tone : Tone} (h : (mark, tone) ∈ format.marks)
    (text : List UInt8) : format.tone (utf8Bytes mark ++ text) = tone := by
  cases format <;>
    simp only [marks, List.mem_cons, List.not_mem_nil, or_false, Prod.mk.injEq] at h
  case normal => rcases h with ⟨rfl, rfl⟩ | ⟨rfl, rfl⟩ <;> rfl
  case context => rcases h with ⟨rfl, rfl⟩ | ⟨rfl, rfl⟩ | ⟨rfl, rfl⟩ | ⟨rfl, rfl⟩ <;> rfl
  case unified => rcases h with ⟨rfl, rfl⟩ | ⟨rfl, rfl⟩ | ⟨rfl, rfl⟩ <;> rfl

theorem Format.lineFeed_not_mem_mark (format : Format) :
    ∀ entry ∈ format.marks, 10 ∉ utf8Bytes entry.1 := by
  cases format <;> decide

/-! ## What is written of a script -/

namespace Script

variable {script : Script} {format : Format}

/-- The tone fits what the script does to the token. -/
def Puts (script : Script) (side : Side) (i : Nat) : Tone → Prop
  | .plain => script.IsMatched side i
  | .hunk => False
  | .removed => side = .old ∧ ∃ kind, script.IsEdited side kind i
  | .added => side = .new ∧ ∃ kind, script.IsEdited side kind i
  | .changed => script.IsEdited side .change i

/-- The tone that a row is to have. -/
inductive Calls (script : Script) (format : Format) : Row → Tone → Prop
  | heading {s : String} (h : Heading format s) : Calls script format (.fixed s) .hunk
  | divider (h : format = .normal) : Calls script format (.fixed "---\n") .plain
  | token {t : MarkedToken} {tone : Tone} (hmark : (t.mark, tone) ∈ format.marks)
    (hputs : script.Puts t.side t.index tone) : Calls script format (.token t) tone

theorem Aligns.on_le_count {same : Nat → Nat → Bool} (h : script.Aligns same) {s : Snake}
    (hs : s ∈ script.snakes) (side : Side) :
    (s.on side).start ≤ script.countOn side ∧ (s.on side).stop ≤ script.countOn side := by
  have hinside := h.inside_counts s hs
  cases side
  · exact ⟨hinside.x_le, hinside.u_le⟩
  · exact ⟨hinside.y_le, hinside.v_le⟩

theorem exists_isEdited {step : Step} (hstep : step ∈ script.steps) {side : Side} {i : Nat}
    (hi : ((Step.gap step).on side).Holds i) : ∃ kind, script.IsEdited side kind i := by
  have hlength : ((Step.gap step).on side).length ≠ 0 :=
    Nat.sub_ne_zero_of_lt (Nat.lt_of_le_of_lt hi.1 hi.2)
  exact ⟨_, isEdited_iff.2 ⟨step, hstep, Gap.kind?_of_on hlength, hi⟩⟩

theorem Puts.lt_count {same : Nat → Nat → Bool} {side : Side} {i : Nat} {tone : Tone}
    (h : script.Puts side i tone) (haligns : script.Aligns same) : i < script.countOn side := by
  have hedited {kind : GapKind} (h : script.IsEdited side kind i) : i < script.countOn side := by
    obtain ⟨step, hstep, -, hholds⟩ := isEdited_iff.1 h
    have hsnake := List.mem_of_mem_tail (List.of_mem_zip hstep).2
    rw [Step.gap_on] at hholds
    exact Nat.lt_of_lt_of_le hholds.2 (haligns.on_le_count hsnake side).1
  cases tone with
  | plain =>
      obtain ⟨s, hs, hholds⟩ := h
      exact Nat.lt_of_lt_of_le hholds.2 (haligns.on_le_count hs side).2
  | hunk => exact h.elim
  | removed => exact hedited h.2.choose_spec
  | added => exact hedited h.2.choose_spec
  | changed => exact hedited h

/-- What is written of a row is a line, and it has the tone that it is to have. -/
theorem Calls.exists_body {row : Row} {tone : Tone} (h : script.Calls format row tone) {S T : List UInt8}
    (haligns : script.Aligns (Policy.line.sameAt S T))
    (hcounts : script.oldCount = (Policy.line.tokens S).length ∧
      script.newCount = (Policy.line.tokens T).length)
    (hS : endsLine S = true) (hT : endsLine T = true) :
    ∃ body, row.bytes S T = body ++ [10] ∧ 10 ∉ body ∧ format.tone body = tone := by
  cases h with
  | heading h => exact h.exists_body
  | divider h =>
      have hline : utf8Bytes "---\n" = utf8Bytes "---" ++ [10] := by decide
      exact ⟨utf8Bytes "---", hline, by decide, h ▸ rfl⟩
  | @token t tone hmark hputs =>
      obtain ⟨mark, side, i⟩ := t
      have hlt := hputs.lt_count haligns
      have hline : Patch.Terminated (Policy.line.spanBytes .raw (side.pick S T) ⟨i, i + 1⟩) := by
        cases side with
        | old =>
            have hi : i < (Policy.line.tokens S).length := hcounts.1 ▸ hlt
            exact spanBytes_line hi ▸ terminated_of_mem hS (List.getElem_mem hi)
        | new =>
            have hi : i < (Policy.line.tokens T).length := hcounts.2 ▸ hlt
            exact spanBytes_line hi ▸ terminated_of_mem hT (List.getElem_mem hi)
      obtain ⟨body, hbody, hfree⟩ := hline
      refine ⟨utf8Bytes mark ++ body, ?_, ?_, Format.tone_mark hmark body⟩
      · rw [Row.bytes, MarkedToken.bytes, hbody, List.append_assoc]
      · rw [List.mem_append, not_or]
        exact ⟨format.lineFeed_not_mem_mark _ hmark, hfree⟩

/-- A piece is written row by row, and each row is to have some tone. -/
structure Tints (script : Script) (format : Format) (piece : Piece) : Prop where
  lined : ∀ side span, piece ≠ .tokens side span
  calls : ∀ row ∈ piece.rows, ∃ tone, script.Calls format row tone

theorem tints_text {s : String} {tone : Tone} (h : script.Calls format (.fixed s) tone) :
    script.Tints format (.text s) := by
  refine ⟨fun _ _ => Piece.noConfusion, fun row hrow => ⟨tone, ?_⟩⟩
  rwa [List.mem_singleton.1 hrow]

theorem tints_marked {mark : String} {side : Side} {span : Span} {noted : Bool}
    (h : ∀ i, span.Holds i → ∃ tone, (mark, tone) ∈ format.marks ∧ script.Puts side i tone) :
    script.Tints format (.marked mark side span noted) := by
  refine ⟨fun _ _ => Piece.noConfusion, fun row hrow => ?_⟩
  obtain ⟨t, ht, rfl⟩ := List.mem_map.1 hrow
  rw [← List.flatMap_singleton Piece.markedTokens] at ht
  obtain ⟨rfl, rfl, hholds⟩ := mem_markedTokens_marked.1 ht
  obtain ⟨tone, hmark, hputs⟩ := h t.index hholds
  exact ⟨tone, .token hmark hputs⟩

/-! ## The normal style -/

theorem tints_normalStep {step : Step} (hstep : step ∈ script.steps) :
    ∀ piece ∈ normalStep step, script.Tints .normal piece := by
  intro piece hpiece
  rw [normalStep] at hpiece
  split at hpiece
  · cases hpiece
  · rename_i kind hkind
    have hheading := tints_text (.heading (.command (Step.gap step) kind) : script.Calls .normal _ _)
    have hremoved : script.Tints .normal (.marked "< " .old (Step.gap step).old false) :=
      tints_marked fun i hi => ⟨.removed, by decide, rfl, exists_isEdited hstep hi⟩
    have hadded : script.Tints .normal (.marked "> " .new (Step.gap step).new false) :=
      tints_marked fun i hi => ⟨.added, by decide, rfl, exists_isEdited hstep hi⟩
    have hdivider : ∀ piece ∈ (if kind = .change then [Piece.text "---\n"] else []),
        script.Tints .normal piece := by
      intro piece hpiece
      split at hpiece
      · rw [List.mem_singleton.1 hpiece]
        exact tints_text (.divider rfl)
      · cases hpiece
    simp only [List.mem_append, List.mem_cons, List.not_mem_nil, or_false] at hpiece
    rcases hpiece with ((rfl | rfl) | hpiece) | rfl
    · exact hheading
    · exact hremoved
    · exact hdivider piece hpiece
    · exact hadded

/-! ## The context style -/

section

variable {b : Block} {s t e : Snake}

theorem tints_section (hframes : b.Frames script.oldCount script.newCount s t) (hs : s ∈ script.snakes)
    (hsteps : ∀ step ∈ b.steps, step ∈ script.steps) (side : Side) :
    ∀ piece ∈ b.section side, script.Tints .context piece := by
  intro piece hpiece
  have hmem := hpiece
  rw [Block.section, contextSide] at hmem
  split at hmem
  · cases hmem
  · obtain ⟨mark, span, rfl⟩ := exists_marked_of_mem_contextLines hmem
    refine tints_marked fun i hi => ?_
    have htoken : ⟨mark, side, i⟩ ∈ markedTokens (b.section side) := by
      refine List.mem_flatMap.2 ⟨_, hpiece, ?_⟩
      rw [← List.flatMap_singleton Piece.markedTokens]
      exact mem_markedTokens_marked.2 ⟨rfl, rfl, hi⟩
    obtain ⟨-, ⟨rfl, hmatched⟩ | ⟨rfl, hedited⟩ | ⟨rfl, hedited⟩⟩ :=
      hframes.label_of_mem_section hs hsteps htoken
    · exact ⟨.plain, by decide, hmatched⟩
    · cases side with
      | old => exact ⟨.removed, by decide, rfl, _, hedited⟩
      | new => exact ⟨.added, by decide, rfl, _, hedited⟩
    · exact ⟨.changed, by decide, hedited⟩

theorem tints_pieces (hframes : b.Frames script.oldCount script.newCount s t) (hs : s ∈ script.snakes)
    (hsteps : ∀ step ∈ b.steps, step ∈ script.steps) :
    ∀ piece ∈ b.pieces, script.Tints .context piece := by
  have hsection := tints_section hframes hs hsteps
  have hheading {s : String} (h : Heading .context s) : script.Tints .context (.text s) := tints_text (.heading h)
  rw [Block.pieces]
  simp only [List.forall_mem_append, List.forall_mem_cons, List.not_mem_nil, IsEmpty.forall_iff, implies_true,
    and_true]
  exact ⟨⟨⟨⟨hheading .separator, hheading (.oldRange _ _)⟩, hsection .old⟩, hheading (.newRange _ _)⟩,
    hsection .new⟩

/-! ## The unified style -/

theorem tints_unifiedLines {old new : List (List UInt8)} {steps : List Step} (h : Route old new s steps e)
    (hs : s ∈ script.snakes) (hsteps : ∀ step ∈ steps, step ∈ script.steps) {start stop : Nat}
    (hstart : s.x ≤ start) (hstop : stop ≤ e.u) :
    ∀ piece ∈ unifiedLines start stop steps, script.Tints .unified piece := by
  have hcontext {r : Snake} (hr : r ∈ script.snakes) {i j : Nat} (hi : r.x ≤ i) (hj : j ≤ r.u) :
      script.Tints .unified (.marked " " .old ⟨i, j⟩ true) :=
    tints_marked fun k hk => ⟨.plain, by decide, r, hr, Nat.le_trans hi hk.1, Nat.lt_of_lt_of_le hk.2 hj⟩
  induction h generalizing start with
  | nil _ =>
      rw [unifiedLines, List.forall_mem_singleton]
      exact hcontext hs hstart hstop
  | @cons s t e steps hjoins hgap rest ih =>
      obtain ⟨hstep, hrest⟩ := List.forall_mem_cons.1 hsteps
      have ht := List.mem_of_mem_tail (List.of_mem_zip hstep).2
      have hremoved : script.Tints .unified (.marked "-" .old (Step.gap (s, t)).old true) :=
        tints_marked fun i hi => ⟨.removed, by decide, rfl, exists_isEdited hstep hi⟩
      have hadded : script.Tints .unified (.marked "+" .new (Step.gap (s, t)).new true) :=
        tints_marked fun i hi => ⟨.added, by decide, rfl, exists_isEdited hstep hi⟩
      simp only [unifiedLines, List.forall_mem_append, List.forall_mem_cons, List.not_mem_nil,
        IsEmpty.forall_iff, implies_true, and_true]
      exact ⟨⟨hcontext hs hstart (Nat.le_refl _), hremoved, hadded⟩, ih ht hrest (Nat.le_refl _) hstop⟩

end

/-! ## The whole report -/

/-- Each row of the three styles is to have some tone. -/
theorem Aligns.tints_report {same : Nat → Nat → Bool} (h : script.Aligns same)
    (hformat : format ∈ [Format.normal, .context, .unified]) {context : Nat}
    (hsums : script.SumsFit context) :
    ∀ piece ∈ script.report format context, script.Tints format piece := by
  intro piece hpiece
  obtain ⟨s, -, hlaid⟩ := h.laid_blocks context
  have hsteps {b : Block} (hb : b ∈ script.blocks context) : ∀ step ∈ b.steps, step ∈ script.steps :=
    fun step hstep => flatMap_steps_blocks script context ▸ List.mem_flatMap.2 ⟨b, hb, hstep⟩
  simp only [List.mem_cons, List.not_mem_nil, or_false] at hformat
  rcases hformat with rfl | rfl | rfl
  · obtain ⟨step, hstep, hpiece⟩ := List.mem_flatMap.1 hpiece
    exact tints_normalStep hstep piece hpiece
  · rw [hsums.report_context] at hpiece
    obtain ⟨b, hb, hpiece⟩ := List.mem_flatMap.1 hpiece
    obtain ⟨s, hs, t, hframes⟩ := hlaid.exists_frames hb
    exact tints_pieces hframes hs (hsteps hb) piece hpiece
  · rw [h.report_unified hsums] at hpiece
    obtain ⟨b, hb, hpiece⟩ := List.mem_flatMap.1 hpiece
    obtain ⟨s, hs, t, hframes⟩ := hlaid.exists_frames hb
    rcases List.mem_cons.1 hpiece with rfl | hpiece
    · exact tints_text (.heading (.range _ _ _ _))
    · exact tints_unifiedLines hframes.trail hs (hsteps hb) (hframes.start_mem .old).1
        (hframes.stop_mem .old).2 piece hpiece

end Script

/-- The tones of a report follow the edits, whatever the lines look like. In the styles that show edits line by
line, the report on two texts of whole lines is split into the lines that were written, and the tone found in
each of them is that of its role: a heading, the divider of a change, or a token with its mark, which is matched,
taken out, put in or changed. -/
theorem tones_follow_edits {S T : List UInt8} {old new : Source} (hold : old.Replays S) (hnew : new.Replays T)
    (hS : endsLine S = true) (hT : endsLine T = true) (tuning tuning' : Tuning) :
    ∃ a b, Sequence.ofSource old .line tuning = .ok a ∧ Sequence.ofSource new .line tuning' = .ok b ∧
      ∀ fast search script windows context,
        (a.table.comparison b.table).script fast search (a.window, b.window) = .ok script windows →
        2 * context + a.table.count + b.table.count < Word.modulus →
        ∀ format ∈ [Format.normal, .context, .unified],
        let rows := (script.report format context).flatMap Piece.rows
        ∃ text printer,
          Layout.printAll ⟨a.table, b.table, .raw⟩ (script.report format context) { windows } =
            .ok text printer ∧
          text = rows.flatMap (·.bytes S T) ∧
          textLines text = rows.map (·.text S T) ++ [[]] ∧
          ∀ row ∈ rows, script.Calls format row (format.tone (row.text S T)) := by
  obtain ⟨a, ha, hofA⟩ := Sequence.exists_ofSource hold .line tuning
  obtain ⟨b, hb, hofB⟩ := Sequence.exists_ofSource hnew .line tuning'
  refine ⟨a, b, ha, hb, fun fast search script windows context hscript hword format hformat => ?_⟩
  obtain ⟨hcounts, haligns, hprint⟩ := hofA.report_of_script hofB hscript
  rw [← hcounts.1, ← hcounts.2] at hword
  obtain ⟨printer, hprint⟩ := (hprint .raw format context).1 (haligns.printable_of_lt hword)
  rw [hofA.count_eq, hofB.count_eq] at hcounts
  have htints : ∀ piece ∈ script.report format context, script.Tints format piece :=
    haligns.tints_report hformat (haligns.sumsFit hword)
  have hrows : ∀ row ∈ (script.report format context).flatMap Piece.rows, ∃ tone, script.Calls format row tone ∧
      ∃ body, row.bytes S T = body ++ [10] ∧ 10 ∉ body ∧ format.tone body = tone := by
    intro row hrow
    obtain ⟨piece, hpiece, hrow⟩ := List.mem_flatMap.1 hrow
    obtain ⟨tone, hcalls⟩ := (htints piece hpiece).calls row hrow
    exact ⟨tone, hcalls, hcalls.exists_body haligns hcounts hS hT⟩
  have hterminated : ∀ row ∈ (script.report format context).flatMap Piece.rows,
      Patch.Terminated (row.bytes S T) := by
    intro row hrow
    obtain ⟨-, -, body, hbytes, hfree, -⟩ := hrows row hrow
    exact ⟨body, hbytes, hfree⟩
  have hbytes : (script.report format context).flatMap (·.bytes .line .raw S T) =
      ((script.report format context).flatMap Piece.rows).flatMap (·.bytes S T) := by
    rw [List.flatMap_assoc]
    exact List.flatMap_congr fun piece hpiece => Piece.bytes_rows (htints piece hpiece).lined fun row hrow =>
      hterminated row (List.mem_flatMap.2 ⟨piece, hpiece, hrow⟩)
  refine ⟨_, printer, hprint, hbytes, ?_, fun row hrow => ?_⟩
  · rw [hbytes, textLines_rows hterminated]
  · obtain ⟨tone, hcalls, body, hbody, -, rfl⟩ := hrows row hrow
    rwa [Row.text, hbody, List.dropLast_concat]

/-- The lines that differ are `-- a` and `++ b`, which look like file headers behind their marks. -/
theorem tones_follow_edits_of_bytes : ∃ a b script windows,
    Sequence.ofSource (.ofBytes "old" .raw [45, 45, 32, 97, 10, 120, 10]) .line {} = .ok a ∧
    Sequence.ofSource (.ofBytes "new" .raw [120, 10, 43, 43, 32, 98, 10]) .line {} = .ok b ∧
    endsLine [45, 45, 32, 97, 10, 120, 10] = true ∧ endsLine [120, 10, 43, 43, 32, 98, 10] = true ∧
    (a.table.comparison b.table).script true {} (a.window, b.window) = .ok script windows ∧
    Format.unified ∈ [Format.normal, .context, .unified] ∧
    ∃ text printer,
      Layout.printAll ⟨a.table, b.table, .raw⟩ (script.report .unified 1) { windows } = .ok text printer ∧
      textLines text = ((script.report .unified 1).flatMap Piece.rows).map
        (·.text [45, 45, 32, 97, 10, 120, 10] [120, 10, 43, 43, 32, 98, 10]) ++ [[]] ∧
      ∀ row ∈ (script.report .unified 1).flatMap Piece.rows, script.Calls .unified row
        (Format.unified.tone (row.text [45, 45, 32, 97, 10, 120, 10] [120, 10, 43, 43, 32, 98, 10])) := by
  have hold := Source.replays_ofBytes "old" [45, 45, 32, 97, 10, 120, 10]
  have hnew := Source.replays_ofBytes "new" [120, 10, 43, 43, 32, 98, 10]
  obtain ⟨a, b, ha, hb, hreport⟩ := tones_follow_edits hold hnew rfl rfl {} {}
  have hcount : a.table.count = 2 := (Sequence.of_ofSource hold ha).count_eq
  have hcount' : b.table.count = 2 := (Sequence.of_ofSource hnew hb).count_eq
  obtain ⟨script, windows, hscript⟩ := exists_script_of_replays hold hnew (by decide) true ha hb
  have hword : 2 * 1 + a.table.count + b.table.count < Word.modulus := by
    rw [hcount, hcount']
    decide
  obtain ⟨text, printer, hprint, -, hlines, htones⟩ :=
    hreport true {} script windows 1 hscript hword .unified (by decide)
  exact ⟨a, b, script, windows, ha, hb, rfl, rfl, hscript, by decide, text, printer, hprint, hlines, htones⟩

end TokenDiff
