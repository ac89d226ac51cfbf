import Mathlib.Data.List.SplitBy
import TokenDiff.Proofs.Edit.Script
import TokenDiff.Proofs.Token.Agree
import TokenDiff.Proofs.Token.Sequence
import TokenDiff.Report.Printer

/-!
# The text of a report

What is printed of a piece is a function of the two texts (`Piece.bytes`). A printer whose windows are
somewhere in the texts prints it and has its windows somewhere in the texts again, so what it has printed
before makes no difference (`printAll_ensures`). This asks of a piece that it begins at a token of its side
or at its end, which is true of all pieces of a report on a script that stays within both sequences
(`report_fits`).
-/

namespace TokenDiff

open Window PairM

/-- What belongs to a side. -/
def Side.pick {α : Type} (old new : α) : Side → α
  | .old => old
  | .new => new

@[simp] theorem Side.pick_self {α : Type} (side : Side) (a : α) : side.pick a a = a := by
  cases side <;> rfl

def Policy.spanBytes (p : Policy) (type : LineType) (text : List UInt8) (span : Span) : List UInt8 :=
  type.translate (((p.tokens text).drop span.start).take (span.stop - span.start)).flatten

/-- The bytes that are printed of a piece of a report on texts that are cut under two policies. -/
def Piece.bytesAcross (p q : Policy) (type : LineType) (S T : List UInt8) : Piece → List UInt8
  | .text s | .command s => utf8Bytes s
  | .tokens side span => (side.pick p q).spanBytes type (side.pick S T) span
  | .marked mark side span noted =>
    let texts := (List.range' span.start span.length).map fun i =>
      (side.pick p q).spanBytes type (side.pick S T) ⟨i, i + 1⟩
    texts.flatMap (utf8Bytes mark ++ ·) ++
      if noted && !endsLine (texts.getLastD []) then utf8Bytes Layout.missingNewline else []
  | .overflow => []

abbrev Piece.bytes (p : Policy) : LineType → List UInt8 → List UInt8 → Piece → List UInt8 :=
  Piece.bytesAcross p p

structure MarkedToken where
  mark : String
  side : Side
  index : Nat
deriving DecidableEq, Repr

def Piece.markedTokens : Piece → List MarkedToken
  | .text _ | .command _ | .tokens _ _ | .overflow => []
  | .marked mark side span _ => (List.range' span.start span.length).map (⟨mark, side, ·⟩)

def markedTokens (pieces : List Piece) : List MarkedToken := pieces.flatMap Piece.markedTokens

def MarkedToken.bytes (p : Policy) (type : LineType) (S T : List UInt8) (t : MarkedToken) : List UInt8 :=
  utf8Bytes t.mark ++ p.spanBytes type (t.side.pick S T) ⟨t.index, t.index + 1⟩

/-- The tokens of a piece begin within sequences of `m` and `n` tokens. -/
def Piece.Fits (m n : Nat) : Piece → Prop
  | .text _ | .command _ => True
  | .tokens side span => span.start ≤ side.pick m n
  | .marked _ side span _ => span.stop ≤ side.pick m n
  | .overflow => False

section

variable (p q : Policy) (type : LineType) (S T : List UInt8)

def Printer.Over (printer : Printer) : Prop := BothOver S T printer.windows

theorem tokens_ensures (side : Side) (span : Span)
    (h : span.start ≤ side.pick (p.tokens S).length (q.tokens T).length) :
    Ensures (Printer.Over S T) (fun _ => False)
      (Layout.tokens ⟨p.table S, q.table T, type⟩ side span)
      (· = ((side.pick p q).spanBytes type (side.pick S T) span,
        endsLine ((side.pick p q).spanBytes type (side.pick S T) span))) := by
  rintro ⟨windows, commands⟩ hs
  cases side with
  | old =>
      obtain ⟨windows', hdump, hs'⟩ := (answers_dump p S type span.stop h).onLeft windows hs
      simp only [Layout.tokens, hdump]
      exact ⟨hs', rfl⟩
  | new =>
      obtain ⟨windows', hdump, hs'⟩ := (answers_dump q T type span.stop h).onRight windows hs
      simp only [Layout.tokens, hdump]
      exact ⟨hs', rfl⟩

theorem getLastD_map_endsLine (text : Nat → List UInt8) (indices : List Nat) :
    ((indices.map fun i => (text i, endsLine (text i))).getLastD ([], true)).2 =
      endsLine ((indices.map text).getLastD []) := by
  rw [List.getLastD_eq_getLast?, List.getLastD_eq_getLast?, List.getLast?_map, List.getLast?_map]
  cases indices.getLast? <;> rfl

theorem print_ensures (piece : Piece) (h : piece.Fits (p.tokens S).length (q.tokens T).length) :
    Ensures (Printer.Over S T) (fun _ => False) (Layout.print ⟨p.table S, q.table T, type⟩ piece)
      (· = piece.bytesAcross p q type S T) := by
  cases piece with
  | text s => exact .pure rfl
  | command s => exact fun printer hprinter => ⟨hprinter, rfl⟩
  | tokens side span =>
      refine (tokens_ensures p q type S T side span h).bind ?_
      rintro _ rfl
      exact .pure rfl
  | marked mark side span noted =>
      refine .bind (.mapM fun i hi => tokens_ensures p q type S T side ⟨i, i + 1⟩ ?_) ?_
      · rw [List.mem_range'_1, Span.length] at hi
        have hstop : i ≤ span.stop := by omega
        exact Nat.le_trans hstop h
      · rintro _ rfl
        refine .pure ?_
        rw [Piece.bytesAcross, ← getLastD_map_endsLine, List.flatMap_map, List.flatMap_map]
        rfl
  | overflow => exact h.elim

theorem printAll_ensures (pieces : List Piece)
    (h : ∀ piece ∈ pieces, piece.Fits (p.tokens S).length (q.tokens T).length) :
    Ensures (Printer.Over S T) (fun _ => False) (Layout.printAll ⟨p.table S, q.table T, type⟩ pieces)
      (· = pieces.flatMap (·.bytesAcross p q type S T)) := by
  refine .bind (.mapM fun piece hpiece => print_ensures p q type S T piece (h piece hpiece)) ?_
  rintro texts rfl
  exact .pure (List.flatMap_def ..).symm

/-- Pieces among which there is an overflow, and which are within both sequences otherwise, are not printed. -/
theorem printAll_overflows {pieces : List Piece}
    (h : ∀ piece ∈ pieces, piece = .overflow ∨ piece.Fits (p.tokens S).length (q.tokens T).length)
    (hmem : Piece.overflow ∈ pieces) :
    Ensures (Printer.Over S T) (· = .overflow) (Layout.printAll ⟨p.table S, q.table T, type⟩ pieces)
      fun _ => False := by
  refine .bind (.mapM_forall (P := (· ≠ .overflow)) fun piece hpiece => ?_) fun _ hall =>
    (hall _ hmem rfl).elim
  rcases h piece hpiece with rfl | hfits
  · exact .throw rfl
  · refine ((print_ensures p q type S T piece hfits).weaken fun _ => False.elim).imp ?_
    rintro _ - rfl
    exact hfits

end

/-- Where there is an overflow among the pieces, no text comes of them. -/
theorem overflow_not_mem_of_printAll {layout : Layout} {pieces : List Piece} {printer printer' : Printer}
    {text : List UInt8} (h : layout.printAll pieces printer = .ok text printer') : Piece.overflow ∉ pieces := by
  have hprint (piece : Piece) :
      Ensures (fun _ => True) (fun _ => True) (layout.print piece) fun _ => piece ≠ .overflow := by
    by_cases hpiece : piece = .overflow
    · subst hpiece
      exact .throw trivial
    · intro printer _
      cases layout.print piece printer with
      | ok text printer' => exact ⟨trivial, hpiece⟩
      | error fault printer' => trivial
  have hall : Ensures (fun _ => True) (fun _ => True) (layout.printAll pieces) fun _ =>
      ∀ piece ∈ pieces, piece ≠ .overflow :=
    (Ensures.mapM_forall fun piece _ => hprint piece).bind fun _ hall => .pure hall
  exact fun hmem => (hall.of_ok trivial h).2 _ hmem rfl

/-! ## The pieces of a report -/

structure Snake.Inside (m n : Nat) (s : Snake) : Prop where
  x_le : s.x ≤ m
  u_le : s.u ≤ m
  y_le : s.y ≤ n
  v_le : s.v ≤ n

section

variable {m n : Nat} {piece : Piece}

theorem forall_steps {script : Script} {P : Snake → Prop} (h : ∀ s ∈ script.snakes, P s) :
    ∀ step ∈ script.steps, P step.1 ∧ P step.2 := by
  intro step hstep
  have hmem := List.of_mem_zip hstep
  exact ⟨h _ hmem.1, h _ (List.mem_of_mem_tail hmem.2)⟩

theorem normalStep_fits {step : Step} (h : step.1.Inside m n ∧ step.2.Inside m n) :
    ∀ piece ∈ normalStep step, piece.Fits m n := by
  have hold : Piece.Fits m n (.marked "< " .old (Gap.between step.1 step.2).old false) := h.2.x_le
  have hnew : Piece.Fits m n (.marked "> " .new (Gap.between step.1 step.2).new false) := h.2.y_le
  rw [normalStep]
  cases (Gap.between step.1 step.2).kind? with
  | none => simp
  | some kind =>
      simp only [List.forall_mem_append, List.forall_mem_cons, List.not_mem_nil, IsEmpty.forall_iff,
        implies_true, and_true]
      refine ⟨⟨⟨trivial, hold⟩, ?_⟩, hnew⟩
      split <;> simp [Piece.Fits]

theorem rcsStep_fits {step : Step} (h : step.1.Inside m n ∧ step.2.Inside m n) :
    ∀ piece ∈ rcsStep step, piece.Fits m n := by
  obtain ⟨s, t⟩ := step
  have hnew : Piece.Fits m n (.tokens .new ⟨s.v, t.y⟩) := h.1.v_le
  rw [rcsStep, List.forall_mem_append]
  constructor
  · split <;> simp [Piece.Fits]
  · split
    · rw [List.forall_mem_cons, List.forall_mem_singleton]
      exact ⟨trivial, hnew⟩
    · simp

theorem htmlSnakes_fits {snakes : List Snake} (h : ∀ s ∈ snakes, s.Inside m n) :
    ∀ piece ∈ htmlSnakes snakes, piece.Fits m n := by
  fun_induction htmlSnakes snakes with
  | case1 => simp
  | case2 s =>
      rw [List.forall_mem_singleton]
      exact (h s (List.mem_singleton_self s)).x_le
  | case3 s t snakes ih =>
      obtain ⟨hs, hrest⟩ := List.forall_mem_cons.1 h
      simp only [List.forall_mem_append, List.forall_mem_cons, List.not_mem_nil, IsEmpty.forall_iff,
        implies_true, and_true]
      exact ⟨⟨hs.x_le, trivial, hs.u_le, trivial, hs.v_le, trivial⟩, ih hrest⟩

theorem unifiedLines_fits {start stop : Nat} (hstop : stop ≤ m) {steps : List Step}
    (h : ∀ step ∈ steps, step.1.Inside m n ∧ step.2.Inside m n) :
    ∀ piece ∈ unifiedLines start stop steps, piece.Fits m n := by
  fun_induction unifiedLines start stop steps with
  | case1 start =>
      rw [List.forall_mem_singleton]
      exact hstop
  | case2 start s t steps ih =>
      obtain ⟨hstep, hrest⟩ := List.forall_mem_cons.1 h
      simp only [List.forall_mem_append, List.forall_mem_cons, List.not_mem_nil, IsEmpty.forall_iff,
        implies_true, and_true]
      exact ⟨⟨hstep.1.u_le, hstep.2.x_le, hstep.2.y_le⟩, ih hrest⟩

theorem contextLines_fits {side : Side} {start stop : Nat} (hstop : stop ≤ side.pick m n)
    {edits : List (Span × String)}
    (h : ∀ edit ∈ edits, edit.1.start ≤ side.pick m n ∧ edit.1.stop ≤ side.pick m n) :
    ∀ piece ∈ contextLines side start stop edits, piece.Fits m n := by
  fun_induction contextLines side start stop edits with
  | case1 start =>
      rw [List.forall_mem_singleton]
      exact hstop
  | case2 start span mark edits ih =>
      obtain ⟨hedit, hrest⟩ := List.forall_mem_cons.1 h
      simp only [List.forall_mem_append, List.forall_mem_cons, List.not_mem_nil, IsEmpty.forall_iff,
        implies_true, and_true]
      exact ⟨⟨hedit.1, hedit.2⟩, ih hrest⟩

theorem contextHunk_fits {extent : Extent} (hold : extent.old.stop ≤ m) (hnew : extent.new.stop ≤ n)
    {steps : List Step} (h : ∀ step ∈ steps, step.1.Inside m n ∧ step.2.Inside m n) :
    ∀ piece ∈ contextHunk extent steps, piece.Fits m n := by
  have hside (side : Side) (span : Span) (here there : Gap → Span) (mark : String)
      (hstop : span.stop ≤ side.pick m n)
      (hhere : ∀ step ∈ steps, (here (Gap.between step.1 step.2)).start ≤ side.pick m n ∧
        (here (Gap.between step.1 step.2)).stop ≤ side.pick m n) :
      ∀ piece ∈ contextSide side span (markedEdits here there mark steps), piece.Fits m n := by
    unfold contextSide
    split
    · simp
    · refine contextLines_fits hstop fun edit hedit => ?_
      obtain ⟨gap, hgap, rfl⟩ := List.mem_map.1 hedit
      obtain ⟨step, hstep, rfl⟩ := List.mem_map.1 (List.mem_of_mem_filter hgap)
      exact hhere step hstep
  have hleft := hside .old extent.old Gap.old Gap.new "- " hold fun step hstep =>
    ⟨(h step hstep).1.u_le, (h step hstep).2.x_le⟩
  have hright := hside .new extent.new Gap.new Gap.old "+ " hnew fun step hstep =>
    ⟨(h step hstep).1.v_le, (h step hstep).2.y_le⟩
  rw [contextHunk]
  simp only [List.forall_mem_append, List.forall_mem_cons, List.not_mem_nil, IsEmpty.forall_iff,
    implies_true, and_true]
  exact ⟨⟨⟨⟨trivial, trivial⟩, hleft⟩, trivial⟩, hright⟩

theorem ne_nil_of_mem_hunks {script : Script} {context : Nat} {hunk : List Step}
    (h : hunk ∈ script.hunks context) : hunk ≠ [] :=
  List.ne_nil_of_mem_splitBy h

theorem flatten_hunks (script : Script) (context : Nat) : (script.hunks context).flatten = script.steps :=
  List.flatten_splitBy _ _

theorem mem_steps_of_mem_hunks {script : Script} {context : Nat} {hunk : List Step} {step : Step}
    (hhunk : hunk ∈ script.hunks context) (hstep : step ∈ hunk) : step ∈ script.steps := by
  rw [← flatten_hunks script context]
  exact List.mem_flatten.2 ⟨hunk, hhunk, hstep⟩

/-- All sums that make the hunks of a script are counters. -/
def Script.SumsFit (script : Script) (context : Nat) : Prop :=
  ∀ hunk ∈ script.hunks context, sumsFit context hunk = true

theorem Script.SumsFit.renderHunks_eq {script : Script} {context : Nat} (h : script.SumsFit context)
    (render : Extent → List Step → List Piece) :
    script.renderHunks context render = (script.hunks context).flatMap fun steps =>
      match steps.head?, steps.getLast? with
      | some first, some last =>
        render (Extent.around context script.oldCount script.newCount first.1 last.2) steps
      | _, _ => [] := by
  refine List.flatMap_congr fun hunk hhunk => ?_
  rw [h hunk hhunk]
  rfl

/-- A hunk whose sums do not fit shows in any report. -/
theorem Script.sumsFit_of_renderHunks {script : Script} {context : Nat}
    {render : Extent → List Step → List Piece} (h : Piece.overflow ∉ script.renderHunks context render) :
    script.SumsFit context := by
  intro hunk hhunk
  by_contra hsums
  have hne := ne_nil_of_mem_hunks hhunk
  refine h (List.mem_flatMap.2 ⟨hunk, hhunk, ?_⟩)
  rw [List.head?_eq_some_head hne, List.getLast?_eq_some_getLast hne]
  dsimp only
  rw [if_neg hsums]
  exact List.mem_singleton_self _

/-- The pieces of a report in hunks are those of its hunks, but for the hunks whose sums do not fit. -/
theorem renderHunks_fits {script : Script} {context : Nat} {render : Extent → List Step → List Piece}
    (h : ∀ s ∈ script.snakes, s.Inside m n)
    (hrender : ∀ extent steps, extent.old.stop ≤ script.oldCount → extent.new.stop ≤ script.newCount →
      (∀ step ∈ steps, step.1.Inside m n ∧ step.2.Inside m n) →
      ∀ piece ∈ render extent steps, piece.Fits m n) :
    ∀ piece ∈ script.renderHunks context render,
      piece = .overflow ∧ ¬ script.SumsFit context ∨ piece.Fits m n := by
  intro piece hpiece
  obtain ⟨hunk, hhunk, hpiece⟩ := List.mem_flatMap.1 hpiece
  split at hpiece
  · split at hpiece
    · exact .inr (hrender _ hunk (Nat.min_le_right _ _) (Nat.min_le_right _ _)
        (fun step hstep => forall_steps h step (mem_steps_of_mem_hunks hhunk hstep)) piece hpiece)
    · rename_i hsums
      exact .inl ⟨List.mem_singleton.1 hpiece, fun hfit => hsums (hfit hunk hhunk)⟩
  · cases hpiece

/-- The pieces of a report on a script that stays within both sequences are within them, too, but for the hunks
whose sums do not fit. -/
theorem report_fits {script : Script} (h : ∀ s ∈ script.snakes, s.Inside script.oldCount script.newCount)
    (format : Format) (context : Nat) :
    ∀ piece ∈ script.report format context,
      piece = .overflow ∧ format ∈ [Format.context, .unified] ∧ ¬ script.SumsFit context ∨
        piece.Fits script.oldCount script.newCount := by
  cases format with
  | normal =>
      intro piece hpiece
      obtain ⟨step, hstep, hpiece⟩ := List.mem_flatMap.1 hpiece
      exact .inr (normalStep_fits (forall_steps h step hstep) piece hpiece)
  | context =>
      intro piece hpiece
      have hfits := renderHunks_fits h (fun extent steps hold hnew hsteps =>
        contextHunk_fits hold hnew hsteps) piece hpiece
      exact hfits.imp_left fun hoverflow => ⟨hoverflow.1, by decide, hoverflow.2⟩
  | unified =>
      intro piece hpiece
      have hfits := renderHunks_fits h (fun extent steps hold hnew hsteps => by
        rw [unifiedHunk, List.forall_mem_cons]
        exact ⟨trivial, unifiedLines_fits hold hsteps⟩) piece hpiece
      exact hfits.imp_left fun hoverflow => ⟨hoverflow.1, by decide, hoverflow.2⟩
  | rcs =>
      intro piece hpiece
      obtain ⟨step, hstep, hpiece⟩ := List.mem_flatMap.1 hpiece
      exact .inr (rcsStep_fits (forall_steps h step hstep) piece hpiece)
  | html => exact fun piece hpiece => .inr (htmlSnakes_fits h piece hpiece)
  | summary =>
      intro piece hpiece
      rw [List.mem_singleton.1 hpiece]
      exact .inr trivial

end

/-! ## Reports that can be printed -/

/-- No sum of the report is beyond the largest counter. -/
def Script.Printable (script : Script) (format : Format) (context : Nat) : Prop :=
  Piece.overflow ∉ script.report format context

theorem Script.Aligns.inside_counts {same : Nat → Nat → Bool} {script : Script} (h : script.Aligns same) :
    ∀ s ∈ script.snakes, s.Inside script.oldCount script.newCount := by
  intro s hs
  obtain ⟨hold, hnew, -⟩ := h.inside s hs
  exact ⟨Nat.le_trans hold.1 hold.2, hold.2, Nat.le_trans hnew.1 hnew.2, hnew.2⟩

namespace Script

variable {same : Nat → Nat → Bool} {script : Script} {format : Format} {context : Nat}

/-- Only the sums of the hunks can be in the way of a report. -/
theorem Aligns.printable_iff (h : script.Aligns same) :
    script.Printable format context ↔ (format ∈ [Format.context, .unified] → script.SumsFit context) := by
  constructor
  · intro hprintable hformat
    cases format with
    | context => exact sumsFit_of_renderHunks hprintable
    | unified => exact sumsFit_of_renderHunks hprintable
    | normal | rcs | html | summary => simp at hformat
  · intro hsums hmem
    rcases report_fits h.inside_counts format context _ hmem with ⟨-, hformat, hoverflow⟩ | hfits
    · exact hoverflow (hsums hformat)
    · exact hfits

/-- Twice the width of the context and the tokens of both sequences are a counter together, so all sums are. -/
theorem Aligns.sumsFit (h : script.Aligns same)
    (hword : 2 * context + script.oldCount + script.newCount < Word.modulus) : script.SumsFit context := by
  intro hunk hhunk
  have hinside : ∀ step ∈ hunk, step.2.Inside script.oldCount script.newCount := fun step hstep =>
    (forall_steps h.inside_counts step (mem_steps_of_mem_hunks hhunk hstep)).2
  rw [TokenDiff.sumsFit, Bool.and_eq_true, List.all_eq_true, Option.all_eq_true]
  constructor
  · intro step hstep
    have hx := (hinside step (List.dropLast_subset _ hstep)).x_le
    rw [decide_eq_true_iff]
    omega
  · intro step hstep
    have hx := (hinside step (List.mem_of_getLast? hstep)).x_le
    have hy := (hinside step (List.mem_of_getLast? hstep)).y_le
    rw [Bool.and_eq_true, decide_eq_true_iff, decide_eq_true_iff]
    omega

theorem Aligns.printable_of_lt (h : script.Aligns same)
    (hword : 2 * context + script.oldCount + script.newCount < Word.modulus) : script.Printable format context :=
  h.printable_iff.2 fun _ => h.sumsFit hword

end Script

/-! ## Reports on the script of two texts -/

section

variable {p q : Policy} {S T : List UInt8} {script : Script}

/-- A script that has been found on texts under two policies is settled, and the windows are somewhere in the
texts again. -/
theorem settled_of_script_across {fast : Bool} {tuning : Tuning} {windows windows' : Window × Window}
    (hover : BothOver S T windows)
    (h : ((p.table S).comparison (q.table T)).script fast tuning windows = .ok script windows') :
    BothOver S T windows' ∧
      (script.oldCount = (p.tokens S).length ∧ script.newCount = (q.tokens T).length) ∧
      Settled (p.sameAtAcross q S T) (p.tokens S).length (q.tokens T).length 0 0 script.snakes := by
  obtain ⟨hover', hcounts, hsettled, -⟩ :=
    (script_ensures ((comparison_decides_across p q S T).weaken fun _ _ => trivial)
      fun _ _ _ _ => trivial).of_ok hover h
  change script.oldCount = (p.table S).count ∧ script.newCount = (q.table T).count at hcounts
  change Settled _ (p.table S).count (q.table T).count 0 0 _ at hsettled
  rw [count_table, count_table] at hcounts hsettled
  exact ⟨hover', hcounts, hsettled⟩

theorem settled_of_script {fast : Bool} {tuning : Tuning} {windows windows' : Window × Window}
    (hover : BothOver S T windows)
    (h : ((p.table S).comparison (p.table T)).script fast tuning windows = .ok script windows') :
    BothOver S T windows' ∧
      (script.oldCount = (p.tokens S).length ∧ script.newCount = (p.tokens T).length) ∧
      Settled (p.sameAt S T) (p.tokens S).length (p.tokens T).length 0 0 script.snakes :=
  settled_of_script_across hover h

/-- A script that has been found leads through the tokens of texts under two policies, and the windows are
somewhere in the texts again. -/
theorem aligns_of_script_across {fast : Bool} {tuning : Tuning} {windows windows' : Window × Window}
    (hover : BothOver S T windows)
    (h : ((p.table S).comparison (q.table T)).script fast tuning windows = .ok script windows') :
    BothOver S T windows' ∧
      (script.oldCount = (p.tokens S).length ∧ script.newCount = (q.tokens T).length) ∧
      script.Aligns (p.sameAtAcross q S T) := by
  obtain ⟨hover', hcounts, hsettled⟩ := settled_of_script_across hover h
  refine ⟨hover', hcounts, ?_⟩
  rw [← count_table p S, ← count_table q T] at hcounts hsettled
  exact hsettled.aligns (c := (p.table S).comparison (q.table T)) hcounts

/-- A script that has been found leads through the tokens of both texts, and the windows are somewhere in the
texts again. -/
theorem aligns_of_script {fast : Bool} {tuning : Tuning} {windows windows' : Window × Window}
    (hover : BothOver S T windows)
    (h : ((p.table S).comparison (p.table T)).script fast tuning windows = .ok script windows') :
    BothOver S T windows' ∧
      (script.oldCount = (p.tokens S).length ∧ script.newCount = (p.tokens T).length) ∧
      script.Aligns (p.sameAt S T) :=
  aligns_of_script_across hover h

/-- Two texts have a script under any tuning that always allows for a round. -/
theorem exists_script_of_replays {old new : Source} (hold : old.Replays S) (hnew : new.Replays T)
    {tuning : Tuning} (hround : 0 < tuning.minDepth) (fast : Bool) {a b : Sequence}
    (ha : Sequence.ofSource old p tuning = .ok a) (hb : Sequence.ofSource new q tuning = .ok b) :
    ∃ script windows,
      (a.table.comparison b.table).script fast tuning (a.window, b.window) = .ok script windows := by
  obtain ⟨⟨table, w⟩, ha', rfl, hw⟩ := Sequence.exists_ofSource hold p tuning
  obtain ⟨⟨table, w'⟩, hb', rfl, hw'⟩ := Sequence.exists_ofSource hnew q tuning
  obtain rfl := Except.ok.inj (ha.symm.trans ha')
  obtain rfl := Except.ok.inj (hb.symm.trans hb')
  exact exists_script (comparison_decides_across p q S T)
    (fun _ _ => Nat.lt_of_lt_of_le hround (Tuning.minDepth_le_maxDepth tuning _ _ fast)) ⟨hw, hw'⟩

/-- A report on a script of texts under two policies is printed as far as it can be, and its text is that of its
pieces. -/
theorem printReport_ensures_across (type : LineType)
    (hcounts : script.oldCount = (p.tokens S).length ∧ script.newCount = (q.tokens T).length)
    (h : script.Aligns (p.sameAtAcross q S T)) {format : Format} {context : Nat}
    (hprintable : script.Printable format context) :
    Ensures (Printer.Over S T) (fun _ => False)
      (Layout.printAll ⟨p.table S, q.table T, type⟩ (script.report format context))
      (· = (script.report format context).flatMap (·.bytesAcross p q type S T)) := by
  refine printAll_ensures p q type S T _ fun piece hpiece => ?_
  rw [← hcounts.1, ← hcounts.2]
  refine (report_fits h.inside_counts format context piece hpiece).resolve_left ?_
  rintro ⟨rfl, -⟩
  exact hprintable hpiece

theorem printReport_overflows_across (type : LineType)
    (hcounts : script.oldCount = (p.tokens S).length ∧ script.newCount = (q.tokens T).length)
    (h : script.Aligns (p.sameAtAcross q S T)) {format : Format} {context : Nat}
    (hprintable : ¬ script.Printable format context) :
    Ensures (Printer.Over S T) (· = .overflow)
      (Layout.printAll ⟨p.table S, q.table T, type⟩ (script.report format context)) fun _ => False := by
  refine printAll_overflows p q type S T (fun piece hpiece => ?_) (not_not.1 hprintable)
  rw [← hcounts.1, ← hcounts.2]
  exact (report_fits h.inside_counts format context piece hpiece).imp_left And.left

/-- A script of two sequences leads through their tokens, and every report on it that can be printed is printed. One
that cannot be printed stops at the overflow. -/
theorem Sequence.Of.report_of_script {a b : Sequence} (ha : a.Of p S) (hb : b.Of p T) {fast : Bool}
    {tuning : Tuning} {windows : Window × Window}
    (h : (a.table.comparison b.table).script fast tuning (a.window, b.window) = .ok script windows) :
    (script.oldCount = a.table.count ∧ script.newCount = b.table.count) ∧ script.Aligns (p.sameAt S T) ∧
      ∀ type format context,
        (script.Printable format context → ∃ printer,
          Layout.printAll ⟨a.table, b.table, type⟩ (script.report format context) { windows } =
            .ok ((script.report format context).flatMap (·.bytes p type S T)) printer) ∧
        (¬ script.Printable format context → ∃ printer,
          Layout.printAll ⟨a.table, b.table, type⟩ (script.report format context) { windows } =
            .error .overflow printer) := by
  rw [ha.table, hb.table] at h
  obtain ⟨hover, hcounts, haligns⟩ := aligns_of_script ⟨ha.window, hb.window⟩ h
  rw [ha.count_eq, hb.count_eq, ha.table, hb.table]
  refine ⟨hcounts, haligns, fun type format context => ⟨fun hprintable => ?_, fun hprintable => ?_⟩⟩
  · obtain ⟨text, printer, hprint, -, rfl⟩ :=
      (printReport_ensures_across type hcounts haligns hprintable).exists_ok (s := { windows }) hover
    exact ⟨printer, hprint⟩
  · obtain ⟨fault, printer, hprint, rfl⟩ :=
      (printReport_overflows_across type hcounts haligns hprintable).exists_error (s := { windows }) hover
    exact ⟨printer, hprint⟩

end

end TokenDiff
