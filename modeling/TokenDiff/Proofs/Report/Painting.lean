import Mathlib.Data.List.Forall2
import TokenDiff.Proofs.Charset.Utf8
import TokenDiff.Proofs.Report.Palette
import TokenDiff.Proofs.Text.Decimal

/-!
# Painting only decorates

A painted report has the lines of the report (`textLines_paint`): nothing that is written around a line or in
place of a part of it holds a line feed. A line without a tone is copied, whatever bytes it has. Any other line
is repaired first, which changes no text in UTF-8, and then stands between the code of its colour and the one
that ends it. So a report of characters comes back when the codes are taken out (`eraseCodes_paint`).

The lines of such a report are characters themselves, since no byte of a longer sequence is a line feed
(`textLines_inUtf8`).
-/

namespace TokenDiff

/-! ## Lines -/

def textLines (text : List UInt8) : List (List UInt8) := text.splitOn 10

/-- Whatever holds of what follows the last separator, and of a list with one more piece and its separator in
front, holds of every list. -/
theorem forall_of_separated {α : Type} (x : α) {P : List α → Prop} (last : ∀ l, x ∉ l → P l)
    (piece : ∀ l rest, x ∉ l → P rest → P (l ++ x :: rest)) (l : List α) : P l := by
  induction hlen : l.length using Nat.strong_induction_on generalizing l with
  | _ n ih =>
      by_cases hx : x ∈ l
      · obtain ⟨first, rest, rfl, hfirst⟩ := List.eq_append_cons_of_mem hx
        refine piece first rest hfirst (ih rest.length ?_ rest rfl)
        rw [List.length_append, List.length_cons] at hlen
        omega
      · exact last l hx

section

variable {line text : List UInt8}

theorem textLines_of_not_mem (h : 10 ∉ line) : textLines line = [line] :=
  List.splitOn_eq_singleton h

theorem textLines_append (h : 10 ∉ line) (text : List UInt8) :
    textLines (line ++ 10 :: text) = line :: textLines text :=
  List.splitOn_append_cons_self_of_not_mem h text

end

/-! ## Lines of characters -/

theorem inUtf8_append (cs ds : List Char) : inUtf8 (cs ++ ds) = inUtf8 cs ++ inUtf8 ds := List.flatMap_append

/-- No byte of a character is a line feed, unless it is the only one. -/
theorem eq_newline_of_mem_encode {c : Char} (h : 10 ∈ String.utf8EncodeChar c) : c = '\n' := by
  have hvalue : c.val.toNat = 10 := by
    unfold String.utf8EncodeChar at h
    generalize c.val.toNat = v at h
    dsimp only at h
    repeat' split at h
    all_goals
      simp only [List.mem_cons, List.not_mem_nil, or_false, ← UInt8.toNat_inj, UInt8.toNat_ofNat',
        UInt8.reduceToNat] at h
      omega
  exact Char.ext (UInt32.toNat_inj.1 hvalue)

theorem textLines_inUtf8 (cs : List Char) : textLines (inUtf8 cs) = (cs.splitOn '\n').map inUtf8 := by
  have hfree (cs : List Char) (h : '\n' ∉ cs) : 10 ∉ inUtf8 cs := by
    intro hmem
    obtain ⟨c, hc, hmem⟩ := List.mem_flatMap.1 hmem
    exact h (eq_newline_of_mem_encode hmem ▸ hc)
  induction cs using forall_of_separated '\n' with
  | last cs h => rw [textLines_of_not_mem (hfree cs h), List.splitOn_eq_singleton h, List.map_singleton]
  | piece cs rest h ih =>
      have hbyte : inUtf8 ('\n' :: rest) = 10 :: inUtf8 rest := rfl
      rw [inUtf8_append, hbyte, textLines_append (hfree cs h), ih,
        List.splitOn_append_cons_self_of_not_mem h, List.map_cons]

theorem IsUtf8.of_mem_textLines {text line : List UInt8} (h : IsUtf8 text) (hline : line ∈ textLines text) :
    IsUtf8 line := by
  obtain ⟨cs, rfl⟩ := h
  rw [textLines_inUtf8] at hline
  obtain ⟨cs, -, rfl⟩ := List.mem_map.1 hline
  exact ⟨cs, rfl⟩

/-! ## Repairing -/

/-- Bytes that lead to the end of a character are left as they are. Within a sequence some of its bytes are held
back. -/
theorem repairFrom_of_accepts {s : Utf8Check} {held text : List UInt8} (h : s.Accepts text)
    (hheld : s.pending = 0 → held = []) : repairFrom s held text = held.reverse ++ text := by
  induction text generalizing s held with
  | nil => rw [hheld (Utf8Check.accepts_nil.1 h)]; rfl
  | cons b text ih =>
      obtain ⟨t, hstep, ht⟩ := h.exists_step
      rw [repairFrom, hstep]
      dsimp only
      split
      · rename_i hpending
        -- a character is complete, and what follows is checked from the start
        have hfresh : Utf8Check.Accepts {} text :=
          (Utf8Check.accepts_iff rfl).2 ((Utf8Check.accepts_iff hpending).1 ht)
        rw [ih hfresh fun _ => rfl]
        rfl
      · rename_i hpending
        rw [ih ht fun h => absurd h hpending, List.reverse_cons, List.append_assoc]
        rfl

theorem IsUtf8.repairUtf8_eq {text : List UInt8} (h : IsUtf8 text) : repairUtf8 text = text :=
  repairFrom_of_accepts ((Utf8Check.accepts_iff rfl).2 h) fun _ => rfl

/-- Repairing puts no line feed into a text. -/
theorem lineFeed_not_mem_repairFrom {s : Utf8Check} {held text : List UInt8} (hheld : 10 ∉ held)
    (h : 10 ∉ text) : 10 ∉ repairFrom s held text := by
  have hreplacement : 10 ∉ replacement := by decide
  have hnil : (10 : UInt8) ∉ [] := List.not_mem_nil
  fun_induction repairFrom s held text with
  | case1 => exact hnil
  | case2 => exact hreplacement
  | case3 s held b text s' hstep hpending ih =>
      rw [List.mem_cons, not_or] at h
      simp only [List.mem_append, List.mem_reverse, List.mem_cons, hheld, h.1, ih hnil h.2, or_self,
        not_false_eq_true]
  | case4 s held b text s' hstep hpending ih =>
      rw [List.mem_cons, not_or] at h
      exact ih (List.not_mem_cons_of_ne_of_not_mem h.1 hheld) h.2
  | case5 s held b text hstep hagain hempty ih =>
      rw [List.mem_cons, not_or] at h
      simp only [List.mem_append, hreplacement, ih hnil h.2, or_self, not_false_eq_true]
  | case6 s held b text hstep hagain hempty ih =>
      rw [List.mem_cons, not_or] at h
      simp only [List.mem_append, hreplacement, ih hnil h.2, or_self, not_false_eq_true]
  | case7 s held b text hstep s' hagain hpending ih =>
      rw [List.mem_cons, not_or] at h
      simp only [List.mem_append, List.mem_cons, hreplacement, h.1, ih hnil h.2, or_self, not_false_eq_true]
  | case8 s held b text hstep s' hagain hpending ih =>
      rw [List.mem_cons, not_or] at h
      simp only [List.mem_append, hreplacement, ih (List.not_mem_cons_of_ne_of_not_mem h.1 hnil) h.2, or_self,
        not_false_eq_true]

theorem lineFeed_not_mem_repairUtf8 {text : List UInt8} (h : 10 ∉ text) : 10 ∉ repairUtf8 text :=
  lineFeed_not_mem_repairFrom List.not_mem_nil h

/-! ## Painting line by line -/

theorem Format.lineFeed_not_mem_paintLine (format : Format) {line : List UInt8} (h : 10 ∉ line) :
    10 ∉ format.paintLine line := by
  unfold paintLine
  split
  · exact h
  · rename_i colour _
    have hopening := colour.lineFeed_not_mem_opening
    simp only [Colour.apply, List.mem_append, not_or]
    exact ⟨⟨hopening, lineFeed_not_mem_reopen hopening (lineFeed_not_mem_repairUtf8 h)⟩, by decide⟩

theorem Format.paintLine_nil (format : Format) : format.paintLine [] = [] := by
  cases format <;> rfl

theorem paintFrom_append (format : Format) (held : List UInt8) {line : List UInt8} (h : 10 ∉ line)
    (text : List UInt8) : paintFrom format held (line ++ 10 :: text) =
      format.paintLine (held.reverse ++ line) ++ 10 :: paint format text := by
  induction line generalizing held with
  | nil =>
      rw [List.append_nil]
      rfl
  | cons b line ih =>
      rw [List.mem_cons, not_or] at h
      rw [List.cons_append, paintFrom, if_neg fun hb => h.1 hb.symm, ih _ h.2, List.reverse_cons,
        List.append_assoc]
      rfl

theorem paintFrom_of_not_mem (format : Format) (held : List UInt8) {line : List UInt8} (h : 10 ∉ line) :
    paintFrom format held line = format.paintLine (held.reverse ++ line) := by
  induction line generalizing held with
  | nil =>
      cases held with
      | nil => exact (format.paintLine_nil).symm
      | cons b held =>
          rw [List.append_nil]
          rfl
  | cons b line ih =>
      rw [List.mem_cons, not_or] at h
      rw [paintFrom, if_neg fun hb => h.1 hb.symm, ih _ h.2, List.reverse_cons, List.append_assoc]
      rfl

theorem paint_of_not_mem (format : Format) {line : List UInt8} (h : 10 ∉ line) :
    paint format line = format.paintLine line := paintFrom_of_not_mem format [] h

theorem paint_append (format : Format) {line : List UInt8} (h : 10 ∉ line) (text : List UInt8) :
    paint format (line ++ 10 :: text) = format.paintLine line ++ 10 :: paint format text :=
  paintFrom_append format [] h text

/-- The lines of a painted report are the lines of the report, each painted by itself. -/
theorem textLines_paint (format : Format) (text : List UInt8) :
    textLines (paint format text) = (textLines text).map format.paintLine := by
  induction text using forall_of_separated (10 : UInt8) with
  | last line h =>
      rw [paint_of_not_mem format h, textLines_of_not_mem (format.lineFeed_not_mem_paintLine h),
        textLines_of_not_mem h, List.map_singleton]
  | piece line text h ih =>
      rw [paint_append format h, textLines_append (format.lineFeed_not_mem_paintLine h), ih, textLines_append h,
        List.map_cons]

/-! ## Codes -/

/-- A sequence that sets or ends a colour: `ESC [`, some digits, and an `m`. -/
def IsCode (code : List UInt8) : Prop :=
  ∃ digits, digits ≠ [] ∧ (∀ b ∈ digits, isDigitByte b = true) ∧ code = [27, 91] ++ digits ++ [109]

/-- What follows a code at the start of a text. -/
def afterCode? (text : List UInt8) : Option (List UInt8) :=
  match text with
  | 27 :: 91 :: text =>
    if text.takeWhile isDigitByte = [] then none
    else
      match text.dropWhile isDigitByte with
      | 109 :: rest => some rest
      | _ => none
  | _ => none

theorem afterCode?_eq_some {text rest : List UInt8} (h : afterCode? text = some rest) :
    ∃ code, IsCode code ∧ text = code ++ rest := by
  unfold afterCode? at h
  split at h
  · rename_i text
    split at h
    · cases h
    · rename_i hdigits
      split at h
      · rename_i rest' hrest
        obtain rfl := Option.some.inj h
        refine ⟨_, ⟨text.takeWhile isDigitByte, hdigits, fun b => List.mem_takeWhile_imp, rfl⟩, ?_⟩
        have hsplit : text.takeWhile isDigitByte ++ text.dropWhile isDigitByte = text :=
          List.takeWhile_append_dropWhile
        rw [hrest] at hsplit
        rw [List.append_assoc, List.append_assoc, List.singleton_append, hsplit]
        rfl
      · cases h
  · cases h

theorem afterCode?_code {code : List UInt8} (h : IsCode code) (text : List UInt8) :
    afterCode? (code ++ text) = some text := by
  obtain ⟨digits, hne, hdigits, rfl⟩ := h
  have hletter : isDigitByte 109 = false := by decide
  simp only [List.cons_append, List.nil_append, List.append_assoc, afterCode?]
  rw [List.takeWhile_append_of_pos hdigits, List.dropWhile_append_of_pos hdigits,
    List.takeWhile_cons_of_neg (by simp [hletter]), List.dropWhile_cons_of_neg (by simp [hletter]),
    List.append_nil, if_neg hne]
  rfl

def eraseCodes (text : List UInt8) : List UInt8 :=
  match _h : afterCode? text with
  | some rest => eraseCodes rest
  | none =>
    match text with
    | [] => []
    | b :: text => b :: eraseCodes text
termination_by text.length
decreasing_by
  · obtain ⟨code, ⟨digits, -, -, rfl⟩, rfl⟩ := afterCode?_eq_some _h
    simp
    omega
  · exact Nat.lt_succ_self _

theorem eraseCodes_code {code : List UInt8} (h : IsCode code) (text : List UInt8) :
    eraseCodes (code ++ text) = eraseCodes text := by
  rw [eraseCodes]
  split
  · rename_i rest hrest
    rw [afterCode?_code h] at hrest
    rw [Option.some.inj hrest]
  · rename_i hnone
    rw [afterCode?_code h] at hnone
    cases hnone

theorem eraseCodes_append {line : List UInt8} (h : 27 ∉ line) (text : List UInt8) :
    eraseCodes (line ++ text) = line ++ eraseCodes text := by
  induction line with
  | nil => rfl
  | cons b line ih =>
      rw [List.mem_cons, not_or] at h
      -- a code begins with another byte
      have hnone : afterCode? (b :: (line ++ text)) = none := by
        refine Option.eq_none_iff_forall_ne_some.2 fun rest hrest => ?_
        obtain ⟨code, ⟨digits, -, -, rfl⟩, hcode⟩ := afterCode?_eq_some hrest
        exact h.1 (List.cons.inj hcode).1.symm
      rw [List.cons_append, eraseCodes, List.cons_append, ← ih h.2]
      split
      · rename_i rest hrest
        rw [hnone] at hrest
        cases hrest
      · rfl

theorem eraseCodes_nil : eraseCodes [] = [] := by
  rw [eraseCodes]
  rfl

theorem isCode_opening (colour : Colour) : IsCode colour.opening := by
  cases colour with
  | bold => exact ⟨[49], by decide, by simp [isDigitByte], rfl⟩
  | red => exact ⟨[51, 49], by decide, by simp [isDigitByte], rfl⟩
  | green => exact ⟨[51, 50], by decide, by simp [isDigitByte], rfl⟩
  | yellow => exact ⟨[51, 51], by decide, by simp [isDigitByte], rfl⟩
  | cyan => exact ⟨[51, 54], by decide, by simp [isDigitByte], rfl⟩

theorem isCode_reset : IsCode colourReset := ⟨[48], by decide, by simp [isDigitByte], rfl⟩

/-! ## Reports without codes of their own -/

/-- A line between the codes of its tone, or as it is if it has none. -/
def Tone.decorate (tone : Tone) (line : List UInt8) : List UInt8 :=
  match tone.colour? with
  | none => line
  | some colour => colour.opening ++ line ++ colourReset

theorem Format.paintLine_eq (format : Format) {line : List UInt8} (hchars : IsUtf8 line) (hfree : 27 ∉ line) :
    format.paintLine line = (format.tone line).decorate line := by
  rw [paintLine, Tone.decorate]
  cases (format.tone line).colour? with
  | none => rfl
  | some colour => simp only [Colour.apply, hchars.repairUtf8_eq, reopen_of_not_mem hfree]

theorem eraseCodes_decorate (tone : Tone) {line : List UInt8} (h : 27 ∉ line) (text : List UInt8) :
    eraseCodes (tone.decorate line ++ text) = line ++ eraseCodes text := by
  rw [Tone.decorate]
  cases tone.colour? with
  | none => exact eraseCodes_append h text
  | some colour =>
      simp only [List.append_assoc]
      rw [eraseCodes_code (isCode_opening colour), eraseCodes_append h, eraseCodes_code isCode_reset]

/-- A report whose lines are characters without an `ESC` comes back from its painted form. -/
theorem eraseCodes_paint (format : Format) (text : List UInt8)
    (h : ∀ line ∈ textLines text, IsUtf8 line ∧ 27 ∉ line) : eraseCodes (paint format text) = text := by
  induction text using forall_of_separated (10 : UInt8) with
  | last line hline =>
      rw [textLines_of_not_mem hline, List.forall_mem_singleton] at h
      have herase := eraseCodes_decorate (format.tone line) h.2 []
      rw [List.append_nil, eraseCodes_nil, List.append_nil, ← format.paintLine_eq h.1 h.2] at herase
      rw [paint_of_not_mem format hline, herase]
  | piece line text hline ih =>
      rw [textLines_append hline, List.forall_mem_cons] at h
      have hfeed : 27 ∉ [(10 : UInt8)] := by decide
      rw [paint_append format hline, format.paintLine_eq h.1.1 h.1.2, eraseCodes_decorate _ h.1.2,
        ← List.singleton_append, eraseCodes_append hfeed, ih h.2, List.singleton_append]

theorem mem_of_mem_textLines {text line : List UInt8} (hline : line ∈ textLines text) {b : UInt8} (hb : b ∈ line) :
    b ∈ text := by
  induction text using forall_of_separated (10 : UInt8) with
  | last text h =>
      rw [textLines_of_not_mem h, List.mem_singleton] at hline
      exact hline ▸ hb
  | piece first text h ih =>
      rw [textLines_append h, List.mem_cons] at hline
      rcases hline with rfl | hline
      · exact List.mem_append_left _ hb
      · exact List.mem_append_right _ (List.mem_cons_of_mem _ (ih hline))

theorem Format.tone_of_untoned {format : Format} (h : format = .rcs ∨ format = .html ∨ format = .summary)
    (line : List UInt8) : format.tone line = .plain := by
  obtain rfl | rfl | rfl := h <;> rfl

theorem Format.paintLine_of_plain {format : Format} {line : List UInt8} (h : format.tone line = .plain) :
    format.paintLine line = line := by
  rw [paintLine, h]
  rfl

/-- A report without a line that has a tone is copied. -/
theorem paint_of_plain {format : Format} {text : List UInt8}
    (h : ∀ line ∈ textLines text, format.tone line = .plain) : paint format text = text := by
  induction text using forall_of_separated (10 : UInt8) with
  | last line hline =>
      rw [textLines_of_not_mem hline, List.forall_mem_singleton] at h
      rw [paint_of_not_mem format hline, Format.paintLine_of_plain h]
  | piece line text hline ih =>
      rw [textLines_append hline, List.forall_mem_cons] at h
      rw [paint_append format hline, Format.paintLine_of_plain h.1, ih h.2]

/-- Painting leaves three styles alone, and in the others the lines without a tone. If the report consists of
characters and has no `ESC` of its own, the codes can be taken out of the painted report again, and they stand
around the lines with a tone: a line keeps its line feed outside, and has the code of its colour in front and
the one that ends it behind, or none at all. -/
theorem paint_only_decorates (format : Format) (report : List UInt8) :
    (format = .rcs ∨ format = .html ∨ format = .summary → paint format report = report) ∧
      List.Forall₂ (fun line painted => format.tone line = .plain → painted = line)
        (textLines report) (textLines (paint format report)) ∧
      (IsUtf8 report → 27 ∉ report →
        eraseCodes (paint format report) = report ∧
        List.Forall₂ (fun line painted => 27 ∉ line ∧
            (format.tone line = .plain ∧ painted = line ∨
              ∃ colour, (format.tone line).colour? = some colour ∧ IsCode colour.opening ∧ IsCode colourReset ∧
                painted = colour.opening ++ line ++ colourReset))
          (textLines report) (textLines (paint format report))) := by
  rw [textLines_paint]
  simp only [List.forall₂_map_right_iff, List.forall₂_same]
  refine ⟨fun h => paint_of_plain fun line _ => Format.tone_of_untoned h line,
    fun line _ => Format.paintLine_of_plain, fun hchars hfree => ?_⟩
  have hlines (line : List UInt8) (hline : line ∈ textLines report) : IsUtf8 line ∧ 27 ∉ line :=
    ⟨hchars.of_mem_textLines hline, fun hmem => hfree (mem_of_mem_textLines hline hmem)⟩
  refine ⟨eraseCodes_paint format report hlines, fun line hline => ⟨(hlines line hline).2, ?_⟩⟩
  cases htone : format.tone line with
  | plain => exact .inl ⟨rfl, Format.paintLine_of_plain htone⟩
  | _ =>
      refine .inr ⟨_, rfl, isCode_opening _, isCode_reset, ?_⟩
      rw [Format.paintLine_eq format (hlines line hline).1 (hlines line hline).2, htone]
      rfl

/-- The change of a line that is no ASCII, in the normal style. -/
theorem paint_only_decorates_of_change :
    IsUtf8 (utf8Bytes "2c2\n< ä\n---\n> x") ∧
      eraseCodes (paint .normal (utf8Bytes "2c2\n< ä\n---\n> x")) = utf8Bytes "2c2\n< ä\n---\n> x" :=
  have hchars : IsUtf8 (utf8Bytes "2c2\n< ä\n---\n> x") := ⟨"2c2\n< ä\n---\n> x".toList, by decide⟩
  ⟨hchars, ((paint_only_decorates .normal _).2.2 hchars (by decide)).1⟩

end TokenDiff
