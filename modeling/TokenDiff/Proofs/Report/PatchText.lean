import TokenDiff.Proofs.Report.Patch
import TokenDiff.Proofs.Text.Decimal
import TokenDiff.Proofs.Token.Dump

/-!
# Reading a patch

The text of a patch is read from its last line to its first, which lets the note on a missing line end be
read before the line it is about. A line of a hunk is its mark and its text; a header closes the hunk of the
lines read so far. What is written of hunks is read back (`parse_written`), whatever bytes their lines have.
-/

namespace TokenDiff

namespace Patch

def Mark.byte : Mark → UInt8
  | .context => 32
  | .removed => 45
  | .added => 43

def Mark.ofByte? (b : UInt8) : Option Mark :=
  if b = 32 then some .context
  else if b = 45 then some .removed
  else if b = 43 then some .added
  else none

/-- The note on a line without a line end, which stands after it. -/
def note : List UInt8 := utf8Bytes "\\ No newline at end of file\n"

/-! ## Reading -/

structure Reading where
  /-- the line before has no line end -/
  unterminated : Bool := false
  /-- the lines of a hunk whose header is still to come -/
  lines : List Line := []
  hunks : List Hunk := []

/-- The text that follows an expected one. -/
def expect (expected : String) (text : List UInt8) : Option (List UInt8) :=
  if (utf8Bytes expected).isPrefixOf text then some (text.drop (utf8Bytes expected).length) else none

def readHeader (header : List UInt8) (lines : List Line) : Option Hunk := do
  let (oldStart, text) ← readNumber (← expect "@@ -" header)
  let (oldCount, text) ← readNumber (← expect "," text)
  let (newStart, text) ← readNumber (← expect " +" text)
  let (newCount, text) ← readNumber (← expect "," text)
  if text = utf8Bytes " @@\n" then some { oldStart, oldCount, newStart, newCount, lines } else none

/-- Reads one more line, the line end of which has been removed if there is a note on it. -/
def readLine (line : List UInt8) (r : Reading) : Option Reading :=
  match line with
  | [] => none
  | b :: text =>
    if line = note then
      if r.unterminated then none else some { r with unterminated := true }
    else
      match Mark.ofByte? b with
      | some mark =>
        let line : Line := ⟨mark, if r.unterminated then text.dropLast else text⟩
        some { r with unterminated := false, lines := line :: r.lines }
      | none =>
        if r.unterminated then none
        else (readHeader line r.lines).map fun hunk => { hunks := hunk :: r.hunks }

def readLines (lines : List (List UInt8)) (r : Reading) : Option Reading :=
  lines.foldr (fun line r => r.bind (readLine line)) (some r)

/-- The hunks of a patch, which consists of whole lines and begins with a header. -/
def parse (text : List UInt8) : Option (List Hunk) :=
  match readLines (Policy.line.tokens text) {} with
  | some ⟨false, [], hunks⟩ => some hunks
  | _ => none

/-! ## Writing -/

def Line.written (l : Line) : List (List UInt8) :=
  if endsLine l.text then [l.mark.byte :: l.text] else [l.mark.byte :: (l.text ++ [10]), note]

def Hunk.header (h : Hunk) : List UInt8 :=
  utf8Bytes s!"@@ -{h.oldStart},{h.oldCount} +{h.newStart},{h.newCount} @@\n"

def Hunk.written (h : Hunk) : List (List UInt8) := h.header :: h.lines.flatMap Line.written

/-! ## What is written is read back -/

theorem Mark.ofByte?_byte (mark : Mark) : Mark.ofByte? mark.byte = some mark := by
  cases mark <;> rfl

theorem expect_append (expected : String) (text : List UInt8) :
    expect expected (utf8Bytes expected ++ text) = some text := by
  rw [expect, if_pos, List.drop_left]
  rw [List.isPrefixOf_iff_prefix]
  exact List.prefix_append _ _

theorem header_eq (h : Hunk) : h.header =
    utf8Bytes "@@ -" ++ (utf8Bytes (toString h.oldStart) ++ (utf8Bytes "," ++
      (utf8Bytes (toString h.oldCount) ++ (utf8Bytes " +" ++ (utf8Bytes (toString h.newStart) ++
        (utf8Bytes "," ++ (utf8Bytes (toString h.newCount) ++ utf8Bytes " @@\n"))))))) := by
  simp only [← utf8Bytes_append, ← String.append_assoc]
  rfl

theorem readNumber_append_text (n : Nat) (s : String) (text : List UInt8)
    (hs : ∃ b bytes, utf8Bytes s = b :: bytes ∧ isDigitByte b = false) :
    readNumber (utf8Bytes (toString n) ++ (utf8Bytes s ++ text)) = some (n, utf8Bytes s ++ text) := by
  obtain ⟨b, bytes, hbytes, hb⟩ := hs
  apply readNumber_append
  rw [hbytes]
  exact fun c hc => Option.some.inj hc ▸ hb

theorem readHeader_header (h : Hunk) : readHeader h.header h.lines = some h := by
  have hcomma : ∃ b bytes, utf8Bytes "," = b :: bytes ∧ isDigitByte b = false := ⟨44, [], by decide, rfl⟩
  have hplus : ∃ b bytes, utf8Bytes " +" = b :: bytes ∧ isDigitByte b = false :=
    ⟨32, [43], by decide, rfl⟩
  have hend : ∃ b bytes, utf8Bytes " @@\n" = b :: bytes ∧ isDigitByte b = false :=
    ⟨32, [64, 64, 10], by decide, rfl⟩
  have hlast := readNumber_append_text h.newCount " @@\n" [] hend
  rw [List.append_nil] at hlast
  rw [header_eq, readHeader, expect_append]
  simp only [Option.bind_eq_bind, Option.bind_some, readNumber_append_text _ _ _ hcomma,
    readNumber_append_text _ _ _ hplus, expect_append, hlast, if_pos]

theorem note_eq : note = 92 :: note.tail := by decide

theorem readLine_header (h : Hunk) (hunks : List Hunk) :
    readLine h.header { lines := h.lines, hunks := hunks } = some { hunks := h :: hunks } := by
  have hread := readHeader_header h
  obtain ⟨text, htext⟩ : ∃ text, h.header = 64 :: text := by
    rw [header_eq]
    exact ⟨_, rfl⟩
  have hne : (64 : UInt8) :: text ≠ note := by
    rw [note_eq]
    simp
  rw [htext] at hread ⊢
  rw [readLine, if_neg hne]
  change (if false = true then none else _) = _
  rw [if_neg (by decide), hread]
  rfl

theorem readLines_append (xs ys : List (List UInt8)) (r : Reading) :
    readLines (xs ++ ys) r = (readLines ys r).bind (readLines xs) := by
  have hnone : xs.foldr (fun line r => r.bind (readLine line)) none = none := by
    induction xs with
    | nil => rfl
    | cons line xs ih => rw [List.foldr_cons, ih]; rfl
  rw [readLines, List.foldr_append]
  change xs.foldr _ (readLines ys r) = _
  cases readLines ys r with
  | none => exact hnone
  | some r => rfl

theorem readLines_written (l : Line) (r : Reading) (hr : r.unterminated = false) :
    readLines l.written r = some { r with lines := l :: r.lines } := by
  have hmark (text : List UInt8) : l.mark.byte :: text ≠ note := by
    intro h
    have hhead : l.mark.byte = 92 := Option.some.inj (congrArg List.head? h)
    cases hl : l.mark <;> rw [hl] at hhead <;> cases hhead
  have hread (text : List UInt8) (r : Reading) : readLine (l.mark.byte :: text) r =
      some { r with
        unterminated := false
        lines := ⟨l.mark, if r.unterminated then text.dropLast else text⟩ :: r.lines } := by
    rw [readLine]
    simp only [if_neg (hmark text), Mark.ofByte?_byte]
  rw [Line.written]
  split
  · change readLine (l.mark.byte :: l.text) r = _
    rw [hread, hr]
    rfl
  · have hnote : readLine note r = some { r with unterminated := true } := by
      rw [note_eq, readLine, ← note_eq, if_pos rfl, if_neg (by simp [hr])]
    change (readLine note r).bind (readLine (l.mark.byte :: (l.text ++ [10]))) = _
    rw [hnote, Option.bind_some, hread]
    simp only [if_true, List.dropLast_concat, ← hr]

theorem readLines_flatMap_written (lines : List Line) (r : Reading) (hr : r.unterminated = false) :
    readLines (lines.flatMap Line.written) r = some { r with lines := lines ++ r.lines } := by
  induction lines with
  | nil => rfl
  | cons l lines ih =>
      rw [List.flatMap_cons, readLines_append, ih, Option.bind_some]
      exact readLines_written l _ hr

theorem readLines_hunks (hunks : List Hunk) :
    readLines (hunks.flatMap Hunk.written) {} = some { hunks := hunks } := by
  induction hunks with
  | nil => rfl
  | cons h hunks ih =>
      rw [List.flatMap_cons, readLines_append, ih, Option.bind_some, Hunk.written]
      change (readLines (h.lines.flatMap Line.written) _).bind (readLine h.header) = _
      rw [readLines_flatMap_written _ _ rfl, Option.bind_some]
      exact (congrArg (readLine h.header) (by rw [List.append_nil])).trans (readLine_header h hunks)

/-- A line of bytes: it ends with a line feed and has no other one. -/
def Terminated (line : List UInt8) : Prop := ∃ body, line = body ++ [10] ∧ 10 ∉ body

theorem tokens_flatten {lines : List (List UInt8)} (h : ∀ line ∈ lines, Terminated line) :
    Policy.line.tokens lines.flatten = lines := by
  induction lines with
  | nil => rfl
  | cons line lines ih =>
      obtain ⟨⟨body, rfl, hbody⟩, hrest⟩ := List.forall_mem_cons.1 h
      have hfree : ∀ b ∈ body, ∀ c, Policy.line.cuts b c = false := by
        intro b hb c
        exact beq_false_of_ne fun h => hbody (h ▸ hb)
      rw [List.flatten_cons, List.append_assoc, List.singleton_append,
        Policy.tokens_close hfree fun _ _ => rfl, ih hrest]

def Line.Whole (l : Line) : Prop := l.text ≠ [] ∧ 10 ∉ l.text.dropLast

theorem terminated_note : Terminated note :=
  ⟨note.dropLast, by decide, by decide⟩

theorem terminated_written {l : Line} (h : l.Whole) : ∀ line ∈ l.written, Terminated line := by
  obtain ⟨hne, hbody⟩ := h
  have hmark : (10 : UInt8) ≠ l.mark.byte := by cases l.mark <;> decide
  have hlast := List.dropLast_append_getLast hne
  rw [Line.written]
  split
  · rename_i hends
    rw [List.forall_mem_singleton]
    refine ⟨l.mark.byte :: l.text.dropLast, ?_, ?_⟩
    · rw [endsLine, List.getLast?_eq_some_getLast hne] at hends
      rw [List.cons_append, ← eq_of_beq hends, hlast]
    · rw [List.mem_cons, not_or]
      exact ⟨hmark, hbody⟩
  · rename_i hends
    rw [List.forall_mem_cons, List.forall_mem_singleton]
    refine ⟨⟨l.mark.byte :: l.text, rfl, ?_⟩, terminated_note⟩
    rw [List.mem_cons, not_or]
    refine ⟨hmark, fun hmem => hends ?_⟩
    rw [← hlast, List.mem_append, List.mem_singleton] at hmem
    rw [endsLine, List.getLast?_eq_some_getLast hne]
    exact beq_of_eq (hmem.resolve_left hbody).symm

theorem terminated_header (h : Hunk) : Terminated h.header := by
  refine ⟨utf8Bytes "@@ -" ++ (utf8Bytes (toString h.oldStart) ++ (utf8Bytes "," ++
      (utf8Bytes (toString h.oldCount) ++ (utf8Bytes " +" ++ (utf8Bytes (toString h.newStart) ++
        (utf8Bytes "," ++ (utf8Bytes (toString h.newCount) ++ utf8Bytes " @@"))))))), ?_, ?_⟩
  · have hend : utf8Bytes " @@\n" = utf8Bytes " @@" ++ [10] := by decide
    rw [header_eq, hend]
    simp only [List.append_assoc]
  · simp only [List.mem_append, lineFeed_not_mem_toString, false_or]
    decide

/-- What is written of hunks is read back. -/
theorem parse_written {hunks : List Hunk} (h : ∀ hunk ∈ hunks, ∀ l ∈ hunk.lines, l.Whole) :
    parse (hunks.flatMap Hunk.written).flatten = some hunks := by
  have hlines : ∀ line ∈ hunks.flatMap Hunk.written, Terminated line := by
    intro line hline
    obtain ⟨hunk, hhunk, hline⟩ := List.mem_flatMap.1 hline
    rw [Hunk.written, List.mem_cons, List.mem_flatMap] at hline
    cases hline with
    | inl hheader => exact hheader ▸ terminated_header hunk
    | inr hbody =>
        obtain ⟨l, hl, hline⟩ := hbody
        exact terminated_written (h hunk hhunk l hl) line hline
  rw [parse, tokens_flatten hlines, readLines_hunks]

example : parse (utf8Bytes "@@ -1,2 +1,1 @@\n a\n-b\n\\ No newline at end of file\n") =
    some [⟨1, 2, 1, 1, [⟨.context, [97, 10]⟩, ⟨.removed, [98]⟩]⟩] := by
  decide +kernel

end Patch

end TokenDiff
