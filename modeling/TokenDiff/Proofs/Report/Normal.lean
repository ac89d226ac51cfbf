import TokenDiff.Proofs.Report.Commands

/-!
# The normal report is an edit script

A report in the normal style is read as commands, each with the lines it takes out of the old text and those
it puts in, and applied to the old text they yield the new one (`normal_roundtrip`). A command is a hunk
without context (`Command.hunk`), so that the same application that judges patches judges it, too. What its
two numbers mean depends on its letter: a side that has no lines in the edit is named by the line before.
-/

namespace TokenDiff

open Window

theorem terminated_of_mem {text line : List UInt8} (htext : endsLine text = true)
    (h : line ∈ Policy.line.tokens text) : Patch.Terminated line := by
  refine (isLine_of_mem h).terminated ?_
  obtain ⟨init, last, hinit⟩ :=
    (List.eq_nil_or_concat' (Policy.line.tokens text)).resolve_left (List.ne_nil_of_mem h)
  have hmem := h
  rw [hinit, List.mem_append, List.mem_singleton] at h
  rcases h with h | rfl
  · have hlt : init.length < (Policy.line.tokens text).length := by
      rw [hinit, List.length_append]
      exact Nat.lt_succ_self _
    refine endsLine_of_mem_extract (i := 0) hlt ?_
    rwa [hinit, List.extract_eq_take_drop, List.drop_zero, Nat.sub_zero, List.take_left]
  · have hflatten := Policy.flatten_tokens .line text
    rw [hinit, List.flatten_append, List.flatten_singleton] at hflatten
    rwa [← hflatten, endsLine, List.getLast?_append_of_ne_nil _ (isLine_of_mem hmem).1] at htext

namespace Normal

/-- The lines of one side that a command names, the first and the last one. Lines are counted from one. -/
structure Range where
  first : Nat
  last : Nat
deriving DecidableEq, Repr

structure Header where
  kind : GapKind
  old : Range
  new : Range
deriving DecidableEq, Repr

structure Command where
  header : Header
  removed : List (List UInt8)
  added : List (List UInt8)
deriving DecidableEq, Repr

def Range.count (r : Range) : Nat := r.last + 1 - r.first

namespace Header

def oldCount (h : Header) : Nat := if h.kind = .add then 0 else h.old.count

def newCount (h : Header) : Nat := if h.kind = .delete then 0 else h.new.count

/-- Where lines are taken out, which for an addition is after the line that is named. -/
def oldStart (h : Header) : Nat := if h.kind = .add then h.old.first + 1 else h.old.first

/-- Where lines are put in, which for a deletion is after the line that is named. -/
def newStart (h : Header) : Nat := if h.kind = .delete then h.new.first + 1 else h.new.first

/-- A side without lines is named by a single line. -/
def Places (h : Header) : Prop :=
  (h.kind = .add → h.old.first = h.old.last) ∧ (h.kind = .delete → h.new.first = h.new.last)

instance (h : Header) : Decidable h.Places := inferInstanceAs (Decidable (_ ∧ _))

end Header

def Command.hunk (c : Command) : Patch.Hunk where
  oldStart := c.header.oldStart
  oldCount := c.header.oldCount
  newStart := c.header.newStart
  newCount := c.header.newCount
  lines := c.removed.map (⟨.removed, ·⟩) ++ c.added.map (⟨.added, ·⟩)

/-! ## Reading -/

/-- A range at the start of a text, and what follows it. The last line is given if it is beyond the first. -/
def readRange (text : List UInt8) : Option (Range × List UInt8) := do
  let (first, text) ← readNumber text
  match Patch.expect "," text with
  | none => some (⟨first, first⟩, text)
  | some text =>
    let (last, text) ← readNumber text
    if first < last then some (⟨first, last⟩, text) else none

def readKind (text : List UInt8) : Option (GapKind × List UInt8) :=
  [("a", GapKind.add), ("d", .delete), ("c", .change)].findSome? fun (letter, kind) =>
    (Patch.expect letter text).map (kind, ·)

def readHeader (line : List UInt8) : Option Header := do
  let (old, text) ← readRange line
  let (kind, text) ← readKind text
  let (new, text) ← readRange text
  let header : Header := ⟨kind, old, new⟩
  if text = utf8Bytes "\n" ∧ header.Places then some header else none

def readMarked (mark : String) (count : Nat) (lines : List (List UInt8)) :
    Option (List (List UInt8) × List (List UInt8)) :=
  if count ≤ lines.length then ((lines.take count).mapM (Patch.expect mark)).map (·, lines.drop count)
  else none

/-- The line between the two sides of a command, which only a change has. -/
def separator : GapKind → List (List UInt8)
  | .change => [utf8Bytes "---\n"]
  | _ => []

def readCommand : List (List UInt8) → Option (Command × List (List UInt8))
  | [] => none
  | line :: lines => do
    let header ← readHeader line
    let (removed, lines) ← readMarked "< " header.oldCount lines
    if (separator header.kind).isPrefixOf lines then
      let (added, lines) ← readMarked "> " header.newCount (lines.drop (separator header.kind).length)
      some (⟨header, removed, added⟩, lines)
    else none

def parse (text : List UInt8) : Option (List Command) := readAll readCommand (Policy.line.tokens text)

/-! ## Writing -/

def Range.text (r : Range) : String :=
  if r.first < r.last then s!"{r.first},{r.last}" else s!"{r.first}"

def Header.text (h : Header) : String := h.old.text ++ h.kind.letter ++ h.new.text ++ "\n"

def Command.written (c : Command) : List (List UInt8) :=
  utf8Bytes c.header.text :: (c.removed.map (utf8Bytes "< " ++ ·) ++ separator c.header.kind ++
    c.added.map (utf8Bytes "> " ++ ·))

structure Command.Consistent (c : Command) : Prop where
  old_le : c.header.old.first ≤ c.header.old.last
  new_le : c.header.new.first ≤ c.header.new.last
  places : c.header.Places
  length_removed : c.removed.length = c.header.oldCount
  length_added : c.added.length = c.header.newCount

theorem utf8Bytes_pair (first last : Nat) : utf8Bytes s!"{first},{last}" =
    utf8Bytes (toString first) ++ (utf8Bytes "," ++ utf8Bytes (toString last)) := by
  simp only [← utf8Bytes_append, ← String.append_assoc]
  rfl

/-- A range is read back from its text, if neither a digit nor a comma follows it. -/
theorem readRange_text {r : Range} (hle : r.first ≤ r.last) (s : String) (text : List UInt8)
    (hs : ∃ b bytes, utf8Bytes s = b :: bytes ∧ isDigitByte b = false ∧ b ≠ 44) :
    readRange (utf8Bytes r.text ++ (utf8Bytes s ++ text)) = some (r, utf8Bytes s ++ text) := by
  have hcomma : ∃ b bytes, utf8Bytes "," = b :: bytes ∧ isDigitByte b = false := ⟨44, [], by decide, rfl⟩
  obtain ⟨b, bytes, hbytes, hdigit, hb⟩ := hs
  have hother : ∃ b bytes, utf8Bytes s = b :: bytes ∧ isDigitByte b = false := ⟨b, bytes, hbytes, hdigit⟩
  rw [Range.text]
  split
  · rename_i hlt
    rw [utf8Bytes_pair, List.append_assoc, List.append_assoc, readRange, Patch.readNumber_append_text _ _ _ hcomma]
    simp only [Option.bind_eq_bind, Option.bind_some, Patch.expect_append,
      Patch.readNumber_append_text _ _ _ hother, if_pos hlt]
  · rename_i hlt
    have hlast : r = ⟨r.first, r.first⟩ := by
      rw [Range.mk.injEq]
      omega
    have hexpect : Patch.expect "," (utf8Bytes s ++ text) = none := by
      have hbyte : utf8Bytes "," = [44] := by decide
      rw [Patch.expect, if_neg]
      rw [hbyte, hbytes, List.isPrefixOf_iff_prefix, List.cons_append, List.cons_prefix_cons, not_and]
      exact fun h => absurd h.symm hb
    change readRange (utf8Bytes (toString r.first) ++ _) = _
    rw [readRange, Patch.readNumber_append_text _ _ _ hother]
    simp only [Option.bind_eq_bind, Option.bind_some, hexpect]
    rw [← hlast]

theorem readKind_letter (kind : GapKind) (text : List UInt8) :
    readKind (utf8Bytes kind.letter ++ text) = some (kind, text) := by
  cases kind <;> rfl

theorem readHeader_text {h : Header} (hold : h.old.first ≤ h.old.last) (hnew : h.new.first ≤ h.new.last)
    (hplaces : h.Places) : readHeader (utf8Bytes h.text) = some h := by
  have hletter : ∃ b bytes, utf8Bytes h.kind.letter = b :: bytes ∧ isDigitByte b = false ∧ b ≠ 44 := by
    cases h.kind
    · exact ⟨97, [], by decide, rfl, by decide⟩
    · exact ⟨100, [], by decide, rfl, by decide⟩
    · exact ⟨99, [], by decide, rfl, by decide⟩
  have hend : ∃ b bytes, utf8Bytes "\n" = b :: bytes ∧ isDigitByte b = false ∧ b ≠ 44 :=
    ⟨10, [], by decide, rfl, by decide⟩
  have hlast := readRange_text hnew "\n" [] hend
  rw [List.append_nil] at hlast
  rw [Header.text, utf8Bytes_append, utf8Bytes_append, utf8Bytes_append, List.append_assoc,
    List.append_assoc, readHeader, readRange_text hold _ _ hletter]
  simp only [Option.bind_eq_bind, Option.bind_some, readKind_letter, hlast]
  rw [if_pos ⟨trivial, hplaces⟩]

theorem readMarked_map (mark : String) (texts rest : List (List UInt8)) :
    readMarked mark texts.length (texts.map (utf8Bytes mark ++ ·) ++ rest) = some (texts, rest) := by
  have hlength : (texts.map (utf8Bytes mark ++ ·)).length = texts.length := List.length_map _
  have hmarks : (texts.map (utf8Bytes mark ++ ·)).mapM (Patch.expect mark) = some texts := by
    induction texts with
    | nil => rfl
    | cons text texts ih =>
        rw [List.map_cons, List.mapM_cons, Patch.expect_append, ih (List.length_map _)]
        rfl
  rw [readMarked, if_pos (by rw [List.length_append]; omega), ← hlength, List.take_left, List.drop_left,
    hmarks, Option.map_some]

/-- A command is read back from what is written of it, whatever follows. -/
theorem readCommand_written {c : Command} (hc : c.Consistent) (rest : List (List UInt8)) :
    readCommand (c.written ++ rest) = some (c, rest) := by
  have hheader := readHeader_text hc.old_le hc.new_le hc.places
  have hremoved := readMarked_map "< " c.removed
    (separator c.header.kind ++ (c.added.map (utf8Bytes "> " ++ ·) ++ rest))
  have hadded := readMarked_map "> " c.added rest
  rw [hc.length_removed] at hremoved
  rw [hc.length_added] at hadded
  have hseparator : (separator c.header.kind).isPrefixOf
      (separator c.header.kind ++ (c.added.map (utf8Bytes "> " ++ ·) ++ rest)) = true := by
    rw [List.isPrefixOf_iff_prefix]
    exact List.prefix_append _ _
  rw [Command.written, List.cons_append, List.append_assoc, List.append_assoc, readCommand, hheader]
  simp only [Option.bind_eq_bind, Option.bind_some, hremoved, if_pos hseparator, List.drop_left, hadded]

/-! ## The lines of a command -/

theorem terminated_text (h : Header) : Patch.Terminated (utf8Bytes h.text) := by
  have hrange (r : Range) : (10 : UInt8) ∉ utf8Bytes r.text := by
    rw [Range.text]
    split
    · simp only [utf8Bytes_pair, List.mem_append, lineFeed_not_mem_toString, false_or, or_false]
      decide
    · exact lineFeed_not_mem_toString r.first
  refine ⟨utf8Bytes h.old.text ++ (utf8Bytes h.kind.letter ++ utf8Bytes h.new.text), ?_, ?_⟩
  · have hend : utf8Bytes "\n" = [10] := by decide
    simp only [Header.text, utf8Bytes_append, hend, List.append_assoc]
  · simp only [List.mem_append, hrange, false_or, or_false]
    cases h.kind <;> decide

theorem terminated_append {mark : String} (hmark : (10 : UInt8) ∉ utf8Bytes mark) {line : List UInt8}
    (h : Patch.Terminated line) : Patch.Terminated (utf8Bytes mark ++ line) := by
  obtain ⟨body, rfl, hbody⟩ := h
  refine ⟨utf8Bytes mark ++ body, (List.append_assoc _ _ _).symm, ?_⟩
  rw [List.mem_append, not_or]
  exact ⟨hmark, hbody⟩

theorem terminated_of_mem_separator {kind : GapKind} {line : List UInt8} (h : line ∈ separator kind) :
    Patch.Terminated line := by
  cases kind with
  | change =>
      rw [List.mem_singleton.1 h]
      exact ⟨utf8Bytes "---", by decide, by decide⟩
  | add => cases h
  | delete => cases h

theorem terminated_of_mem_written {c : Command} (hremoved : ∀ line ∈ c.removed, Patch.Terminated line)
    (hadded : ∀ line ∈ c.added, Patch.Terminated line) : ∀ line ∈ c.written, Patch.Terminated line := by
  intro line hline
  rw [Command.written, List.mem_cons, List.mem_append, List.mem_append, List.mem_map, List.mem_map] at hline
  rcases hline with rfl | (⟨text, htext, rfl⟩ | hline) | ⟨text, htext, rfl⟩
  · exact terminated_text c.header
  · exact terminated_append (by decide) (hremoved text htext)
  · exact terminated_of_mem_separator hline
  · exact terminated_append (by decide) (hadded text htext)

/-- The commands are read back from what is written of them, if their lines have their line ends. -/
theorem parse_written {commands : List Command} (hcommands : ∀ c ∈ commands, c.Consistent)
    (h : ∀ line ∈ commands.flatMap Command.written, Patch.Terminated line) :
    parse (commands.flatMap Command.written).flatten = some commands := by
  rw [parse, Patch.tokens_flatten h]
  exact readAll_flatMap (fun c => List.cons_ne_nil _ _) fun c hc => readCommand_written (hcommands c hc)

example : parse (utf8Bytes "1,2c1\n< a\n< b\n---\n> c\n") =
    some [⟨⟨.change, ⟨1, 2⟩, ⟨1, 1⟩⟩, [[97, 10], [98, 10]], [[99, 10]]⟩] := by
  decide +kernel

/-! ## The commands of a script -/

def rangeOf (span : Span) : Range :=
  if span.isEmpty then ⟨span.start, span.start⟩ else ⟨span.start + 1, span.stop⟩

def Command.between (old new : List (List UInt8)) (kind : GapKind) (s t : Snake) : Command where
  header := ⟨kind, rangeOf ⟨s.u, t.x⟩, rangeOf ⟨s.v, t.y⟩⟩
  removed := old.extract s.u t.x
  added := new.extract s.v t.y

def ofStep (old new : List (List UInt8)) (step : Step) : List Command :=
  match (Gap.between step.1 step.2).kind? with
  | none => []
  | some kind => [Command.between old new kind step.1 step.2]

theorem text_rangeOf (span : Span) : (rangeOf span).text = lineRange span := by
  rw [rangeOf, lineRange, Range.text]
  cases hempty : span.isEmpty with
  | true =>
      rw [Span.isEmpty, decide_eq_true_eq] at hempty
      simp only [if_true, Nat.lt_irrefl, if_false, if_neg (Nat.not_lt.2 hempty)]
  | false => rfl

theorem rangeOf_le (span : Span) : (rangeOf span).first ≤ (rangeOf span).last := by
  rw [rangeOf]
  cases hempty : span.isEmpty with
  | true => exact Nat.le_refl _
  | false =>
      rw [Span.isEmpty, decide_eq_false_iff_not] at hempty
      exact Nat.succ_le_of_lt (Nat.not_le.1 hempty)

/-- The header of an edit says where its lines are and how many they are, on either side. -/
theorem header_of_kind? {gap : Gap} {kind : GapKind} (h : gap.kind? = some kind) :
    let header : Header := ⟨kind, rangeOf gap.old, rangeOf gap.new⟩
    header.Places ∧ (header.oldStart = gap.old.start + 1 ∧ header.oldCount = gap.old.stop - gap.old.start) ∧
      header.newStart = gap.new.start + 1 ∧ header.newCount = gap.new.stop - gap.new.start := by
  have hempty {span : Span} (h : span.isEmpty = true) : span.stop - span.start = 0 := by
    rw [Span.isEmpty, decide_eq_true_eq] at h
    exact Nat.sub_eq_zero_of_le h
  rw [Gap.kind?] at h
  cases hx : gap.old.isEmpty <;> cases hy : gap.new.isEmpty <;> rw [hx, hy] at h <;> cases h
  case false.false =>
    simp [Header.Places, Header.oldStart, Header.oldCount, Header.newStart, Header.newCount, Range.count,
      rangeOf, hx, hy]
  case false.true =>
    simp [Header.Places, Header.oldStart, Header.oldCount, Header.newStart, Header.newCount, Range.count,
      rangeOf, hx, hy, hempty hy]
  case true.false =>
    simp [Header.Places, Header.oldStart, Header.oldCount, Header.newStart, Header.newCount, Range.count,
      rangeOf, hx, hy, hempty hx]

section

variable {old new : List (List UInt8)} {kind : GapKind} {s t e : Snake} {steps : List Step}

theorem ofStep_eq (h : (Gap.between s t).kind? = some kind) :
    ofStep old new (s, t) = [Command.between old new kind s t] := by
  rw [ofStep, h]

theorem Command.consistent_between (h : (Gap.between s t).kind? = some kind) (hx : t.x ≤ old.length)
    (hy : t.y ≤ new.length) : (Command.between old new kind s t).Consistent := by
  obtain ⟨hplaces, ⟨-, hold⟩, -, hnew⟩ := header_of_kind? h
  constructor
  case old_le => exact rangeOf_le _
  case new_le => exact rangeOf_le _
  case places => exact hplaces
  case length_removed => exact (length_extract_of_le old hx).trans hold.symm
  case length_added => exact (length_extract_of_le new hy).trans hnew.symm

theorem consistent_of_mem_ofStep {step : Step} (hinside : step.2.Inside old.length new.length) {c : Command}
    (h : c ∈ ofStep old new step) : c.Consistent := by
  rw [ofStep] at h
  split at h
  · cases h
  · rename_i kind hkind
    rw [List.mem_singleton.1 h]
    exact Command.consistent_between hkind hinside.x_le hinside.y_le

theorem Command.hunk_between (h : (Gap.between s t).kind? = some kind) :
    (Command.between old new kind s t).hunk = ⟨s.u + 1, t.x - s.u, s.v + 1, t.y - s.v,
      (old.extract s.u t.x).map (⟨.removed, ·⟩) ++ (new.extract s.v t.y).map (⟨.added, ·⟩)⟩ := by
  obtain ⟨-, ⟨hstart, hcount⟩, hstart', hcount'⟩ := header_of_kind? h
  rw [hunk, Patch.Hunk.mk.injEq]
  exact ⟨hstart, hcount, hstart', hcount', rfl⟩

/-- The commands of a script, applied from a snake on, turn the old lines into the new ones. -/
theorem applyFrom_ofSteps (h : Route old new s steps e) (hcorner : e.u = old.length ∧ e.v = new.length)
    (hkinds : ∀ step ∈ steps, (Gap.between step.1 step.2).kind? ≠ none) :
    Patch.applyFrom s.x s.y (old.drop s.x) ((steps.flatMap (ofStep old new)).map Command.hunk) =
      some (new.drop s.y) := by
  induction h with
  | nil hs => exact congrArg some (hs.drop hcorner 0)
  | @cons s t e steps hs hgap rest ih =>
      obtain ⟨hkind, hkinds⟩ := List.forall_mem_cons.1 hkinds
      obtain ⟨kind, hkind⟩ := Option.ne_none_iff_exists'.1 hkind
      have hplaces : s.x ≤ s.u ∧ s.u ≤ t.x ∧ t.x ≤ old.length :=
        ⟨hs.x_le_u, hgap.1, rest.head.inside.x_le⟩
      have hplaces' : s.y ≤ s.v ∧ s.v ≤ t.y ∧ t.y ≤ new.length := by
        have := hs.diagonal
        exact ⟨by omega, hgap.2, rest.head.inside.y_le⟩
      have hbefore : Patch.before ((old.extract s.u t.x).map (⟨.removed, ·⟩) ++
          (new.extract s.v t.y).map (⟨.added, ·⟩)) = old.extract s.u t.x := by
        rw [Patch.before_append, Patch.before_map, Patch.before_map, if_neg (by decide), if_pos rfl,
          List.append_nil]
      have hafter : Patch.after ((old.extract s.u t.x).map (⟨.removed, ·⟩) ++
          (new.extract s.v t.y).map (⟨.added, ·⟩)) = new.extract s.v t.y := by
        rw [Patch.after_append, Patch.after_map, Patch.after_map, if_pos rfl, if_neg (by decide),
          List.nil_append]
      rw [List.flatMap_cons, ofStep_eq hkind, List.singleton_append, List.map_cons,
        Command.hunk_between hkind]
      exact Patch.applyFrom_cons hplaces hplaces' hs.diagonal (hs.extract_end 0) hbefore hafter
        (ih hcorner hkinds)

end

section

variable {S T : List UInt8} {step : Step}

theorem bytes_marked_lines (mark : String) (side : Side) (span : Span)
    (h : span.stop ≤ (Policy.line.tokens (side.pick S T)).length) :
    Piece.bytes .line .raw S T (.marked mark side span false) =
      (((Policy.line.tokens (side.pick S T)).extract span.start span.stop).map
        (utf8Bytes mark ++ ·)).flatten := by
  rw [Piece.bytes, Piece.bytesAcross, Side.pick_self, map_spanBytes h, ← List.flatMap_def]
  exact List.append_nil _

/-- What is printed of a step is what is written of its command. -/
theorem bytes_normalStep (hx : step.2.x ≤ (Policy.line.tokens S).length)
    (hy : step.2.y ≤ (Policy.line.tokens T).length) :
    (normalStep step).flatMap (·.bytes .line .raw S T) =
      ((ofStep (Policy.line.tokens S) (Policy.line.tokens T) step).flatMap Command.written).flatten := by
  obtain ⟨s, t⟩ := step
  have hold := bytes_marked_lines (S := S) (T := T) "< " .old ⟨s.u, t.x⟩ hx
  have hnew := bytes_marked_lines (S := S) (T := T) "> " .new ⟨s.v, t.y⟩ hy
  have hseparator (kind : GapKind) : (if kind = .change then [Piece.text "---\n"] else []).flatMap
      (·.bytes .line .raw S T) = (separator kind).flatten := by
    cases kind <;> rfl
  rw [normalStep]
  cases hkind : (Gap.between s t).kind? with
  | none =>
      rw [ofStep, hkind]
      rfl
  | some kind =>
      rw [ofStep_eq hkind, List.flatMap_singleton, Command.written, List.flatten_cons, List.flatten_append,
        List.flatten_append]
      have hheader : Piece.bytes .line .raw S T
          (.text (lineRange ⟨s.u, t.x⟩ ++ kind.letter ++ lineRange ⟨s.v, t.y⟩ ++ "\n")) =
          utf8Bytes (Command.between (Policy.line.tokens S) (Policy.line.tokens T) kind s t).header.text := by
        rw [Command.between, Header.text, text_rangeOf, text_rangeOf]
        rfl
      simp only [Gap.between, List.cons_append, List.nil_append, List.flatMap_cons, List.flatMap_append,
        List.flatMap_nil, List.append_nil, hseparator, hheader, hold, hnew]
      simp only [List.append_assoc]
      rfl

theorem terminated_of_mem_ofStep (hS : endsLine S = true) (hT : endsLine T = true) {line : List UInt8}
    (h : line ∈ (ofStep (Policy.line.tokens S) (Policy.line.tokens T) step).flatMap Command.written) :
    Patch.Terminated line := by
  obtain ⟨c, hc, hline⟩ := List.mem_flatMap.1 h
  rw [ofStep] at hc
  split at hc
  · cases hc
  · rw [List.mem_singleton.1 hc] at hline
    exact terminated_of_mem_written (fun line hline => terminated_of_mem hS (mem_of_mem_extract hline))
      (fun line hline => terminated_of_mem hT (mem_of_mem_extract hline)) line hline

end

end Normal

/-- The normal report on two texts of whole lines is an edit script. Under any tuning it is printed whenever
the search finds a script, and it is read as commands that name the lines of both texts at the places they
say. Applied to the old text they yield the new one, byte by byte. -/
theorem normal_roundtrip {S T : List UInt8} {old new : Source} (hold : old.Replays S) (hnew : new.Replays T)
    (hS : endsLine S = true) (hT : endsLine T = true) (fast : Bool) (tuning : Tuning) :
    ∃ a b, Sequence.ofSource old .line tuning = .ok a ∧ Sequence.ofSource new .line tuning = .ok b ∧
      ∀ script windows,
        (a.table.comparison b.table).script fast tuning (a.window, b.window) = .ok script windows →
        ∀ context, ∃ text printer commands,
          Layout.printAll ⟨a.table, b.table, .raw⟩ (script.report .normal context) { windows } =
            .ok text printer ∧
          Normal.parse text = some commands ∧
          (∀ c ∈ commands, c.hunk.Names (Policy.line.tokens S) (Policy.line.tokens T)) ∧
          Patch.apply (commands.map Normal.Command.hunk) S = some T := by
  obtain ⟨⟨table, w⟩, ha, rfl, hw⟩ := Sequence.exists_ofSource hold .line tuning
  obtain ⟨⟨table, w'⟩, hb, rfl, hw'⟩ := Sequence.exists_ofSource hnew .line tuning
  refine ⟨_, _, ha, hb, fun script windows hscript context => ?_⟩
  obtain ⟨-, -, hsettled⟩ := settled_of_script ⟨hw, hw'⟩ hscript
  obtain ⟨-, -, haligns⟩ := aligns_of_script ⟨hw, hw'⟩ hscript
  have hprintable : script.Printable .normal context := haligns.printable_iff.2 (by simp)
  obtain ⟨printer, hprint, s, e, hroute, ⟨hx, hy⟩, hcorner⟩ :=
    exists_printed ⟨hw, hw'⟩ hscript hprintable 0
  have hkinds : ∀ step ∈ script.steps, (Gap.between step.1 step.2).kind? ≠ none := fun step hstep =>
    hsettled.kind?_ne_none _ (List.mem_map_of_mem hstep)
  have happly := Normal.applyFrom_ofSteps hroute hcorner hkinds
  have hnames := Patch.names_of_applyFrom happly
  rw [hx, hy] at happly
  have hbytes : ((script.report .normal context).flatMap (·.bytes .line .raw S T)) =
      ((script.steps.flatMap (Normal.ofStep (Policy.line.tokens S) (Policy.line.tokens T))).flatMap
        Normal.Command.written).flatten :=
    flatMap_bytes_steps fun step hstep =>
      Normal.bytes_normalStep (hroute.inside step hstep).2.x_le (hroute.inside step hstep).2.y_le
  refine ⟨_, printer, _, hprint, ?_, fun c hc => hnames _ (List.mem_map_of_mem hc), ?_⟩
  · rw [hbytes]
    refine Normal.parse_written (fun c hc => ?_) fun line hline => ?_
    · obtain ⟨step, hstep, hc⟩ := List.mem_flatMap.1 hc
      exact Normal.consistent_of_mem_ofStep (hroute.inside step hstep).2 hc
    · rw [List.flatMap_assoc, List.mem_flatMap] at hline
      obtain ⟨step, -, hline⟩ := hline
      exact Normal.terminated_of_mem_ofStep hS hT hline
  · rw [Patch.apply]
    exact (congrArg _ happly).trans (by rw [List.drop_zero, Option.map_some, Policy.flatten_tokens])

/-- A line is taken out at the end of the old text, and one is put in at the start. -/
theorem normal_roundtrip_of_bytes : ∃ a b script windows text printer commands,
    Sequence.ofSource (.ofBytes "old" .raw [97, 10, 98, 10]) .line {} = .ok a ∧
    Sequence.ofSource (.ofBytes "new" .raw [99, 10, 97, 10]) .line {} = .ok b ∧
    endsLine [97, 10, 98, 10] = true ∧ endsLine [99, 10, 97, 10] = true ∧
    (a.table.comparison b.table).script true {} (a.window, b.window) = .ok script windows ∧
    Layout.printAll ⟨a.table, b.table, .raw⟩ (script.report .normal 0) { windows } = .ok text printer ∧
    Normal.parse text = some commands ∧
    Patch.apply (commands.map Normal.Command.hunk) [97, 10, 98, 10] = some [99, 10, 97, 10] := by
  have hold := Source.replays_ofBytes "old" [97, 10, 98, 10]
  have hnew := Source.replays_ofBytes "new" [99, 10, 97, 10]
  obtain ⟨a, b, ha, hb, hreport⟩ := normal_roundtrip hold hnew rfl rfl true {}
  obtain ⟨script, windows, hscript⟩ := exists_script_of_replays hold hnew (by decide) true ha hb
  obtain ⟨text, printer, commands, hprint, hparse, -, happly⟩ := hreport script windows hscript 0
  exact ⟨a, b, script, windows, text, printer, commands, ha, hb, rfl, rfl, hscript, hprint, hparse, happly⟩

end TokenDiff
