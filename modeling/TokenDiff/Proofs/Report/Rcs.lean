import TokenDiff.Proofs.Report.Commands

/-!
# The report for machines is an edit script

A report in the `rcs` style is read as commands that take lines out of the old text and put lines of the new
text in, and applied to the old text they yield the new one (`rcs_roundtrip`). The inserted lines stand in
the report as they are, without a mark. So it is their number alone that says where the next command begins,
and this number is right because no line in the middle of the report lacks its line end.
-/

namespace TokenDiff

open Window

namespace Rcs

inductive Command where
  /-- takes out so many lines, from the first one on -/
  | delete (first count : Nat)
  /-- puts lines in after a line of the old text, which is line zero if they come before all others -/
  | append (after : Nat) (lines : List (List UInt8))
deriving DecidableEq, Repr

/-- Applies commands to the lines from place `i` on. A command has to speak of lines that are there, and not
of any before the place where the last one has left off. -/
def applyFrom (old : List (List UInt8)) (i : Nat) : List Command → Option (List (List UInt8))
  | [] => some (old.drop i)
  | .delete first count :: commands =>
    if i < first ∧ first - 1 + count ≤ old.length then
      (applyFrom old (first - 1 + count) commands).map (old.extract i (first - 1) ++ ·)
    else none
  | .append after lines :: commands =>
    if i ≤ after ∧ after ≤ old.length then
      (applyFrom old after commands).map (old.extract i after ++ lines ++ ·)
    else none

/-- Applies commands to a text, which is cut into its lines. -/
def apply (commands : List Command) (text : List UInt8) : Option (List UInt8) :=
  (applyFrom (Policy.line.tokens text) 0 commands).map List.flatten

/-! ## Reading and writing -/

def readNumbers (letter : String) (line : List UInt8) : Option (Nat × Nat) := do
  let (place, text) ← readNumber (← Patch.expect letter line)
  let (count, text) ← readNumber (← Patch.expect " " text)
  if text = utf8Bytes "\n" then some (place, count) else none

/-- Reads a command, which brings along as many lines as it puts in. -/
def readCommand : List (List UInt8) → Option (Command × List (List UInt8))
  | [] => none
  | line :: lines =>
    match readNumbers "d" line with
    | some (first, count) => some (.delete first count, lines)
    | none =>
      match readNumbers "a" line with
      | some (after, count) =>
        if count ≤ lines.length then some (.append after (lines.take count), lines.drop count) else none
      | none => none

def parse (text : List UInt8) : Option (List Command) := readAll readCommand (Policy.line.tokens text)

def commandLine (letter : String) (place count : Nat) : List UInt8 :=
  utf8Bytes s!"{letter}{place} {count}\n"

def Command.written : Command → List (List UInt8)
  | .delete first count => [commandLine "d" first count]
  | .append after lines => commandLine "a" after lines.length :: lines

theorem commandLine_eq (letter : String) (place count : Nat) : commandLine letter place count =
    utf8Bytes letter ++ (utf8Bytes (toString place) ++ (utf8Bytes " " ++
      (utf8Bytes (toString count) ++ utf8Bytes "\n"))) := by
  simp only [← utf8Bytes_append, ← String.append_assoc]
  rfl

theorem readNumbers_commandLine (letter : String) (place count : Nat) :
    readNumbers letter (commandLine letter place count) = some (place, count) := by
  have hspace : ∃ b bytes, utf8Bytes " " = b :: bytes ∧ isDigitByte b = false := ⟨32, [], by decide, rfl⟩
  have hend : ∃ b bytes, utf8Bytes "\n" = b :: bytes ∧ isDigitByte b = false := ⟨10, [], by decide, rfl⟩
  have hlast := Patch.readNumber_append_text count "\n" [] hend
  rw [List.append_nil] at hlast
  rw [commandLine_eq, readNumbers, Patch.expect_append]
  simp only [Option.bind_eq_bind, Option.bind_some, Patch.readNumber_append_text _ _ _ hspace,
    Patch.expect_append, hlast, if_pos]

theorem readNumbers_append_line (place count : Nat) : readNumbers "d" (commandLine "a" place count) = none := by
  have hletter : Patch.expect "d" (commandLine "a" place count) = none := by
    rw [commandLine_eq]
    rfl
  rw [readNumbers, hletter]
  rfl

theorem terminated_commandLine {letter : String} (hletter : (10 : UInt8) ∉ utf8Bytes letter)
    (place count : Nat) : Patch.Terminated (commandLine letter place count) := by
  refine ⟨utf8Bytes letter ++ (utf8Bytes (toString place) ++ (utf8Bytes " " ++
    utf8Bytes (toString count))), ?_, ?_⟩
  · have hend : utf8Bytes "\n" = [10] := by decide
    rw [commandLine_eq, hend]
    simp only [List.append_assoc]
  · simp only [List.mem_append, hletter, lineFeed_not_mem_toString, false_or, or_false]
    decide

theorem terminated_delete_line (first count : Nat) : Patch.Terminated (commandLine "d" first count) :=
  terminated_commandLine (by decide) first count

theorem terminated_append_line (after count : Nat) : Patch.Terminated (commandLine "a" after count) :=
  terminated_commandLine (by decide) after count

/-- A command is read back from what is written of it, whatever follows. -/
theorem readCommand_written (c : Command) (rest : List (List UInt8)) :
    readCommand (c.written ++ rest) = some (c, rest) := by
  cases c with
  | delete first count =>
      rw [Command.written, List.singleton_append, readCommand, readNumbers_commandLine]
  | append after lines =>
      have hlength : lines.length ≤ (lines ++ rest).length := by
        rw [List.length_append]
        exact Nat.le_add_right _ _
      rw [Command.written, List.cons_append, readCommand, readNumbers_append_line,
        readNumbers_commandLine]
      simp only [if_pos hlength, List.take_left, List.drop_left]

/-- What is written of commands is read back, if only the last line may lack its line end. -/
theorem parse_written {commands : List Command}
    (h : ∀ line ∈ commands.flatMap Command.written, IsLine line)
    (hends : (commands.flatMap Command.written).IsChain fun line _ => endsLine line = true) :
    parse (commands.flatMap Command.written).flatten = some commands := by
  rw [parse, tokens_flatten_of_isChain h hends]
  refine readAll_flatMap (fun c => ?_) fun c _ => readCommand_written c
  cases c <;> exact List.cons_ne_nil _ _

example : parse (utf8Bytes "d1 2\na2 1\nx") = some [.delete 1 2, .append 2 [[120]]] := by
  decide +kernel

/-! ## The commands of a script -/

def ofStep (new : List (List UInt8)) (step : Step) : List Command :=
  (if step.1.u < step.2.x then [.delete (step.1.u + 1) (step.2.x - step.1.u)] else []) ++
    if step.1.v < step.2.y then [.append step.2.x (new.extract step.1.v step.2.y)] else []

section

variable {old new out : List (List UInt8)} {s e : Snake} {steps : List Step} {commands : List Command}
  {i j : Nat}

/-- The lines up to a later place are kept. -/
theorem applyFrom_skip (hij : i ≤ j) (h : applyFrom old j commands = some out) :
    applyFrom old i commands = some (old.extract i j ++ out) := by
  cases commands with
  | nil =>
      obtain rfl := Option.some.inj h
      rw [applyFrom, extract_append_drop old hij]
  | cons c commands =>
      cases c with
      | delete first count =>
          rw [applyFrom] at h ⊢
          obtain ⟨hfits, hout⟩ := Option.ite_none_right_eq_some.1 h
          obtain ⟨rest, hrest, rfl⟩ := Option.map_eq_some_iff.1 hout
          rw [if_pos ⟨by omega, hfits.2⟩, hrest, Option.map_some, ← List.append_assoc,
            extract_append_extract old hij (by omega)]
      | append after lines =>
          rw [applyFrom] at h ⊢
          obtain ⟨hfits, hout⟩ := Option.ite_none_right_eq_some.1 h
          obtain ⟨rest, hrest, rfl⟩ := Option.map_eq_some_iff.1 hout
          rw [if_pos ⟨by omega, hfits.2⟩, hrest, Option.map_some, ← List.append_assoc, ← List.append_assoc,
            extract_append_extract old hij hfits.1]

theorem applyFrom_append (lines : List (List UInt8)) (hi : i ≤ old.length)
    (h : applyFrom old i commands = some out) :
    applyFrom old i (.append i lines :: commands) = some (lines ++ out) := by
  rw [applyFrom, if_pos ⟨Nat.le_refl i, hi⟩, h, Option.map_some, extract_self, List.nil_append]

theorem applyFrom_delete {count : Nat} (hi : i + count ≤ old.length)
    (h : applyFrom old (i + count) commands = some out) :
    applyFrom old i (.delete (i + 1) count :: commands) = some out := by
  rw [applyFrom, Nat.add_sub_cancel, if_pos ⟨Nat.lt_succ_self i, hi⟩, h, Option.map_some, extract_self,
    List.nil_append]

/-- The commands of a step replace the old lines between its snakes by the new ones. -/
theorem applyFrom_ofStep {s t : Snake} (hgap : s.u ≤ t.x ∧ s.v ≤ t.y) (ht : t.x ≤ old.length)
    (h : applyFrom old t.x commands = some (new.drop t.y)) :
    applyFrom old s.u (ofStep new (s, t) ++ commands) = some (new.drop s.v) := by
  have happend : applyFrom old t.x
      ((if s.v < t.y then [.append t.x (new.extract s.v t.y)] else []) ++ commands) =
        some (new.drop s.v) := by
    split
    · rw [List.singleton_append, applyFrom_append _ ht h, extract_append_drop new hgap.2]
    · have hplace : s.v = t.y := by omega
      rw [List.nil_append, h, hplace]
  rw [ofStep, List.append_assoc]
  dsimp only
  split
  · have hcount : s.u + (t.x - s.u) = t.x := Nat.add_sub_cancel' hgap.1
    rw [List.singleton_append]
    exact applyFrom_delete (by omega) (by rwa [hcount])
  · have hplace : s.u = t.x := by omega
    rw [List.nil_append, hplace]
    exact happend

/-- The commands of a script replace the old lines after a snake by the new ones. -/
theorem applyFrom_ofSteps (h : Route old new s steps e)
    (hcorner : e.u = old.length ∧ e.v = new.length) :
    applyFrom old s.u (steps.flatMap (ofStep new)) = some (new.drop s.v) := by
  induction h with
  | nil hs =>
      rw [List.flatMap_nil, applyFrom, hcorner.1, hcorner.2, List.drop_length, List.drop_length]
  | @cons s t e steps hs hgap rest ih =>
      obtain ⟨hxu, hu, hv, hdiag, -⟩ := rest.head
      have hkept := applyFrom_skip hxu (ih hcorner)
      have hsame : old.extract t.x t.u = new.extract t.y t.v := rest.head.extract_end 0
      rw [hsame, extract_append_drop new (by omega)] at hkept
      exact applyFrom_ofStep hgap (by omega) hkept

end

/-! ## What is printed of a script -/

section

variable {S T : List UInt8} {s e : Snake} {steps : List Step} {step : Step}

/-- What is printed of a step is what is written of its commands. -/
theorem bytes_rcsStep (hy : step.2.y ≤ (Policy.line.tokens T).length) :
    (rcsStep step).flatMap (·.bytes .line .raw S T) =
      ((ofStep (Policy.line.tokens T) step).flatMap Command.written).flatten := by
  obtain ⟨s, t⟩ := step
  have hlength : ((Policy.line.tokens T).extract s.v t.y).length = t.y - s.v := length_extract_of_le _ hy
  have happend : (Command.written (.append t.x ((Policy.line.tokens T).extract s.v t.y))).flatten =
      commandLine "a" t.x (t.y - s.v) ++ Policy.line.spanBytes .raw T ⟨s.v, t.y⟩ := by
    rw [Command.written, List.flatten_cons, hlength, spanBytes_extract]
  rw [rcsStep, ofStep, List.flatMap_append, List.flatMap_append, List.flatten_append]
  dsimp only
  congr 1
  · split
    · rw [List.flatMap_singleton, List.flatMap_singleton, Command.written, List.flatten_singleton]
      rfl
    · rfl
  · split
    · rw [List.flatMap_cons, List.flatMap_singleton, List.flatMap_singleton, happend]
      rfl
    · rfl

theorem sum_commandCount_rcsStep (new : List (List UInt8)) :
    ((rcsStep step).map Piece.commandCount).sum = (ofStep new step).length := by
  obtain ⟨s, t⟩ := step
  rw [rcsStep, ofStep]
  dsimp only
  split <;> split <;> rfl

theorem sum_commandCount_rcsSteps (steps : List Step) (new : List (List UInt8)) :
    ((steps.flatMap rcsStep).map Piece.commandCount).sum = (steps.flatMap (ofStep new)).length := by
  induction steps with
  | nil => rfl
  | cons step steps ih =>
      rw [List.flatMap_cons, List.map_append, List.sum_append, sum_commandCount_rcsStep new, ih,
        List.flatMap_cons, List.length_append]

theorem mem_ofStep_written {line : List UInt8} {new : List (List UInt8)}
    (h : line ∈ (ofStep new step).flatMap Command.written) :
    Patch.Terminated line ∨ line ∈ new.extract step.1.v step.2.y := by
  obtain ⟨c, hc, hline⟩ := List.mem_flatMap.1 h
  rw [ofStep, List.mem_append] at hc
  rcases hc with hc | hc
  · split at hc
    · rw [List.mem_singleton.1 hc, Command.written, List.mem_singleton] at hline
      exact .inl (hline ▸ terminated_delete_line _ _)
    · cases hc
  · split at hc
    · rw [List.mem_singleton.1 hc, Command.written, List.mem_cons] at hline
      refine hline.imp (fun hline => ?_) id
      rw [hline]
      exact terminated_append_line _ _
    · cases hc

theorem isLine_of_mem_ofStep {line : List UInt8}
    (h : line ∈ (ofStep (Policy.line.tokens T) step).flatMap Command.written) : IsLine line :=
  (mem_ofStep_written h).elim (fun h => h.isLine) fun h => isLine_of_mem (mem_of_mem_extract h)

theorem endsLine_of_mem_ofStep {line : List UInt8} (hy : step.2.y < (Policy.line.tokens T).length)
    (h : line ∈ (ofStep (Policy.line.tokens T) step).flatMap Command.written) : endsLine line = true :=
  (mem_ofStep_written h).elim (fun h => h.endsLine) (endsLine_of_mem_extract hy)

/-- Of the lines of a step only the last one may lack its line end. -/
theorem isChain_ofStep (T : List UInt8) (step : Step) :
    ((ofStep (Policy.line.tokens T) step).flatMap Command.written).IsChain
      fun line _ => endsLine line = true := by
  have hlines : ((Policy.line.tokens T).extract step.1.v step.2.y).IsChain
      fun line _ => endsLine line = true := by
    rw [List.extract_eq_take_drop]
    exact ((isChain_endsLine T).drop _).take _
  have happend : ((if step.1.v < step.2.y then
      [Command.append step.2.x ((Policy.line.tokens T).extract step.1.v step.2.y)] else []).flatMap
        Command.written).IsChain fun line _ => endsLine line = true := by
    split
    · rw [List.flatMap_singleton, Command.written, List.isChain_cons]
      exact ⟨fun _ _ => (terminated_append_line _ _).endsLine, hlines⟩
    · exact .nil
  rw [ofStep, List.flatMap_append]
  split
  · rw [List.flatMap_singleton, Command.written, List.singleton_append, List.isChain_cons]
    exact ⟨fun _ _ => (terminated_delete_line _ _).endsLine, happend⟩
  · exact happend

/-- Of the lines of a script only the last one may lack its line end, if there is a match between two edits:
after the end of the new text there is none. -/
theorem isChain_ofSteps (h : Route (Policy.line.tokens S) (Policy.line.tokens T) s steps e)
    (hsteps : steps.IsChain fun step _ => step.2.x < step.2.u) :
    ((steps.flatMap (ofStep (Policy.line.tokens T))).flatMap Command.written).IsChain
      fun line _ => endsLine line = true := by
  induction h with
  | nil _ => exact .nil
  | @cons s t e steps hs hgap rest ih =>
      rw [List.flatMap_cons, List.flatMap_append, List.isChain_append]
      refine ⟨isChain_ofStep T (s, t), ih hsteps.tail, fun line hline next hnext => ?_⟩
      cases steps with
      | nil => cases hnext
      | cons step steps =>
          obtain ⟨hxu, hu, hv, hdiag, -⟩ := rest.head
          have hlt := (List.isChain_cons_cons.1 hsteps).1
          dsimp only at hlt
          have hy : t.y < (Policy.line.tokens T).length := by omega
          exact endsLine_of_mem_ofStep hy (List.mem_of_mem_getLast? hline)

end

end Rcs

/-- The report for machines on the lines of two texts, with or without a line end after the last one, is an
edit script. Under any tuning it is printed whenever the search finds a script, and it is read as commands
that turn the old text into the new one, byte by byte. The printer counts these commands. -/
theorem rcs_roundtrip {S T : List UInt8} {old new : Source} (hold : old.Replays S) (hnew : new.Replays T)
    (fast : Bool) (tuning : Tuning) :
    ∃ a b, Sequence.ofSource old .line tuning = .ok a ∧ Sequence.ofSource new .line tuning = .ok b ∧
      ∀ script windows,
        (a.table.comparison b.table).script fast tuning (a.window, b.window) = .ok script windows →
        ∀ context count, ∃ text printer commands,
          Layout.printAll ⟨a.table, b.table, .raw⟩ (script.report .rcs context)
            { windows, commands := count } = .ok text printer ∧
          Rcs.parse text = some commands ∧ Rcs.apply commands S = some T ∧
          printer.commands = count + commands.length := by
  obtain ⟨⟨table, w⟩, ha, rfl, hw⟩ := Sequence.exists_ofSource hold .line tuning
  obtain ⟨⟨table, w'⟩, hb, rfl, hw'⟩ := Sequence.exists_ofSource hnew .line tuning
  refine ⟨_, _, ha, hb, fun script windows hscript context count => ?_⟩
  obtain ⟨-, -, hsettled⟩ := settled_of_script ⟨hw, hw'⟩ hscript
  obtain ⟨-, -, haligns⟩ := aligns_of_script ⟨hw, hw'⟩ hscript
  have hprintable : script.Printable .rcs context := haligns.printable_iff.2 (by simp)
  obtain ⟨printer, hprint, s, e, hroute, ⟨hx, hy⟩, hcorner⟩ :=
    exists_printed ⟨hw, hw'⟩ hscript hprintable count
  have hbytes : ((script.report .rcs context).flatMap (·.bytes .line .raw S T)) =
      ((script.steps.flatMap (Rcs.ofStep (Policy.line.tokens T))).flatMap Rcs.Command.written).flatten :=
    flatMap_bytes_steps fun step hstep => Rcs.bytes_rcsStep (hroute.inside step hstep).2.y_le
  refine ⟨_, printer, script.steps.flatMap (Rcs.ofStep (Policy.line.tokens T)), hprint, ?_, ?_, ?_⟩
  · rw [hbytes]
    refine Rcs.parse_written (fun line hline => ?_) (Rcs.isChain_ofSteps hroute hsettled.isChain_steps)
    rw [List.flatMap_assoc, List.mem_flatMap] at hline
    obtain ⟨step, -, hline⟩ := hline
    exact Rcs.isLine_of_mem_ofStep hline
  · have happly := Rcs.applyFrom_skip (Nat.zero_le s.u) (Rcs.applyFrom_ofSteps hroute hcorner)
    have hsame : (Policy.line.tokens S).extract s.x s.u = (Policy.line.tokens T).extract s.y s.v :=
      hroute.head.extract_end 0
    rw [hx, hy] at hsame
    rw [hsame, extract_append_drop _ (Nat.zero_le s.v), List.drop_zero] at happly
    rw [Rcs.apply, happly, Option.map_some, Policy.flatten_tokens]
  · have hcount := (counts_printAll _ _).of_ok hprint
    rw [hcount, Script.report, Rcs.sum_commandCount_rcsSteps]

/-- Neither text ends its last line, which is the one that is replaced. -/
theorem rcs_roundtrip_of_bytes : ∃ a b script windows text printer commands,
    Sequence.ofSource (.ofBytes "old" .raw [97, 10, 98]) .line {} = .ok a ∧
    Sequence.ofSource (.ofBytes "new" .raw [97, 10, 99]) .line {} = .ok b ∧
    (a.table.comparison b.table).script true {} (a.window, b.window) = .ok script windows ∧
    Layout.printAll ⟨a.table, b.table, .raw⟩ (script.report .rcs 0) { windows, commands := 2 } =
      .ok text printer ∧
    Rcs.parse text = some commands ∧ Rcs.apply commands [97, 10, 98] = some [97, 10, 99] ∧
    printer.commands = 2 + commands.length := by
  have hold := Source.replays_ofBytes "old" [97, 10, 98]
  have hnew := Source.replays_ofBytes "new" [97, 10, 99]
  obtain ⟨a, b, ha, hb, hreport⟩ := rcs_roundtrip hold hnew true {}
  obtain ⟨script, windows, hscript⟩ := exists_script_of_replays hold hnew (by decide) true ha hb
  obtain ⟨text, printer, commands, hprint, hread⟩ := hreport script windows hscript 0 2
  exact ⟨a, b, script, windows, text, printer, commands, ha, hb, hscript, hprint, hread⟩

end TokenDiff
