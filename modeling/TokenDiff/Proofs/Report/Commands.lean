import TokenDiff.Proofs.Report.Unified

/-!
# Edit commands

What the two styles that consist of edit commands have in common. A report of this kind is read line by
line, one command after the other (`readAll`). The lines that were written are the lines that are read, if
only the last one may lack its line end (`tokens_flatten_of_isChain`); in the middle of a script no line of
an edit lacks it, since a snake that is not empty follows the edit (`Settled.isChain_steps`).

A printer counts the commands it writes, whatever else it prints between them (`counts_printAll`).
-/

namespace TokenDiff

/-! ## Reading one command after the other -/

/-- What is read of a text piece by piece. Each piece has to take something of the text. -/
def readAll {α β : Type} (read : List α → Option (β × List α)) (text : List α) : Option (List β) :=
  if text = [] then some []
  else
    match read text with
    | some (b, rest) =>
      if rest.length < text.length then (readAll read rest).map (b :: ·) else none
    | none => none
termination_by text.length

theorem readAll_flatMap {α β : Type} {read : List α → Option (β × List α)} {write : β → List α}
    {pieces : List β} (hne : ∀ b, write b ≠ [])
    (h : ∀ b ∈ pieces, ∀ rest, read (write b ++ rest) = some (b, rest)) :
    readAll read (pieces.flatMap write) = some pieces := by
  induction pieces with
  | nil => rw [List.flatMap_nil, readAll, if_pos rfl]
  | cons b pieces ih =>
      obtain ⟨hb, hrest⟩ := List.forall_mem_cons.1 h
      have hlength : (pieces.flatMap write).length < (write b ++ pieces.flatMap write).length := by
        have := List.length_pos_iff.2 (hne b)
        rw [List.length_append]
        omega
      rw [List.flatMap_cons, readAll, if_neg (List.append_ne_nil_of_left_ne_nil (hne b) _), hb]
      simp only [if_pos hlength, ih hrest, Option.map_some]

/-! ## The lines of a report -/

def IsLine (line : List UInt8) : Prop := line ≠ [] ∧ 10 ∉ line.dropLast

theorem Patch.Terminated.isLine {line : List UInt8} (h : Patch.Terminated line) : IsLine line := by
  obtain ⟨body, rfl, hbody⟩ := h
  refine ⟨by simp, ?_⟩
  rwa [List.dropLast_concat]

theorem Patch.Terminated.endsLine {line : List UInt8} (h : Patch.Terminated line) :
    endsLine line = true := by
  obtain ⟨body, rfl, -⟩ := h
  rw [TokenDiff.endsLine, List.getLast?_concat]
  rfl

theorem IsLine.terminated {line : List UInt8} (h : IsLine line) (hends : endsLine line = true) :
    Patch.Terminated line := by
  refine ⟨line.dropLast, ?_, h.2⟩
  rw [endsLine, List.getLast?_eq_some_getLast h.1] at hends
  rw [← eq_of_beq hends, List.dropLast_append_getLast h.1]

theorem isLine_of_mem {text line : List UInt8} (h : line ∈ Policy.line.tokens text) : IsLine line :=
  whole_of_mem h .context

/-- Lines that all have their line ends, but for the last one, are the lines of the text they make up. -/
theorem tokens_flatten_of_isChain {lines : List (List UInt8)} (h : ∀ line ∈ lines, IsLine line)
    (hends : lines.IsChain fun line _ => endsLine line = true) :
    Policy.line.tokens lines.flatten = lines := by
  refine List.splitBy_flatten (fun hnil => (h [] hnil).1 rfl) (fun line hline => ?_) ?_
  · obtain ⟨hne, hbody⟩ := h line hline
    have hfree : ∀ b ∈ line.dropLast, ∀ c, Policy.line.cuts b c = false :=
      fun b hb c => beq_false_of_ne fun heq => hbody (heq ▸ hb)
    have hchain := Policy.isChain_concat hfree (line.getLast hne)
    rw [List.dropLast_append_getLast] at hchain
    exact hchain.imp fun b c hbc => by rw [hbc]; rfl
  · refine hends.imp_of_mem_imp fun line next hline hnext hend => ?_
    refine ⟨(h line hline).1, (h next hnext).1, ?_⟩
    rw [endsLine, List.getLast?_eq_some_getLast (h line hline).1] at hend
    rw [Bool.not_eq_false']
    exact hend

theorem endsLine_of_mem_extract {text line : List UInt8} {i j : Nat}
    (hj : j < (Policy.line.tokens text).length) (h : line ∈ (Policy.line.tokens text).extract i j) :
    endsLine line = true := by
  rw [List.extract_eq_take_drop] at h
  obtain ⟨k, hk, rfl⟩ := List.getElem_of_mem h
  rw [List.length_take, List.length_drop] at hk
  rw [List.getElem_take, List.getElem_drop]
  exact List.isChain_iff_getElem.1 (isChain_endsLine text) (i + k) (by omega)

theorem mem_of_mem_extract {α : Type} {l : List α} {a : α} {i j : Nat} (h : a ∈ l.extract i j) : a ∈ l := by
  rw [List.extract_eq_take_drop] at h
  exact List.mem_of_mem_drop (List.mem_of_mem_take h)

theorem extract_self {α : Type} (l : List α) (i : Nat) : l.extract i i = [] := by
  rw [List.extract_eq_take_drop, Nat.sub_self, List.take_zero]

theorem spanBytes_extract {p : Policy} (text : List UInt8) (span : Span) :
    p.spanBytes .raw text span = ((p.tokens text).extract span.start span.stop).flatten := by
  rw [List.extract_eq_take_drop]
  rfl

/-- If what is printed of each step is what is written of its commands, then this is also true of the steps
as a whole. -/
theorem flatMap_bytes_steps {α : Type} {S T : List UInt8} {steps : List Step} {render : Step → List Piece}
    {ofStep : Step → List α} {write : α → List (List UInt8)}
    (h : ∀ step ∈ steps,
      (render step).flatMap (·.bytes .line .raw S T) = ((ofStep step).flatMap write).flatten) :
    (steps.flatMap render).flatMap (·.bytes .line .raw S T) =
      ((steps.flatMap ofStep).flatMap write).flatten := by
  induction steps with
  | nil => rfl
  | cons step steps ih =>
      obtain ⟨hstep, hrest⟩ := List.forall_mem_cons.1 h
      rw [List.flatMap_cons, List.flatMap_append, List.flatMap_cons, List.flatMap_append,
        List.flatten_append, hstep, ih hrest]

/-- A report on the lines of two texts is printed if it can be, and the steps of its script lead from the start of both
texts to their end. -/
theorem exists_printed {S T : List UInt8} {script : Script} {fast : Bool} {tuning : Tuning}
    {windows windows' : Window × Window} (hover : BothOver S T windows)
    (h : ((Policy.line.table S).comparison (Policy.line.table T)).script fast tuning windows =
      .ok script windows') {format : Format} {context : Nat} (hprintable : script.Printable format context)
    (count : Nat) :
    ∃ printer,
      Layout.printAll ⟨Policy.line.table S, Policy.line.table T, .raw⟩ (script.report format context)
          { windows := windows', commands := count } =
        .ok ((script.report format context).flatMap (·.bytes .line .raw S T)) printer ∧
      ∃ s e, Route (Policy.line.tokens S) (Policy.line.tokens T) s script.steps e ∧ (s.x = 0 ∧ s.y = 0) ∧
        e.u = (Policy.line.tokens S).length ∧ e.v = (Policy.line.tokens T).length := by
  obtain ⟨hover', hcounts, haligns⟩ := aligns_of_script hover h
  obtain ⟨text, printer, hprint, -, rfl⟩ := (printReport_ensures_across .raw hcounts haligns hprintable).exists_ok
    (s := { windows := windows', commands := count }) hover'
  exact ⟨printer, hprint, haligns.route hcounts⟩

/-! ## The steps of a settled script -/

/-- What is true of the snakes between two edits is true of the second snake of each step before
another. -/
theorem isChain_steps {P : Snake → Prop} {snakes : List Snake} (h : ∀ s ∈ snakes.tail.dropLast, P s) :
    (snakes.zip snakes.tail).IsChain fun step _ => P step.2 := by
  induction snakes with
  | nil => exact .nil
  | cons s snakes ih =>
      cases snakes with
      | nil => exact .nil
      | cons t snakes =>
          rw [List.tail_cons, List.zip_cons_cons, List.isChain_cons]
          refine ⟨fun step hstep => ?_, ih fun p hp => ?_⟩
          · cases snakes with
            | nil => cases hstep
            | cons r snakes => exact h t List.mem_cons_self
          · cases snakes with
            | nil => cases hp
            | cons r snakes => exact h p (List.mem_cons_of_mem t hp)

theorem Settled.isChain_steps {same : Nat → Nat → Bool} {endX endY : Nat} {script : Script}
    (h : Settled same endX endY 0 0 script.snakes) :
    script.steps.IsChain fun step _ => step.2.x < step.2.u :=
  TokenDiff.isChain_steps h.nonempty

/-! ## Counting commands -/

def Piece.commandCount : Piece → Nat
  | .command _ => 1
  | _ => 0

/-- However the printer gets through, it has counted so many commands more. -/
def Counts {α : Type} (x : PrintM α) (k : Nat) : Prop :=
  ∀ n, Leads (fun printer : Printer => printer.commands = n) (fun _ => True) x
    fun _ printer => printer.commands = n + k

namespace Counts

variable {α β : Type}

theorem pure (a : α) : Counts (Pure.pure a) 0 := fun _ => Leads.pure fun _ h => h

theorem bind {x : PrintM α} {f : α → PrintM β} {k l : Nat} (hx : Counts x k)
    (hf : ∀ a, Counts (f a) l) : Counts (x >>= f) (k + l) := by
  intro n
  rw [← Nat.add_assoc]
  exact (hx n).bind fun a => hf a (n + k)

theorem mapM {f : α → PrintM β} {g : α → Nat} {l : List α} (h : ∀ a, Counts (f a) (g a)) :
    Counts (l.mapM f) (l.map g).sum := by
  induction l with
  | nil =>
      rw [List.mapM_nil]
      exact pure []
  | cons a l ih =>
      rw [List.mapM_cons, List.map_cons, List.sum_cons]
      exact (h a).bind fun b => ih.bind fun bs => pure (b :: bs)

theorem of_ok {x : PrintM α} {k : Nat} (hx : Counts x k) {printer printer' : Printer} {a : α}
    (h : x printer = .ok a printer') : printer'.commands = printer.commands + k := by
  have hout := hx printer.commands printer rfl
  rwa [h] at hout

end Counts

section

variable (layout : Layout)

theorem counts_tokens (side : Side) (span : Span) : Counts (layout.tokens side span) 0 := by
  rintro n printer rfl
  cases side with
  | old =>
      simp only [Layout.tokens]
      cases PairM.onLeft (layout.old.dump span.start span.stop layout.lineType) printer.windows with
      | ok text windows => rfl
      | error fault windows => trivial
  | new =>
      simp only [Layout.tokens]
      cases PairM.onRight (layout.new.dump span.start span.stop layout.lineType) printer.windows with
      | ok text windows => rfl
      | error fault windows => trivial

theorem counts_print (piece : Piece) : Counts (layout.print piece) piece.commandCount := by
  cases piece with
  | text s => exact .pure _
  | command s => exact fun n printer hprinter => congrArg (· + 1) hprinter
  | tokens side span => exact (counts_tokens layout side span).bind fun text => .pure _
  | marked mark side span noted =>
      have htexts : Counts ((List.range' span.start span.length).mapM fun i =>
          layout.tokens side ⟨i, i + 1⟩) ((List.range' span.start span.length).map fun _ => 0).sum :=
        .mapM fun i => counts_tokens layout side ⟨i, i + 1⟩
      rw [List.map_const', List.sum_replicate, smul_zero] at htexts
      exact htexts.bind fun texts => .pure _
  | overflow => exact fun n => fun printer hprinter => trivial

/-- A printer counts the commands of a report. -/
theorem counts_printAll (pieces : List Piece) :
    Counts (layout.printAll pieces) (pieces.map Piece.commandCount).sum := by
  have htexts : Counts (pieces.mapM layout.print) (pieces.map Piece.commandCount).sum :=
    .mapM fun piece => counts_print layout piece
  exact htexts.bind fun texts => .pure _

end

end TokenDiff
