import TokenDiff.Proofs.Report.Blocks
import TokenDiff.Proofs.Report.Buffering
import TokenDiff.Proofs.Report.Commands

/-!
# Both texts in one report

The report for browsers shows each edit behind the text that stays before it, as a `Passage`, and at the end
the text that stays after the last edit. Read without what the edits put in it is the old text, since the
snakes and gaps of a script follow one another on each side (`Route.flatMap_slice`). Read without what they
take out it is the new text under the policies by which tokens are the same only if their bytes are; all text
that stays is printed from the old side.
-/

namespace TokenDiff

structure Passage where
  common : List UInt8
  deleted : List UInt8
  added : List UInt8
deriving DecidableEq, Repr

namespace Passage

def markup (passage : Passage) : List UInt8 :=
  passage.common ++ utf8Bytes "<font color=red>" ++ passage.deleted ++
    utf8Bytes "</font><font color=blue>" ++ passage.added ++ utf8Bytes "</font>"

def ofStep (p : Policy) (S T : List UInt8) (step : Step) : Passage where
  common := p.spanBytes .raw S (step.1.on .old)
  deleted := p.spanBytes .raw S ((Step.gap step).on .old)
  added := p.spanBytes .raw T ((Step.gap step).on .new)

end Passage

/-! ## Snakes and gaps one after the other -/

def Span.slice {α : Type} (span : Span) (l : List α) : List α := l.extract span.start span.stop

section

variable {old new : List (List UInt8)} {s e : Snake} {steps : List Step}

/-- The snakes and gaps of a route on one side make up what lies between its ends. -/
theorem Route.flatMap_slice (h : Route old new s steps e) (side : Side) {α : Type} (l : List α) :
    (steps.flatMap fun step => (step.1.on side).slice l ++ ((Step.gap step).on side).slice l) ++
      (e.on side).slice l = l.extract (s.on side).start (e.on side).stop := by
  induction h with
  | nil hs => rfl
  | @cons s t e steps hs hgap rest ih =>
      have hsnake := hs.on_le side
      have hbetween := (Route.cons hs hgap (.nil rest.head)).on_le (List.cons_ne_nil _ _) side
      have hrest := Nat.le_trans (rest.on_start_le side) (rest.last.on_le side)
      rw [List.flatMap_cons, List.append_assoc, ih, Step.gap_on, Span.slice, Span.slice, List.append_assoc,
        extract_append_extract l hbetween hrest,
        extract_append_extract l hsnake (Nat.le_trans hbetween hrest)]

theorem Snake.Joins.slice_eq (h : s.Joins old new) : (s.on .old).slice old = (s.on .new).slice new :=
  h.extract_end 0

end

/-! ## What is printed -/

section

variable {p : Policy} {S T : List UInt8}

theorem Policy.eq_of_same_bytes (hp : p ∈ [Policy.line, .word, .wordClass]) (xs ys : List UInt8)
    (h : p.same xs ys = true) : xs = ys := by
  rw [same, Bool.and_eq_true] at h
  cases p with
  | line => exact eq_of_beq h.2
  | word => exact eq_of_beq h.2
  | wordClass => exact eq_of_beq h.2
  | lineEnding => simp at hp
  | ignoreBlanks => simp at hp
  | ignoreWhitespace => simp at hp

section

variable {old new : List (List UInt8)} {s e : Snake} {steps : List Step}

/-- The report for browsers is the passages of its steps and what stays after the last one. -/
theorem bytes_htmlSnakes (h : Route old new s steps e) :
    (htmlSnakes (s :: steps.map Prod.snd)).flatMap (·.bytes p .raw S T) =
      (steps.map (Passage.ofStep p S T)).flatMap Passage.markup ++ p.spanBytes .raw S (e.on .old) := by
  induction h with
  | nil _ => exact List.append_nil _
  | @cons s t e steps hs hgap rest ih =>
      rw [List.map_cons, htmlSnakes, List.flatMap_append, ih, List.map_cons, List.flatMap_cons,
        List.append_assoc]
      simp only [List.flatMap_cons, List.flatMap_nil, List.append_nil, Passage.markup, List.append_assoc]
      rfl

theorem flatMap_flatten_slices {f : Passage → List UInt8} {g : Step → List (List UInt8)}
    (h : ∀ step ∈ steps, f (Passage.ofStep p S T step) = (g step).flatten) :
    (steps.map (Passage.ofStep p S T)).flatMap f = (steps.flatMap g).flatten := by
  rw [List.flatMap_map, List.flatMap_congr h, ← List.flatMap_id, List.flatMap_assoc]
  simp only [List.flatMap_id]

/-- The passages without what is put in are the old tokens. -/
theorem flatMap_passages_old (h : Route old new s steps e) :
    (steps.map (Passage.ofStep p S T)).flatMap (fun passage => passage.common ++ passage.deleted) ++
        p.spanBytes .raw S (e.on .old) =
      ((p.tokens S).extract (s.on .old).start (e.on .old).stop).flatten := by
  have hpassage : ∀ step ∈ steps, (Passage.ofStep p S T step).common ++ (Passage.ofStep p S T step).deleted =
      ((step.1.on .old).slice (p.tokens S) ++ ((Step.gap step).on .old).slice (p.tokens S)).flatten := by
    intro step _
    rw [List.flatten_append, Passage.ofStep, spanBytes_extract, spanBytes_extract]
    rfl
  rw [← h.flatMap_slice .old, List.flatten_append, flatMap_flatten_slices hpassage, spanBytes_extract]
  rfl

/-- The passages without what is taken out are the new tokens, if the snakes join equal tokens. -/
theorem flatMap_passages_new (h : Route old new s steps e)
    (hsteps : ∀ step ∈ steps, step.1.Joins (p.tokens S) (p.tokens T))
    (hlast : e.Joins (p.tokens S) (p.tokens T)) :
    (steps.map (Passage.ofStep p S T)).flatMap (fun passage => passage.common ++ passage.added) ++
        p.spanBytes .raw S (e.on .old) =
      ((p.tokens T).extract (s.on .new).start (e.on .new).stop).flatten := by
  have hcommon {t : Snake} (ht : t.Joins (p.tokens S) (p.tokens T)) :
      p.spanBytes .raw S (t.on .old) = ((t.on .new).slice (p.tokens T)).flatten := by
    rw [spanBytes_extract, ← ht.slice_eq]
    rfl
  have hpassage : ∀ step ∈ steps, (Passage.ofStep p S T step).common ++ (Passage.ofStep p S T step).added =
      ((step.1.on .new).slice (p.tokens T) ++ ((Step.gap step).on .new).slice (p.tokens T)).flatten := by
    intro step hstep
    rw [List.flatten_append, Passage.ofStep, hcommon (hsteps step hstep), spanBytes_extract]
    rfl
  rw [← h.flatMap_slice .new, List.flatten_append, flatMap_flatten_slices hpassage, hcommon hlast]

theorem Policy.flatten_extract {text : List UInt8} {i j : Nat} (hi : i = 0)
    (hj : j = (p.tokens text).length) : ((p.tokens text).extract i j).flatten = text := by
  rw [hi, hj, List.extract_eq_take_drop, Nat.sub_zero, List.drop_zero, List.take_length, flatten_tokens]

theorem Route.getLast?_eq (h : Route old new s steps e) : (s :: steps.map Prod.snd).getLast? = some e := by
  induction h with
  | nil _ => rfl
  | cons _ _ _ ih => rwa [List.map_cons, List.getLast?_cons_cons]

end

end

/-! ## Both texts -/

/-- The report for browsers, with line ends as they are and whatever has been printed before it, consists of
a passage for each snake but the last, and what the last one keeps. Without what the edits put in it is the
old text under every policy. Without what they take out it is the new text, if tokens are the same only if
their bytes are. What has been printed before is anything but a context that is too wide. -/
theorem html_carries_both_texts {S T : List UInt8} {old new : Source} (hold : old.Replays S)
    (hnew : new.Replays T) (p : Policy) (tuning tuning' : Tuning) :
    ∃ a b, Sequence.ofSource old p tuning = .ok a ∧ Sequence.ofSource new p tuning' = .ok b ∧
      ∀ fast search script windows,
        (a.table.comparison b.table).script fast search (a.window, b.window) = .ok script windows →
        ∃ last, script.snakes.getLast? = some last ∧
          let passages := script.steps.map (Passage.ofStep p S T)
          let rest := p.spanBytes .raw S (last.on .old)
          passages.length + 1 = script.snakes.length ∧
          (∀ format context, (format ∈ [Format.context, .unified] →
            2 * context + a.table.count + b.table.count < Word.modulus) → script.Printable format context) ∧
          (∀ requests, (∀ request ∈ requests, script.Printable request.1 request.2) → ∃ texts printer,
            Layout.printReports ⟨a.table, b.table, .raw⟩ script requests { windows } = .ok texts printer ∧
            ∀ context, ∃ printer',
              Layout.printAll ⟨a.table, b.table, .raw⟩ (script.report .html context) printer =
                .ok (passages.flatMap Passage.markup ++ rest) printer') ∧
          passages.flatMap (fun passage => passage.common ++ passage.deleted) ++ rest = S ∧
          (p ∈ [Policy.line, .word, .wordClass] →
            passages.flatMap (fun passage => passage.common ++ passage.added) ++ rest = T) := by
  obtain ⟨a, ha, hofA⟩ := Sequence.exists_ofSource hold p tuning
  obtain ⟨b, hb, hofB⟩ := Sequence.exists_ofSource hnew p tuning'
  refine ⟨a, b, ha, hb, fun fast search script windows hscript => ?_⟩
  rw [hofA.count_eq, hofB.count_eq]
  rw [hofA.table, hofB.table] at hscript ⊢
  obtain ⟨hover, hcounts, haligns⟩ := aligns_of_script ⟨hofA.window, hofB.window⟩ hscript
  obtain ⟨s, e, htrail, hsnakes, ⟨hx, hy⟩, hu, hv⟩ := haligns.trail
  have hlast : script.snakes.getLast? = some e := by rw [hsnakes, htrail.getLast?_eq]
  have hbytes (context : Nat) : (script.report .html context).flatMap (·.bytes p .raw S T) =
      (script.steps.map (Passage.ofStep p S T)).flatMap Passage.markup ++ p.spanBytes .raw S (e.on .old) := by
    rw [Script.report, hsnakes, bytes_htmlSnakes htrail]
  refine ⟨e, hlast, ?_, fun format context hword => ?_, fun requests hprintable => ?_, ?_, fun hp => ?_⟩
  · rw [hsnakes, List.length_map, List.length_cons, List.length_map]
  · rw [← hcounts.1, ← hcounts.2] at hword
    exact haligns.printable_iff.2 fun hformat => haligns.sumsFit (hword hformat)
  · obtain ⟨texts, printer, hrun, hover', rfl⟩ :=
      (printReports_ensures_across .raw hcounts haligns hprintable).exists_ok (s := { windows }) hover
    refine ⟨_, printer, hrun, fun context => ?_⟩
    have hone : script.Printable .html context := haligns.printable_iff.2 (by simp)
    obtain ⟨text, printer', hprint, -, rfl⟩ :=
      (printReport_ensures_across .raw hcounts haligns hone).exists_ok hover'
    rw [hbytes context] at hprint
    exact ⟨printer', hprint⟩
  · rw [flatMap_passages_old htrail]
    exact Policy.flatten_extract hx (hu.trans hcounts.1)
  · have hjoins := haligns.joins_of_same (Policy.eq_of_same_bytes hp) hcounts
    have hsteps := forall_steps hjoins
    rw [flatMap_passages_new htrail (fun step hstep => (hsteps step hstep).1)
      (hjoins e (List.mem_of_getLast? hlast))]
    exact Policy.flatten_extract hy (hv.trans hcounts.2)

/-- A word is replaced and another one is added at the end. -/
theorem html_carries_both_texts_of_bytes : ∃ a b script windows texts printer printer' last,
    Sequence.ofSource (.ofBytes "old" .raw (utf8Bytes "a b")) .wordClass {} = .ok a ∧
    Sequence.ofSource (.ofBytes "new" .raw (utf8Bytes "c b d")) .wordClass {} = .ok b ∧
    (a.table.comparison b.table).script true {} (a.window, b.window) = .ok script windows ∧
    script.snakes.getLast? = some last ∧
    Layout.printReports ⟨a.table, b.table, .raw⟩ script [(.unified, 3)] { windows } = .ok texts printer ∧
    Layout.printAll ⟨a.table, b.table, .raw⟩ (script.report .html 0) printer =
      .ok (utf8Bytes ("<font color=red>a</font><font color=blue>c</font> b" ++
        "<font color=red></font><font color=blue> d</font>")) printer' ∧
    (script.steps.map (Passage.ofStep .wordClass (utf8Bytes "a b") (utf8Bytes "c b d"))).flatMap
        (fun passage => passage.common ++ passage.added) ++
      Policy.wordClass.spanBytes .raw (utf8Bytes "a b") (last.on .old) = utf8Bytes "c b d" := by
  have hold := Source.replays_ofBytes "old" (utf8Bytes "a b")
  have hnew := Source.replays_ofBytes "new" (utf8Bytes "c b d")
  obtain ⟨a, b, ha, hb, hreport⟩ := html_carries_both_texts hold hnew .wordClass {} {}
  obtain ⟨script, windows, hscript⟩ := exists_script_of_replays hold hnew (by decide) true ha hb
  have hcount : a.table.count = 3 := (Sequence.of_ofSource hold ha).count_eq
  have hcount' : b.table.count = 5 := (Sequence.of_ofSource hnew hb).count_eq
  obtain ⟨last, hlast, -, hprintable, hprint, -, hadded⟩ := hreport true {} script windows hscript
  have hunified : script.Printable .unified 3 := hprintable .unified 3 fun _ => by
    rw [hcount, hcount']
    decide
  obtain ⟨texts, printer, hrun, hprint⟩ := hprint [(.unified, 3)] (List.forall_mem_singleton.2 hunified)
  obtain ⟨printer', hprint⟩ := hprint 0
  have hscript' : (do
      let a ← Sequence.ofSource (.ofBytes "old" .raw (utf8Bytes "a b")) .wordClass {}
      let b ← Sequence.ofSource (.ofBytes "new" .raw (utf8Bytes "c b d")) .wordClass {}
      match (a.table.comparison b.table).script true {} (a.window, b.window) with
      | .ok script _ => return script
      | .error fault _ => throw fault : Except Fault Script) =
        .ok ⟨[⟨0, 0, 0, 0⟩, ⟨1, 3, 1, 3⟩, ⟨3, 3, 5, 5⟩], 3, 5, 42⟩ := by
    cbv
  rw [ha, hb] at hscript'
  simp only [bind, Except.bind, hscript] at hscript'
  obtain rfl := Except.ok.inj hscript'
  obtain rfl := Option.some.inj hlast
  refine ⟨a, b, _, windows, texts, printer, printer', _, ha, hb, hscript, rfl, hrun, hprint.trans ?_,
    hadded (by decide)⟩
  cbv

end TokenDiff
