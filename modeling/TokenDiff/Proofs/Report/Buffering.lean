import TokenDiff.Proofs.Edit.Uniform
import TokenDiff.Proofs.Report.Text
import TokenDiff.Proofs.Token.Malformed
import TokenDiff.Proofs.Token.Sequence

/-!
# Buffers and pieces do not show

Two comparisons of the same contents that differ in the sizes of their windows, and in the pieces their
sources hand the contents out in, come to the same end. Each step leaves the windows somewhere in the texts
and depends on nothing else: the tables are those of the texts, the outcome of the search is the same from
all such windows, and so is the text of each report, or that it cannot be printed (`buffering_invisible`).
-/

namespace TokenDiff

def Layout.printReports (layout : Layout) (script : Script) (requests : List (Format × Nat)) :
    PrintM (List (List UInt8)) :=
  requests.mapM fun (format, context) => layout.printAll (script.report format context)

section

variable {p q : Policy} {S T : List UInt8} {script : Script} {requests : List (Format × Nat)}

/-- A printer writes each report as if it were the first one. -/
theorem printReports_ensures_across (type : LineType)
    (hcounts : script.oldCount = (p.tokens S).length ∧ script.newCount = (q.tokens T).length)
    (h : script.Aligns (p.sameAtAcross q S T))
    (hprintable : ∀ request ∈ requests, script.Printable request.1 request.2) :
    Ensures (Printer.Over S T) (fun _ => False)
      (Layout.printReports ⟨p.table S, q.table T, type⟩ script requests)
      (· = requests.map fun (format, context) =>
        (script.report format context).flatMap (·.bytesAcross p q type S T)) :=
  .mapM fun request hrequest => printReport_ensures_across type hcounts h (hprintable request hrequest)

/-- A printer stops at the first report that cannot be printed. -/
theorem printReports_overflows_across (type : LineType)
    (hcounts : script.oldCount = (p.tokens S).length ∧ script.newCount = (q.tokens T).length)
    (h : script.Aligns (p.sameAtAcross q S T))
    (hprintable : ∃ request ∈ requests, ¬ script.Printable request.1 request.2) :
    Ensures (Printer.Over S T) (· = .overflow)
      (Layout.printReports ⟨p.table S, q.table T, type⟩ script requests) fun _ => False := by
  have hall : Ensures (Printer.Over S T) (· = .overflow)
      (Layout.printReports ⟨p.table S, q.table T, type⟩ script requests)
      fun _ => ∀ request ∈ requests, script.Printable request.1 request.2 := by
    refine .mapM_forall fun request hrequest => ?_
    by_cases hone : script.Printable request.1 request.2
    · exact ((printReport_ensures_across type hcounts h hone).weaken fun _ => False.elim).imp fun _ _ => hone
    · exact (printReport_overflows_across type hcounts h hone).imp fun _ => False.elim
  obtain ⟨request, hrequest, hone⟩ := hprintable
  exact hall.imp fun _ h => hone (h request hrequest)

end

/-- The sequences of a content, or the fault that it is not valid, do not depend on how it is buffered. -/
theorem ofSource_invariant {source source' : Source} {content : List UInt8} (h : source.Carries content)
    (h' : source'.Carries content) (hcharset : source'.charset = source.charset) (p : Policy)
    (tuning tuning' : Tuning) :
    match source.charset.decode content with
    | .ok text => ∃ s s', Sequence.ofSource source p tuning = .ok s ∧ s.Of p text ∧
        Sequence.ofSource source' p tuning' = .ok s' ∧ s'.Of p text
    | .error place =>
        Sequence.ofSource source p tuning = .error (.read (.malformed source.charset place)) ∧
        Sequence.ofSource source' p tuning' = .error (.read (.malformed source.charset place)) := by
  cases hd : source.charset.decode content with
  | ok text =>
      obtain ⟨s, hs, hof⟩ := Sequence.exists_ofSource (h.replays hd) p tuning
      obtain ⟨s', hs', hof'⟩ := Sequence.exists_ofSource (h'.replays (hcharset ▸ hd)) p tuning'
      exact ⟨s, s', hs, hof, hs', hof'⟩
  | error place =>
      have hfault := Sequence.ofSource_malformed h' (hcharset ▸ hd) p tuning'
      rw [hcharset] at hfault
      exact ⟨Sequence.ofSource_malformed h hd p tuning, hfault⟩

/-- From any windows over two texts the search comes to the same outcome, and a printer writes the same text
for a report, whichever reports it has written before, or stops at the same overflow. -/
theorem reports_invariant {S T : List UInt8} {windows windows' : Window × Window}
    (h : BothOver S T windows) (h' : BothOver S T windows') (p : Policy) (fast : Bool) (type : LineType)
    (tuning : Tuning) :
    match ((p.table S).comparison (p.table T)).script fast tuning windows,
      ((p.table S).comparison (p.table T)).script fast tuning windows' with
    | .ok script windows, .ok script' windows' =>
      script' = script ∧
      (∀ format context, (format ∈ [Format.context, .unified] →
        2 * context + (p.table S).count + (p.table T).count < Word.modulus) → script.Printable format context) ∧
      ∃ text : Format → Nat → List UInt8, ∀ requests : List (Format × Nat),
        ((∀ request ∈ requests, script.Printable request.1 request.2) → ∃ printer printer',
          Layout.printReports ⟨p.table S, p.table T, type⟩ script requests { windows } =
            .ok (requests.map fun (format, context) => text format context) printer ∧
          Layout.printReports ⟨p.table S, p.table T, type⟩ script' requests { windows := windows' } =
            .ok (requests.map fun (format, context) => text format context) printer') ∧
        ((∃ request ∈ requests, ¬ script.Printable request.1 request.2) → ∃ printer printer',
          Layout.printReports ⟨p.table S, p.table T, type⟩ script requests { windows } =
            .error .overflow printer ∧
          Layout.printReports ⟨p.table S, p.table T, type⟩ script' requests { windows := windows' } =
            .error .overflow printer')
    | .error fault _, .error fault' _ => fault' = fault
    | _, _ => False := by
  have houtcome := script_uniform (comparison_decides p S T) fast tuning windows windows' h h'
  cases hs : ((p.table S).comparison (p.table T)).script fast tuning windows with
  | ok script windows₁ =>
      obtain ⟨hover, hcounts, haligns⟩ := aligns_of_script h hs
      cases hs' : ((p.table S).comparison (p.table T)).script fast tuning windows' with
      | ok script' windows₁' =>
          rw [hs, hs'] at houtcome
          obtain ⟨rfl, -, hover'⟩ := houtcome
          refine ⟨rfl, fun format context hword => haligns.printable_iff.2 fun hformat =>
            haligns.sumsFit ?_,
            fun format context => (script.report format context).flatMap (·.bytes p type S T),
            fun requests => ⟨fun hprintable => ?_, fun hprintable => ?_⟩⟩
          · rw [hcounts.1, hcounts.2, ← count_table, ← count_table]
            exact hword hformat
          · have hprint := printReports_ensures_across type hcounts haligns hprintable
            obtain ⟨texts, printer, hrun, -, rfl⟩ := hprint.exists_ok (s := { windows := windows₁ }) hover
            obtain ⟨texts, printer', hrun', -, rfl⟩ :=
              hprint.exists_ok (s := { windows := windows₁' }) hover'
            exact ⟨printer, printer', hrun, hrun'⟩
          · have hstop := printReports_overflows_across type hcounts haligns hprintable
            obtain ⟨fault, printer, hrun, rfl⟩ := hstop.exists_error (s := { windows := windows₁ }) hover
            obtain ⟨fault, printer', hrun', rfl⟩ :=
              hstop.exists_error (s := { windows := windows₁' }) hover'
            exact ⟨printer, printer', hrun, hrun'⟩
      | error fault windows₁' =>
          rw [hs, hs'] at houtcome
          exact houtcome.elim
  | error fault windows₁ =>
      cases hs' : ((p.table S).comparison (p.table T)).script fast tuning windows' with
      | ok script' windows₁' =>
          rw [hs, hs'] at houtcome
          exact houtcome.elim
      | error fault' windows₁' =>
          rw [hs, hs'] at houtcome
          exact houtcome.symm

/-- Two comparisons of the same contents, whose windows differ in size and whose sources hand the contents
out in different pieces. A content that is not valid under its charset is found out by both, at the same
place. Otherwise the tokens are the same and so is the outcome of the search, and each report that can be printed
comes out the same in both, whichever reports the printer has written before. One that cannot be printed, of those
with a context that is too wide, is found out by both. -/
theorem buffering_invisible {A B : List UInt8} {old old' new new' : Source} (hold : old.Carries A)
    (hold' : old'.Carries A) (hnew : new.Carries B) (hnew' : new'.Carries B)
    (hcharset : old'.charset = old.charset) (hcharset' : new'.charset = new.charset) (p : Policy)
    (fast : Bool) (type : LineType) (tuning : Tuning) (size : Nat) :
    (∀ place, old.charset.decode A = .error place →
      Sequence.ofSource old p tuning = .error (.read (.malformed old.charset place)) ∧
      Sequence.ofSource old' p { tuning with windowSize := size } =
        .error (.read (.malformed old.charset place))) ∧
    (∀ place, new.charset.decode B = .error place →
      Sequence.ofSource new p tuning = .error (.read (.malformed new.charset place)) ∧
      Sequence.ofSource new' p { tuning with windowSize := size } =
        .error (.read (.malformed new.charset place))) ∧
    ∀ S T, old.charset.decode A = .ok S → new.charset.decode B = .ok T →
      ∃ a a' b b', Sequence.ofSource old p tuning = .ok a ∧
        Sequence.ofSource old' p { tuning with windowSize := size } = .ok a' ∧
        Sequence.ofSource new p tuning = .ok b ∧
        Sequence.ofSource new' p { tuning with windowSize := size } = .ok b' ∧
        a'.table = a.table ∧ b'.table = b.table ∧
        match (a.table.comparison b.table).script fast tuning (a.window, b.window),
          (a'.table.comparison b'.table).script fast { tuning with windowSize := size }
            (a'.window, b'.window) with
        | .ok script windows, .ok script' windows' =>
          script' = script ∧
          (∀ format context, (format ∈ [Format.context, .unified] →
            2 * context + a.table.count + b.table.count < Word.modulus) → script.Printable format context) ∧
          ∃ text : Format → Nat → List UInt8, ∀ requests : List (Format × Nat),
            ((∀ request ∈ requests, script.Printable request.1 request.2) → ∃ printer printer',
              Layout.printReports ⟨a.table, b.table, type⟩ script requests { windows } =
                .ok (requests.map fun (format, context) => text format context) printer ∧
              Layout.printReports ⟨a'.table, b'.table, type⟩ script' requests { windows := windows' } =
                .ok (requests.map fun (format, context) => text format context) printer') ∧
            ((∃ request ∈ requests, ¬ script.Printable request.1 request.2) → ∃ printer printer',
              Layout.printReports ⟨a.table, b.table, type⟩ script requests { windows } =
                .error .overflow printer ∧
              Layout.printReports ⟨a'.table, b'.table, type⟩ script' requests { windows := windows' } =
                .error .overflow printer')
        | .error fault _, .error fault' _ => fault' = fault
        | _, _ => False := by
  have hleft := ofSource_invariant hold hold' hcharset p tuning { tuning with windowSize := size }
  have hright := ofSource_invariant hnew hnew' hcharset' p tuning { tuning with windowSize := size }
  refine ⟨fun place hd => ?_, fun place hd => ?_, fun S T hS hT => ?_⟩
  · rwa [hd] at hleft
  · rwa [hd] at hright
  · rw [hS] at hleft
    rw [hT] at hright
    obtain ⟨⟨table, l⟩, ⟨table', l'⟩, ha, ⟨rfl, hl⟩, ha', ⟨rfl, hl'⟩⟩ := hleft
    obtain ⟨⟨table, r⟩, ⟨table', r'⟩, hb, ⟨rfl, hr⟩, hb', ⟨rfl, hr'⟩⟩ := hright
    refine ⟨_, _, _, _, ha, ha', hb, hb', rfl, rfl, ?_⟩
    exact reports_invariant ⟨hl, hr⟩ ⟨hl', hr'⟩ p fast type tuning

/-- A text in UTF-8 and one in UTF-16, once in a single piece and once byte by byte. In the second run the
buffers hold one byte, and a content that breaks off within a sequence is found out at the same place. -/
theorem buffering_invisible_of_pieces :
    (Sequence.ofSource (.ofBytes "cut" .utf8 [97, 195]) .word {} = .error (.read (.malformed .utf8 2)) ∧
      Sequence.ofSource (.ofFeed "cut" .utf8 [.bytes [97], .interrupted, .bytes [195]] none) .word
        { windowSize := 1 } = .error (.read (.malformed .utf8 2))) ∧
    ∃ a a' b b' : Sequence, a'.table = a.table ∧ b'.table = b.table ∧
      Sequence.ofSource (.ofBytes "old" .utf8 [97, 13, 10, 195, 169]) .lineEnding {} = .ok a ∧
      Sequence.ofSource (.ofFeed "old" .utf8 [.bytes [97, 13], .bytes [10, 195], .bytes [169]] none)
        .lineEnding { windowSize := 1 } = .ok a' ∧
      Sequence.ofSource (.ofBytes "new" .utf16le [97, 0, 10, 0]) .lineEnding {} = .ok b ∧
      Sequence.ofSource (.ofFeed "new" .utf16le [.bytes [97], .interrupted, .bytes [0, 10, 0]] none)
        .lineEnding { windowSize := 1 } = .ok b' := by
  have hold := Source.carries_ofBytes "old" .utf8 [97, 13, 10, 195, 169]
  have hold' : (Source.ofFeed "old" .utf8 [.bytes [97, 13], .bytes [10, 195], .bytes [169]] none).Carries
      [97, 13, 10, 195, 169] :=
    fun _ => ⟨_, rfl, .bytes (by decide) (.bytes (by decide) (.bytes (by decide) .nil))⟩
  have hnew := Source.carries_ofBytes "new" .utf16le [97, 0, 10, 0]
  have hnew' : (Source.ofFeed "new" .utf16le [.bytes [97], .interrupted, .bytes [0, 10, 0]] none).Carries
      [97, 0, 10, 0] := fun _ => ⟨_, rfl, .bytes (by decide) (.interrupted (.bytes (by decide) .nil))⟩
  have hcut := Source.carries_ofBytes "cut" .utf8 [97, 195]
  have hcut' : (Source.ofFeed "cut" .utf8 [.bytes [97], .interrupted, .bytes [195]] none).Carries
      [97, 195] := fun _ => ⟨_, rfl, .bytes (by decide) (.interrupted (.bytes (by decide) .nil))⟩
  obtain ⟨hfault, -⟩ :=
    buffering_invisible hcut hcut' hnew hnew' rfl rfl .word false .raw {} 1
  obtain ⟨-, -, hsame⟩ :=
    buffering_invisible hold hold' hnew hnew' rfl rfl .lineEnding false .crLf {} 1
  obtain ⟨a, a', b, b', ha, ha', hb, hb', htable, htable', -⟩ :=
    hsame [97, 13, 10, 195, 169] [97, 10] (by decide) (by decide)
  exact ⟨hfault 2 (by decide), a, a', b, b', htable, htable', ha, ha', hb, hb'⟩

end TokenDiff
