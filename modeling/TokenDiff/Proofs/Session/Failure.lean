import TokenDiff.Proofs.Digest.Lookups
import TokenDiff.Proofs.Report.Text
import TokenDiff.Proofs.Session.Header
import TokenDiff.Proofs.Session.Transparency
import TokenDiff.Proofs.Session.TreeFailure

/-!
# What a command that fails has written

A comparison of two files has everything it writes before it writes (`Session.compare_eq`), and fails only if
one of the files cannot be read, the search stalls, or the context is so wide that the report overflows
(`CompareRequest.fails_or_renders`). A comparison of two trees writes at the end, after everything that can fail
(`writesLast_reconcile`). Digests are written one by one, so the lines for the files before the one that fails are
there (`printDigests_outcome`).
-/

namespace TokenDiff

/-! ## Comparisons of files -/

theorem stalled_of_script_error {σ : Type} {c : Comparison σ} {valid : σ → Prop} {same : Nat → Nat → Bool}
    (hc : c.Decides valid (fun _ => False) same) {fast : Bool} {tuning : Tuning} {s t : σ} {fault : Fault}
    (hs : valid s) (h : c.script fast tuning s = .error fault t) : ∃ rect : Rect, fault = rect.stalled := by
  have hensures : Ensures valid (fun fault => ∃ rect : Rect, fault = rect.stalled) (c.script fast tuning) _ :=
    script_ensures (hc.weaken fun _ => False.elim) fun _ _ _ rect => ⟨rect, rfl⟩
  have hscript := hensures s hs
  rwa [h] at hscript

namespace CompareRequest

/-- Why one of the two files cannot be read. -/
def Unreadable (r : CompareRequest) (disk : Disk) (p : Path) : Prop :=
  disk.Unreadable p r.charset (if r.gzip then .gzip else Compression.detect p)

/-- Why a comparison fails, and with which fault. -/
inductive Fails (r : CompareRequest) (disk : Disk) (tuning : Tuning) : CommandFault → Prop
  | unreadable {p : Path} {cause : ReadFault} (hp : p = r.old ∨ p = r.new) (h : r.Unreadable disk p) :
      Fails r disk tuning (.reading p (.read cause))
  | stalled {a b : Sequence} {rect : Rect} {windows : Window × Window}
      (hold : Sequence.ofSource (r.source disk r.old) r.flags.policy tuning = .ok a)
      (hnew : Sequence.ofSource (r.source disk r.new) r.flags.policy tuning = .ok b)
      (h : (a.table.comparison b.table).script r.fast tuning (a.window, b.window) =
        .error rect.stalled windows) :
      Fails r disk tuning (.comparing r.old r.new rect.stalled)
  | overflow {a b : Sequence} {script : Script} {windows : Window × Window}
      (hold : Sequence.ofSource (r.source disk r.old) r.flags.policy tuning = .ok a)
      (hnew : Sequence.ofSource (r.source disk r.new) r.flags.policy tuning = .ok b)
      (hscript : (a.table.comparison b.table).script r.fast tuning (a.window, b.window) = .ok script windows)
      (h : ¬ script.Printable r.flags.format r.flags.contextLines) :
      Fails r disk tuning (.rendering .overflow)

/-- The script of the two files, and the report on it that a printer writes. -/
inductive Renders (r : CompareRequest) (disk : Disk) (tuning : Tuning) : Script → List UInt8 → Prop
  | mk {a b : Sequence} {script : Script} {windows : Window × Window} {text : List UInt8} {printer : Printer}
      (hold : Sequence.ofSource (r.source disk r.old) r.flags.policy tuning = .ok a)
      (hnew : Sequence.ofSource (r.source disk r.new) r.flags.policy tuning = .ok b)
      (hscript : (a.table.comparison b.table).script r.fast tuning (a.window, b.window) = .ok script windows)
      (hprint : Layout.printAll ⟨a.table, b.table, r.lineType⟩
        (script.report r.flags.format r.flags.contextLines) { windows } = .ok text printer) :
      Renders r disk tuning script text

variable {r : CompareRequest} {disk : Disk} {tuning : Tuning} {zone : Zone}

theorem run_of_old {fault : Fault}
    (hold : Sequence.ofSource (r.source disk r.old) r.flags.policy tuning = .error fault) :
    r.run disk tuning zone = .error (.reading r.old fault) := by
  simp only [run, hold]
  rfl

theorem run_of_new {a : Sequence} {fault : Fault}
    (hold : Sequence.ofSource (r.source disk r.old) r.flags.policy tuning = .ok a)
    (hnew : Sequence.ofSource (r.source disk r.new) r.flags.policy tuning = .error fault) :
    r.run disk tuning zone = .error (.reading r.new fault) := by
  simp only [run, hold, hnew]
  rfl

theorem run_of_script_error {a b : Sequence} {fault : Fault} {windows : Window × Window}
    (hold : Sequence.ofSource (r.source disk r.old) r.flags.policy tuning = .ok a)
    (hnew : Sequence.ofSource (r.source disk r.new) r.flags.policy tuning = .ok b)
    (hscript : (a.table.comparison b.table).script r.fast tuning (a.window, b.window) = .error fault windows) :
    r.run disk tuning zone = .error (.comparing r.old r.new fault) := by
  simp only [run, hold, hnew, Except.mapError, bind, Except.bind, hscript]
  rfl

theorem run_of_print_error {a b : Sequence} {script : Script} {fault : Fault} {windows : Window × Window}
    {printer : Printer}
    (hold : Sequence.ofSource (r.source disk r.old) r.flags.policy tuning = .ok a)
    (hnew : Sequence.ofSource (r.source disk r.new) r.flags.policy tuning = .ok b)
    (hscript : (a.table.comparison b.table).script r.fast tuning (a.window, b.window) = .ok script windows)
    (hprint : Layout.printAll ⟨a.table, b.table, r.lineType⟩
      (script.report r.flags.format r.flags.contextLines) { windows } = .error fault printer) :
    r.run disk tuning zone = .error (.rendering fault) := by
  simp only [run, hold, hnew, Except.mapError, bind, Except.bind, hscript, hprint]
  rfl

/-- What a comparison writes: the header lines, if they are asked for and there is a difference, and the
report. -/
def written (r : CompareRequest) (disk : Disk) (zone : Zone) (script : Script) (text : List UInt8) : List UInt8 :=
  (if r.headers && !script.isIdentical then r.headerLines disk zone else []) ++
    if r.colours then paint r.flags.format text else text

theorem run_of_renders {script : Script} {text : List UInt8} (h : r.Renders disk tuning script text) :
    r.run disk tuning zone =
      .ok (⟨script.isIdentical, Summary.ofScript script⟩, r.written disk zone script text) := by
  obtain ⟨hold, hnew, hscript, hprint⟩ := h
  simp only [run, hold, hnew, Except.mapError, bind, Except.bind, hscript, hprint]
  rfl

theorem Renders.exists_files {script : Script} {text : List UInt8} (h : r.Renders disk tuning script text) :
    ∃ f g, disk.get r.old = .ok (.file f) ∧ disk.get r.new = .ok (.file g) := by
  obtain ⟨hold, hnew, -, -⟩ := h
  obtain ⟨f, hf⟩ := Disk.exists_file_of_ofSource hold
  obtain ⟨g, hg⟩ := Disk.exists_file_of_ofSource hnew
  exact ⟨f, g, hf, hg⟩

/-- A comparison fails for one of the reasons, or it writes the report that is rendered. -/
theorem fails_or_renders (r : CompareRequest) (disk : Disk) (tuning : Tuning) (zone : Zone) :
    (∃ fault, r.Fails disk tuning fault ∧ r.run disk tuning zone = .error fault) ∨
      ∃ script text, r.Renders disk tuning script text := by
  rcases disk.replays_or_unreadable r.old r.charset (if r.gzip then .gzip else Compression.detect r.old) with
    ⟨S, hS⟩ | hold
  · obtain ⟨a, ha, hofA⟩ := Sequence.exists_ofSource hS r.flags.policy tuning
    rcases disk.replays_or_unreadable r.new r.charset (if r.gzip then .gzip else Compression.detect r.new) with
      ⟨T, hT⟩ | hnew
    · obtain ⟨b, hb, hofB⟩ := Sequence.exists_ofSource hT r.flags.policy tuning
      cases hscript : (a.table.comparison b.table).script r.fast tuning (a.window, b.window) with
      | error fault windows =>
          have hdecides := comparison_decides r.flags.policy S T
          rw [← hofA.table, ← hofB.table] at hdecides
          obtain ⟨rect, rfl⟩ := stalled_of_script_error hdecides ⟨hofA.window, hofB.window⟩ hscript
          exact .inl ⟨_, .stalled ha hb hscript, run_of_script_error ha hb hscript⟩
      | ok script windows =>
          obtain ⟨-, -, hreport⟩ := hofA.report_of_script hofB hscript
          obtain ⟨hprinted, hstopped⟩ := hreport r.lineType r.flags.format r.flags.contextLines
          by_cases hprintable : script.Printable r.flags.format r.flags.contextLines
          · obtain ⟨printer, hprint⟩ := hprinted hprintable
            exact .inr ⟨script, _, .mk ha hb hscript hprint⟩
          · obtain ⟨printer, hprint⟩ := hstopped hprintable
            exact .inl ⟨_, .overflow ha hb hscript hprintable, run_of_print_error ha hb hscript hprint⟩
    · obtain ⟨cause, hfault⟩ := hnew.ofSource_error r.flags.policy tuning
      exact .inl ⟨_, .unreadable (.inr rfl) hnew, run_of_new ha hfault⟩
  · obtain ⟨cause, hfault⟩ := hold.ofSource_error r.flags.policy tuning
    exact .inl ⟨_, .unreadable (.inl rfl) hold, run_of_old hfault⟩

/-- Wherever there is a reason to fail, the comparison fails. -/
theorem Fails.run_eq {fault : CommandFault} (h : r.Fails disk tuning fault) :
    ∃ fault, r.run disk tuning zone = .error fault := by
  cases h with
  | unreadable hp h =>
      obtain ⟨cause, hfault⟩ := h.ofSource_error r.flags.policy tuning
      obtain rfl | rfl := hp
      · exact ⟨_, run_of_old hfault⟩
      · cases hold : Sequence.ofSource (r.source disk r.old) r.flags.policy tuning with
        | error fault => exact ⟨_, run_of_old hold⟩
        | ok a => exact ⟨_, run_of_new hold hfault⟩
  | stalled hold hnew h => exact ⟨_, run_of_script_error hold hnew h⟩
  | overflow hold hnew hscript h =>
      rcases r.fails_or_renders disk tuning zone with
        ⟨fault, -, hrun⟩ | ⟨script, text, hold', hnew', hscript', hprint⟩
      · exact ⟨fault, hrun⟩
      · obtain rfl := Except.ok.inj (hold.symm.trans hold')
        obtain rfl := Except.ok.inj (hnew.symm.trans hnew')
        obtain ⟨rfl, rfl⟩ := EStateM.Result.ok.inj (hscript.symm.trans hscript')
        exact absurd (overflow_not_mem_of_printAll hprint) h

end CompareRequest

/-- A comparison writes everything at once, or nothing. -/
theorem Session.compare_eq (disk : Disk) (r : CompareRequest) (s : Session) :
    Session.compare disk r s =
      match r.run disk s.tuning s.zone with
      | .error fault => .error fault s
      | .ok (outcome, text) => .ok outcome { s with output := s.output ++ text } := by
  change EStateM.bind (MonadExcept.ofExcept (r.run disk s.tuning s.zone)) _ s = _
  rw [EStateM.bind]
  cases r.run disk s.tuning s.zone <;> rfl

/-! ## Digests -/

/-- The lines for some files and their digests: the digest, the size and the path of each file. -/
def digestLines (files : List Path) (digests : List FileDigest) : List UInt8 :=
  (files.zip digests).flatMap fun (p, digest) =>
    utf8Bytes (digest.digest ++ " " ++ toString digest.size ++ " " ++ p.text ++ "\n")

theorem printDigests_cons_of_ok {disk : Disk} {p : Path} {s : Session} {digest : FileDigest}
    {cache : DigestCache} (h : DigestCache.digestOf disk p s.digests = .ok digest cache) (files : List Path) :
    Session.printDigests disk (p :: files) s = Session.printDigests disk files
      { s with digests := cache, output := s.output ++ digestLines [p] [digest] } := by
  have hlookUp : Session.digestOf disk p s = .ok digest { s with digests := cache } := by
    rw [Session.digestOf, h]
  have hline : utf8Bytes s!"{digest.text} {p.text}\n" = digestLines [p] [digest] := (List.append_nil _).symm
  have hwritten : (do
      let digest ← Session.digestOf disk p
      Session.write (utf8Bytes s!"{digest.text} {p.text}\n")) s =
        .ok () { s with digests := cache, output := s.output ++ digestLines [p] [digest] } := by
    rw [bind_eq_of_ok hlookUp, hline]
    rfl
  exact bind_eq_of_ok hwritten fun _ => Session.printDigests disk files

theorem printDigests_cons_of_error {disk : Disk} {p : Path} {s : Session} {fault : CommandFault}
    (h : DigestCache.digestOf disk p s.digests = .error fault s.digests) (files : List Path) :
    Session.printDigests disk (p :: files) s = .error fault s := by
  have hlookUp : Session.digestOf disk p s = .error fault s := by
    rw [Session.digestOf, h]
  exact bind_eq_of_error (bind_eq_of_error hlookUp _) _

/-- Each file is looked up and its line written, up to the first one whose lookup fails. -/
theorem printDigests_outcome (disk : Disk) (files : List Path) (s : Session) :
    match Session.printDigests disk files s with
    | .ok _ s' => ∃ digests cache, files.mapM (DigestCache.digestOf disk) s.digests = .ok digests cache ∧
        s' = { s with digests := cache, output := s.output ++ digestLines files digests }
    | .error fault s' => ∃ before p after digests cache, files = before ++ p :: after ∧
        before.mapM (DigestCache.digestOf disk) s.digests = .ok digests cache ∧
        DigestCache.digestOf disk p cache = .error fault cache ∧
        s' = { s with digests := cache, output := s.output ++ digestLines before digests } := by
  induction files generalizing s with
  | nil =>
      refine ⟨[], s.digests, rfl, ?_⟩
      rw [digestLines, List.zip_nil_left, List.flatMap_nil, List.append_nil]
  | cons p files ih =>
      cases hp : DigestCache.digestOf disk p s.digests with
      | error fault cache =>
          obtain rfl := DigestCache.eq_of_digestOf_error hp
          rw [printDigests_cons_of_error hp]
          refine ⟨[], p, files, [], s.digests, rfl, rfl, hp, ?_⟩
          rw [digestLines, List.zip_nil_left, List.flatMap_nil, List.append_nil]
      | ok digest cache =>
          have hlines (before : List Path) (digests : List FileDigest) :
              s.output ++ digestLines [p] [digest] ++ digestLines before digests =
                s.output ++ digestLines (p :: before) (digest :: digests) := by
            rw [List.append_assoc, digestLines, digestLines, digestLines, List.zip_cons_cons,
              List.zip_cons_cons, List.zip_nil_left, ← List.flatMap_append, List.singleton_append]
          have hrest := ih { s with digests := cache, output := s.output ++ digestLines [p] [digest] }
          rw [printDigests_cons_of_ok hp]
          generalize Session.printDigests disk files _ = result at hrest ⊢
          cases result with
          | ok _ s' =>
              obtain ⟨digests, cache', hfiles, rfl⟩ := hrest
              refine ⟨digest :: digests, cache', mapM_cons_eq_ok hp hfiles, ?_⟩
              rw [hlines]
          | error fault s' =>
              obtain ⟨before, q, after, digests, cache', rfl, hbefore, hq, rfl⟩ := hrest
              refine ⟨p :: before, q, after, digest :: digests, cache', rfl, mapM_cons_eq_ok hp hbefore, hq, ?_⟩
              rw [hlines]

/-! ## All commands -/

/-- A comparison of two files that fails leaves the session as it was, and it fails exactly if one of the files
cannot be read, the search stalls, or the context is too wide. One that succeeds has written the two header lines, if
and only if they are asked for, the format has them and the files are not identical, and then the report. A comparison
of two trees that fails has written nothing; it fails exactly if a root is not a folder or a file cannot be read.
Where printing digests fails, the lines of the files before the first one that cannot be looked up have been
written. -/
theorem failed_command_leaves_no_report (disk : Disk) (s : Session) :
    (∀ r : CompareRequest,
      (∀ fault, r.Fails disk s.tuning fault → ∃ fault, Session.compare disk r s = .error fault s) ∧
      (∀ fault s', Session.compare disk r s = .error fault s' → s' = s ∧ r.Fails disk s.tuning fault) ∧
      ∀ outcome s', Session.compare disk r s = .ok outcome s' →
        ∃ script text heading, r.Renders disk s.tuning script text ∧
          outcome = ⟨script.isIdentical, Summary.ofScript script⟩ ∧
          r.IsHeading disk s.zone outcome.identical heading ∧
          s' = { s with
            output := s.output ++ heading ++ if r.colours then paint r.flags.format text else text }) ∧
    (∀ r : TreeRequest,
      ((∃ fault s', Session.reconcile disk r s = .error fault s') ↔ r.Fails disk s.digests) ∧
      (disk.get r.old ≠ .ok .folder ∨ disk.get r.new ≠ .ok .folder →
        ∃ fault, Session.reconcile disk r s = .error fault s) ∧
      ∀ fault s', Session.reconcile disk r s = .error fault s' → s'.output = s.output) ∧
    ∀ files fault s', Session.printDigests disk files s = .error fault s' →
      ∃ before p after digests cache, files = before ++ p :: after ∧
        before.mapM (DigestCache.digestOf disk) s.digests = .ok digests cache ∧
        DigestCache.digestOf disk p cache = .error fault cache ∧
        s' = { s with digests := cache, output := s.output ++ digestLines before digests } := by
  refine ⟨fun r => ⟨fun fault hfails => ?_, fun fault s' h => ?_, fun outcome s' h => ?_⟩, fun r =>
    ⟨reconcile_fails_iff disk r s, fun hroot => reconcile_of_not_folder hroot s, writesLast_reconcile disk r s⟩,
    fun files fault s' h => ?_⟩
  · obtain ⟨fault, hrun⟩ : ∃ fault, r.run disk s.tuning s.zone = .error fault := hfails.run_eq
    exact ⟨fault, by rw [Session.compare_eq, hrun]⟩
  · rw [Session.compare_eq] at h
    rcases r.fails_or_renders disk s.tuning s.zone with ⟨fault', hfails, hrun⟩ | ⟨script, text, hrenders⟩
    · rw [hrun] at h
      obtain ⟨rfl, rfl⟩ := EStateM.Result.error.inj h
      exact ⟨rfl, hfails⟩
    · rw [CompareRequest.run_of_renders hrenders] at h
      cases h
  · rw [Session.compare_eq] at h
    rcases r.fails_or_renders disk s.tuning s.zone with ⟨fault', hfails, hrun⟩ | ⟨script, text, hrenders⟩
    · rw [hrun] at h
      cases h
    · rw [CompareRequest.run_of_renders hrenders] at h
      obtain ⟨rfl, rfl⟩ := EStateM.Result.ok.inj h
      obtain ⟨f, g, hold, hnew⟩ := hrenders.exists_files
      refine ⟨script, text, _, hrenders, rfl, CompareRequest.isHeading_headerLines hold hnew _, ?_⟩
      rw [CompareRequest.written, List.append_assoc]
  · have houtcome := printDigests_outcome disk files s
    rwa [h] at houtcome

def Disk.guarded : Disk where
  files :=
    [([⟨"left", by decide⟩, ⟨"x", by decide⟩], { data := [116, 10], modified := 0 }),
      ([⟨"left", by decide⟩, ⟨"y", by decide⟩], { data := [107, 10], modified := 0, readable := false }),
      ([⟨"right", by decide⟩, ⟨"x", by decide⟩], { data := [117, 10], modified := 1500000000 })]

def Path.plain : Path := .ofText "left/x"

def Path.denied : Path := .ofText "left/y"

def CompareRequest.ofGuarded (new : Path) : CompareRequest where
  old := Path.plain
  new := new
  flags := { format := .unified }
  headers := true
  colours := true

def TreeRequest.guarded : TreeRequest where
  old := .ofNames [⟨"left", by decide⟩]
  new := .ofNames [⟨"right", by decide⟩]

def Session.ahead : Session where
  zone := ⟨fun _ => 3600⟩

theorem Session.printDigests_guarded :
    printDigests Disk.guarded [Path.plain, Path.denied, Path.plain] .ahead =
      .error (.opening Path.denied (.path .permissionDenied))
        { Session.ahead with
          digests := ⟨[(Path.plain.parts, FileDigest.ofBytes [116, 10])]⟩
          output := utf8Bytes "34fc7a11cb38cf4911763696a41698c68e5ddbbe 2 left/x\n" } := by
  cbv

theorem CompareRequest.run_ofGuarded :
    (ofGuarded (.ofText "right/x")).run Disk.guarded {} Session.ahead.zone =
      .ok (⟨false, { changedChunks := 1, changedLinesIn := 1, changedLinesOut := 1 }⟩, utf8Bytes
        ("\x1b[1m--- left/x\t1970-01-01 01:00:00.000000000 +0100\x1b[0m\n" ++
          "\x1b[1m+++ right/x\t1970-01-01 01:00:01.500000000 +0100\x1b[0m\n" ++
          "\x1b[36m@@ -1,1 +1,1 @@\x1b[0m\n\x1b[31m-t\x1b[0m\n\x1b[32m+u\x1b[0m\n")) := by
  cbv

/-- A file is compared with the one that cannot be read, which is also among the files of a tree and the second one of
three files. Two files that differ are compared with header lines. -/
theorem failed_command_leaves_no_report_of_guarded :
    (∃ fault, Session.compare Disk.guarded (.ofGuarded Path.denied) .ahead = .error fault .ahead) ∧
    (∃ fault s', Session.reconcile Disk.guarded .guarded .ahead = .error fault s' ∧ s'.output = []) ∧
    (∃ fault s' before p after digests cache,
      Session.printDigests Disk.guarded [Path.plain, Path.denied, Path.plain] .ahead = .error fault s' ∧
      s'.output = utf8Bytes "34fc7a11cb38cf4911763696a41698c68e5ddbbe 2 left/x\n" ∧
      [Path.plain, Path.denied, Path.plain] = before ++ p :: after ∧
      DigestCache.digestOf Disk.guarded p cache = .error fault cache ∧
      s'.output = digestLines before digests) ∧
    ∃ script text heading outcome s',
      let r := CompareRequest.ofGuarded (.ofText "right/x")
      r.Renders Disk.guarded {} script text ∧ r.IsHeading Disk.guarded Session.ahead.zone false heading ∧
      Session.compare Disk.guarded r .ahead = .ok outcome s' ∧
      s'.output = heading ++ paint .unified text ∧
      s'.output = utf8Bytes
        ("\x1b[1m--- left/x\t1970-01-01 01:00:00.000000000 +0100\x1b[0m\n" ++
          "\x1b[1m+++ right/x\t1970-01-01 01:00:01.500000000 +0100\x1b[0m\n" ++
          "\x1b[36m@@ -1,1 +1,1 @@\x1b[0m\n\x1b[31m-t\x1b[0m\n\x1b[32m+u\x1b[0m\n") := by
  obtain ⟨hcompare, hreconcile, hdigests⟩ := failed_command_leaves_no_report Disk.guarded .ahead
  have hdenied : Disk.guarded.get Path.denied =
      .ok (.file { data := [107, 10], modified := 0, readable := false }) := by decide
  refine ⟨?_, ?_, ?_, ?_⟩
  · exact (hcompare (.ofGuarded Path.denied)).1 (.reading Path.denied (.read (.failed (.path .permissionDenied))))
      (.unreadable (.inr rfl) (.denied hdenied rfl))
  · have hplace : Disk.guarded.resolve TreeRequest.guarded.old = .ok [⟨"left", by decide⟩] := by decide
    have hnames : TreeRequest.guarded.excludes [⟨"y", by decide⟩] = false := rfl
    have hfile : Disk.guarded.find? ([⟨"left", by decide⟩] ++ [⟨"y", by decide⟩]) =
        some (.file { data := [107, 10], modified := 0, readable := false }) := by decide
    have hfails : TreeRequest.guarded.Fails Disk.guarded Session.ahead.digests :=
      .denied (.inl rfl) hplace hnames hfile rfl rfl
    obtain ⟨fault, s', hrun⟩ := (hreconcile _).1.2 hfails
    exact ⟨fault, s', hrun, (hreconcile _).2.2 fault s' hrun⟩
  · have hrun := Session.printDigests_guarded
    obtain ⟨before, p, after, digests, cache, hfiles, -, hp, hs⟩ := hdigests _ _ _ hrun
    exact ⟨_, _, before, p, after, digests, cache, hrun, rfl, hfiles, hp, congrArg Session.output hs⟩
  · have hreport := Session.compare_eq Disk.guarded (.ofGuarded (.ofText "right/x")) .ahead
    rw [show Session.ahead.tuning = {} from rfl, CompareRequest.run_ofGuarded] at hreport
    obtain ⟨script, text, heading, hrenders, -, hheading, hs⟩ := (hcompare _).2.2 _ _ hreport
    exact ⟨script, text, heading, _, _, hrenders, hheading, hreport, congrArg Session.output hs,
      List.nil_append _⟩

end TokenDiff
