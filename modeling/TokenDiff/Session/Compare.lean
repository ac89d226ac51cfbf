import TokenDiff.Files.Content
import TokenDiff.Report.Palette
import TokenDiff.Report.Printer
import TokenDiff.Session.Basic

/-!
# Comparing two files

A comparison is computed as a whole before anything is written: `CompareRequest.run` yields the outcome
and the text, or the fault and no text. So a comparison that fails leaves no part of a report behind.
-/

namespace TokenDiff

structure CompareRequest where
  old : Path
  new : Path
  flags : Flags := {}
  charset : Charset := .raw
  /-- takes both files for archives whatever their names are -/
  gzip : Bool := false
  lineType : LineType := .raw
  fast : Bool := false
  headers : Bool := false
  colours : Bool := false

structure CompareOutcome where
  identical : Bool
  summary : Summary
deriving DecidableEq, Repr

namespace CompareRequest

def source (r : CompareRequest) (disk : Disk) (p : Path) : Source :=
  disk.source p r.charset (if r.gzip then .gzip else Compression.detect p)

def headerMarks? : Format → Option (String × String)
  | .context => some ("***", "---")
  | .unified => some ("---", "+++")
  | _ => none

def header (r : CompareRequest) (zone : Zone) (mark : String) (source : Source) : List UInt8 :=
  let label :=
    match source.modified with
    | some time => s!"{source.label}\t{timestamp zone time}"
    | none => source.label
  let line := s!"{mark} {label}"
  (if r.colours then paintHeader line else utf8Bytes line) ++ [10]

def headerLines (r : CompareRequest) (disk : Disk) (zone : Zone) : List UInt8 :=
  match headerMarks? r.flags.format with
  | some (oldMark, newMark) =>
    r.header zone oldMark (r.source disk r.old) ++ r.header zone newMark (r.source disk r.new)
  | none => []

def run (r : CompareRequest) (disk : Disk) (tuning : Tuning) (zone : Zone) :
    Except CommandFault (CompareOutcome × List UInt8) := do
  let cut (p : Path) :=
    (Sequence.ofSource (r.source disk p) r.flags.policy tuning).mapError (CommandFault.reading p)
  let a ← cut r.old
  let b ← cut r.new
  match (a.table.comparison b.table).script r.fast tuning (a.window, b.window) with
  | .error fault _ => throw (.comparing r.old r.new fault)
  | .ok script windows =>
    let layout : Layout := ⟨a.table, b.table, r.lineType⟩
    match layout.printAll (script.report r.flags.format r.flags.contextLines) { windows } with
    | .error fault _ => throw (.rendering fault)
    | .ok text _ =>
      let text := if r.colours then paint r.flags.format text else text
      let headers := if r.headers && !script.isIdentical then r.headerLines disk zone else []
      return (⟨script.isIdentical, Summary.ofScript script⟩, headers ++ text)

end CompareRequest

def Session.compare (disk : Disk) (r : CompareRequest) : SessionM CompareOutcome := do
  let (outcome, text) ← MonadExcept.ofExcept (r.run disk (← get).tuning (← get).zone)
  Session.write text
  return outcome

end TokenDiff
