import TokenDiff.CommandLine.Run

/-!
# The program

The outer layer: it reads the files a command line speaks of into a `Disk`, runs the command on it, and
writes what comes out. A file that is there but cannot be read is on the disk as such. Times are written as they are
in Greenwich.
-/

namespace TokenDiff.CommandLine

def steps (p : Path) : List Path :=
  (List.range p.segments.length).map fun i => ⟨p.segments.take (i + 1)⟩

def addEntry (d : Disk) (p : Path) : IO Disk := do
  try
    let real ← IO.FS.realPath (if p.text.isEmpty then "/" else p.text)
    let info ← real.metadata
    let place := Path.ofText real.toString
    match info.type with
    | .dir => return d.makeFolder place
    | _ =>
      let modified := info.modified.sec * 1000000000 + Int.ofNat info.modified.nsec.toNat
      let file ← try
          pure { data := (← IO.FS.readBinFile real).toList, modified }
        catch _ => pure { data := [], modified, readable := false }
      return d.write place file
  catch _ => return d

/-- Adds everything below a folder. -/
partial def addBelow (d : Disk) (folder : String) : IO Disk := do
  try
    let real ← IO.FS.realPath folder
    if ← real.isDir then
      let mut d := d
      for entry in ← real.readDir do
        let inner := entry.path.toString
        d ← addBelow (← addEntry d (Path.ofText inner)) inner
      return d
    return d
  catch _ => return d

/-- The part of the file system that a command works on. -/
def loadDisk (command : Command) : IO Disk := do
  let home := (Path.ofText (← IO.currentDir).toString).parts.filterMap fun
    | .name n => some n
    | _ => none
  let (paths, roots) := match command with
    | .compare _ old new => ([old, new], [])
    | .digest files => (files, [])
    | .reconcile _ old new => ([old, new], [old, new])
  let d ← (paths.flatMap steps).foldlM addEntry { home }
  roots.foldlM (fun d root => addBelow d root.text) d

def usageText : String :=
  "tokendiff 0.1.0 - A tokenizing file and tree differ\n\n" ++
  "USAGE:\n    tokendiff [OPTIONS] diff|digest|reconcile [ARGS]\n    tokendiff help [COMMAND]\n"

def UsageFault.message : UsageFault → String
  | .unknownArgument => "unexpected argument"
  | .invalidValue => "invalid or missing value"
  | .valueValidation => "value is not a number"
  | .tooManyValues => "a flag takes no value"
  | .missingRequiredArgument => "required arguments were not provided"
  | .argumentConflict => "an argument cannot be used multiple times"
  | .invalidSubcommand => "unrecognized command"
  | .missingSubcommand => "a command is required"
  | .helpOnMissing | .displayHelp => usageText
  | .displayVersion => "tokendiff 0.1.0"

def report (outcome : Outcome) : IO UInt32 := do
  let out ← IO.getStdout
  match outcome with
  | .done exitCode output =>
    out.write ⟨output.toArray⟩
    out.flush
    return exitCode.toUInt32
  | .failed fault output =>
    out.write ⟨output.toArray⟩
    out.flush
    IO.eprintln s!"tokendiff: {fault.message}"
    return 2
  | .refused fault =>
    if fault.exitCode = 0 then IO.println fault.message else IO.eprintln fault.message
    return fault.exitCode.toUInt32

end TokenDiff.CommandLine

open TokenDiff TokenDiff.CommandLine in
def main (words : List String) : IO UInt32 := do
  let disk ← match readCommandLine words with
    | .ok (_, command) => loadDisk command
    | .error _ => pure {}
  report (run disk .greenwich (← (← IO.getStdout).isTty) words)
