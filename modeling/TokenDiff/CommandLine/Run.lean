import TokenDiff.CommandLine.Command
import TokenDiff.Session.Digests

/-!
# Running a command line

The exit code says what came of a command: 0 if there is no difference, 1 if there is one, and 2 if the
command line or the command failed.
-/

namespace TokenDiff.CommandLine

/-- What came of a command line. A command that fails may have written something before. -/
inductive Outcome where
  | done (exitCode : Nat) (output : List UInt8)
  | failed (fault : CommandFault) (output : List UInt8)
  | refused (fault : UsageFault)

def Command.run (disk : Disk) (colours : Bool) : Command → SessionM Nat
  | .compare settings old new => do
    let outcome ← Session.compare disk (settings.request old new colours)
    return if outcome.identical then 0 else 1
  | .digest files => do
    Session.printDigests disk files
    return 0
  | .reconcile settings old new => do
    let request ← MonadExcept.ofExcept (settings.request old new colours)
    let changes ← Session.reconcile disk request
    return if changes.isEmpty then 0 else 1

def run (disk : Disk) (zone : Zone) (onTerminal : Bool) (words : List String) : Outcome :=
  match readCommandLine words with
  | .error fault => .refused fault
  | .ok (common, command) =>
    match command.run disk (common.colours onTerminal) { zone } with
    | .ok exitCode s => .done exitCode s.output
    | .error fault s => .failed fault s.output

end TokenDiff.CommandLine
