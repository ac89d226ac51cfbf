import TokenDiff.Fault
import TokenDiff.Files.Path
import TokenDiff.Text.Quoted

/-!
# Faults of commands

What a command stops with: a fault of one of its parts, together with what the command was about.
-/

namespace TokenDiff

inductive CommandFault where
  | opening (path : Path) (cause : Failure)
  | digesting (path : Path) (fault : ReadFault)
  | reading (path : Path) (fault : Fault)
  | comparing (old new : Path) (fault : Fault)
  | rendering (fault : Fault)
  | notAFolder (path : Path)
  | badPattern
  | badKinds (text : String)
deriving DecidableEq, Repr

def CommandFault.message : CommandFault → String
  | .opening path cause => s!"failed to open {path.text}: {cause.message}"
  | .digesting path fault => s!"failed to read {path.text}: {fault.message}"
  | .reading path fault => s!"failed to read {path.text}: {fault.message}"
  | .comparing old new fault =>
    s!"failed to compare {old.text} with {new.text}: {fault.message}"
  | .rendering fault => s!"failed to render diff: {fault.message}"
  | .notAFolder path =>
    s!"The specified path is not a directory: {Quoted.path path.text}"
  | .badPattern => "invalid --exclude pattern"
  | .badKinds text =>
    s!"invalid --filter {Quoted.plain text}, expected letters from ADMR"

end TokenDiff
