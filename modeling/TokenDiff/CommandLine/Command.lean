import TokenDiff.CommandLine.Grammar
import TokenDiff.Pattern.Parser
import TokenDiff.Session.Compare
import TokenDiff.Session.Reconcile

/-!
# Commands and their settings

The program has three commands, which compare two files, print digests of files, and compare two trees.
Two settings are common to all of them and can be given before and behind the name of the command; where
both places give one, the one behind wins.
-/

namespace TokenDiff.CommandLine

inductive ColourChoice where
  | auto
  | always
  | never
deriving DecidableEq, Repr

instance : Spelled ColourChoice where
  all := [.auto, .always, .never]
  name
    | .auto => "auto"
    | .always => "always"
    | .never => "never"

/-! ## Values -/

def text {σ : Type} (put : String → σ → σ) : Action σ := .value false fun v s => .ok (put v s)

def choice {σ α : Type} [Spelled α] (put : α → σ → σ) : Action σ :=
  .value false fun v s =>
    match Spelled.ofName? v with
    | some a => .ok (put a s)
    | none => .error .invalidValue

def integer {σ : Type} (put : Int → σ → σ) : Action σ :=
  .value true fun v s =>
    match readInteger? v with
    | some n => .ok (put n s)
    | none => .error .valueValidation

def pathPosition {σ : Type} (name : String) (many : Bool) (put : Path → σ → σ) : Position σ :=
  ⟨name, many, fun v s => if v = "" then .error .invalidValue else .ok (put (Path.ofText v) s)⟩

/-! ## Common settings -/

structure CommonSettings where
  verbose : Bool := false
  colour : Option ColourChoice := none

namespace CommonSettings

def arguments : List (Argument CommonSettings) := [
  { name := "verbose", short := some 'v', long := some "verbose"
    action := .flag fun s => { s with verbose := true } },
  { name := "color", long := some "color"
    action := choice fun c s => { s with colour := some c } },
  { name := "help", short := some 'h', long := some "help", action := .stop .displayHelp }]

def merge (inner outer : CommonSettings) : CommonSettings where
  verbose := inner.verbose || outer.verbose
  colour := inner.colour.or outer.colour

def colours (s : CommonSettings) (onTerminal : Bool) : Bool :=
  match s.colour with
  | some .always => true
  | some .never => false
  | some .auto | none => onTerminal

end CommonSettings

/-! ## Comparing files -/

structure CompareSettings where
  paths : List Path := []
  compact : String := ""
  contextFormat : Bool := false
  unifiedFormat : Bool := false
  contextLines : Option Int := none
  unifiedLines : Option Int := none
  format : Option Format := none
  ignoreLineEndings : Bool := false
  ignoreSpaceChange : Bool := false
  ignoreAllSpace : Bool := false
  policy : Option Policy := none
  fast : Bool := false
  grid : Option Grid := none
  charset : Charset := .raw
  gzip : Bool := false
  lineType : LineType := .raw
  noHeaders : Bool := false
  paginate : Bool := false

namespace CompareSettings

def arguments : List (Argument CompareSettings) := [
  { name := "diff-flags", short := some 'd', long := some "diff-flags"
    action := text fun v s => { s with compact := v } },
  { name := "context-format", short := some 'c'
    action := .flag fun s => { s with contextFormat := true } },
  { name := "unified-format", short := some 'u'
    action := .flag fun s => { s with unifiedFormat := true } },
  { name := "context", short := some 'C', long := some "context"
    action := integer fun n s => { s with contextLines := some n } },
  { name := "unified", short := some 'U', long := some "unified"
    action := integer fun n s => { s with unifiedLines := some n } },
  { name := "format", long := some "format"
    action := choice fun v s => { s with format := some v } },
  { name := "ignore-line-endings", short := some 'l', long := some "ignore-line-endings"
    action := .flag fun s => { s with ignoreLineEndings := true } },
  { name := "ignore-space-change", short := some 'b', long := some "ignore-space-change"
    action := .flag fun s => { s with ignoreSpaceChange := true } },
  { name := "ignore-all-space", short := some 'w', long := some "ignore-all-space"
    action := .flag fun s => { s with ignoreAllSpace := true } },
  { name := "tokens", long := some "tokens"
    action := choice fun v s => { s with policy := some v } },
  { name := "fast", long := some "fast", action := .flag fun s => { s with fast := true } },
  { name := "grid", long := some "grid", action := choice fun v s => { s with grid := some v } },
  { name := "charset", long := some "charset"
    action := choice fun v s => { s with charset := v } },
  { name := "gzip", long := some "gzip", action := .flag fun s => { s with gzip := true } },
  { name := "line-ending", long := some "line-ending"
    action := choice fun v s => { s with lineType := v } },
  { name := "no-headers", long := some "no-headers"
    action := .flag fun s => { s with noHeaders := true } },
  { name := "paginate", long := some "paginate"
    action := .flag fun s => { s with paginate := true } }]

/-- The flags of a comparison. Settings that contradict each other are applied in a fixed order, and the
last one wins, wherever they stand on the command line. -/
def flags (s : CompareSettings) : Flags :=
  let f := Flags.parse s.compact
  let f := if s.contextFormat then { f with format := .context } else f
  let f := if s.unifiedFormat then { f with format := .unified } else f
  let f := match s.contextLines with
    | some n => { f.withContext n with format := .context }
    | none => f
  let f := match s.unifiedLines with
    | some n => { f.withContext n with format := .unified }
    | none => f
  let f := { f with format := s.format.getD f.format }
  let f := if s.ignoreLineEndings then { f with policy := .lineEnding } else f
  let f := if s.ignoreSpaceChange then { f with policy := .ignoreBlanks } else f
  let f := if s.ignoreAllSpace then { f with policy := .ignoreWhitespace } else f
  { f with policy := s.policy.getD f.policy, grid := s.grid.getD f.grid }

def request (s : CompareSettings) (old new : Path) (colours : Bool) : CompareRequest where
  old := old
  new := new
  flags := s.flags
  charset := s.charset
  gzip := s.gzip
  lineType := s.lineType
  fast := s.fast
  headers := !s.noHeaders
  colours := colours

end CompareSettings

/-! ## Comparing trees -/

structure TreeSettings where
  paths : List Path := []
  exclude : Option String := none
  kinds : Option String := none

namespace TreeSettings

def arguments : List (Argument TreeSettings) := [
  { name := "exclude", long := some "exclude"
    action := text fun v s => { s with exclude := some v } },
  { name := "filter", long := some "filter"
    action := text fun v s => { s with kinds := some v } }]

/-- The comparison of two trees under these settings, unless the pattern or the kinds are not
readable. -/
def request (s : TreeSettings) (old new : Path) (colours : Bool) :
    Except CommandFault TreeRequest := do
  let exclude ← match s.exclude with
    | some text =>
      match Pattern.parse? text with
      | some pattern => pure (some pattern)
      | none => throw .badPattern
    | none => pure none
  let kinds ← match s.kinds with
    | some text =>
      match KindSet.ofLetters? text with
      | some kinds => pure kinds
      | none => throw (.badKinds text)
    | none => pure KindSet.all
  return { old, new, exclude, kinds, colours }

end TreeSettings

/-! ## Command lines -/

inductive Command where
  | compare (settings : CompareSettings) (old new : Path)
  | digest (files : List Path)
  | reconcile (settings : TreeSettings) (old new : Path)

def commandNames : List String := ["diff", "digest", "reconcile", "help"]

def outerGrammar : Grammar CommonSettings where
  arguments := CommonSettings.arguments ++
    [{ name := "version", short := some 'V', long := some "version", action := .stop .displayVersion }]
  commands := commandNames
  stray escaped word :=
    if escaped && commandNames.contains word then .unknownArgument else .invalidSubcommand

def innerGrammar {σ : Type} (arguments : List (Argument σ)) (positions : List (Position σ)) :
    Grammar (CommonSettings × σ) where
  arguments := CommonSettings.arguments.map (·.within Prod.fst fun t s => (t, s.2)) ++
    arguments.map (·.within Prod.snd fun t s => (s.1, t))
  positions := positions.map fun p => ⟨p.name, p.many, fun v s => (p.set v s.2).map (s.1, ·)⟩

def readInner {σ : Type} (grammar : Grammar (CommonSettings × σ)) (settings : σ) (words : List String) :
    Except UsageFault (CommonSettings × σ) := do
  let (p, _) ← grammar.read { settings := ({}, settings) } words
  return (← p.resolve).settings

def readCommand (name : String) (words : List String) :
    Except UsageFault (CommonSettings × Command) := do
  match name with
  | "diff" =>
    let path (name : String) := pathPosition name false fun p (s : CompareSettings) =>
      { s with paths := s.paths ++ [p] }
    let (common, s) ← readInner (innerGrammar CompareSettings.arguments [path "old", path "new"]) {} words
    match s.paths with
    | [old, new] => return (common, .compare s old new)
    | _ => throw .missingRequiredArgument
  | "digest" =>
    let file := pathPosition "files" true fun p (s : List Path) => s ++ [p]
    let (common, files) ← readInner (innerGrammar [] [file]) [] words
    if files.isEmpty then throw .missingRequiredArgument
    return (common, .digest files)
  | _ =>
    let path (name : String) := pathPosition name false fun p (s : TreeSettings) =>
      { s with paths := s.paths ++ [p] }
    let (common, s) ← readInner (innerGrammar TreeSettings.arguments [path "old", path "new"]) {} words
    match s.paths with
    | [old, new] => return (common, .reconcile s old new)
    | _ => throw .missingRequiredArgument

def readHelp : List String → UsageFault
  | [] => .displayHelp
  | [name] => if commandNames.contains name then .displayHelp else .invalidSubcommand
  | _ => .invalidSubcommand

/-- Reads a command line. What stands behind the name of a command is read to its end before the last
value in front of it is entered. -/
def readCommandLine (words : List String) : Except UsageFault (CommonSettings × Command) := do
  match ← outerGrammar.read { settings := {} } words with
  | (_, some ("help", rest)) => throw (readHelp rest)
  | (p, some (name, rest)) =>
    let (inner, command) ← readCommand name rest
    let p ← p.resolve
    return (inner.merge p.settings, command)
  | (p, none) =>
    let p ← p.resolve
    throw (if p.given.isEmpty then .helpOnMissing else .missingSubcommand)

end TokenDiff.CommandLine
