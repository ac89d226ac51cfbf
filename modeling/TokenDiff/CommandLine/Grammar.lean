/-!
# Command lines

A command line is a list of words. A `Grammar` lists what they may be: flags and options with short and
long names, and positional values. The words are read from the left, each changing the settings `σ`.

The values of an option or a position are kept back until the next flag, option or position begins, and
only then checked and entered into the settings. Of two mistakes the first to be noticed counts, so a
word that means nothing wins over a bad value right before it.
-/

namespace TokenDiff.CommandLine

inductive UsageFault where
  | unknownArgument
  | invalidValue
  | valueValidation
  | tooManyValues
  | missingRequiredArgument
  | argumentConflict
  | invalidSubcommand
  | missingSubcommand
  | helpOnMissing
  | displayHelp
  | displayVersion
deriving DecidableEq, Repr

def UsageFault.exitCode : UsageFault → Nat
  | .displayHelp | .displayVersion => 0
  | _ => 2

inductive Action (σ : Type) where
  | flag (set : σ → σ)
  /-- takes one value, which may be the next word, even if it is a negative number -/
  | value (negatives : Bool) (set : String → σ → Except UsageFault σ)
  | stop (fault : UsageFault)

structure Argument (σ : Type) where
  name : String
  short : Option Char := none
  long : Option String := none
  action : Action σ

structure Position (σ : Type) where
  name : String
  /-- takes all further values as well -/
  many : Bool := false
  set : String → σ → Except UsageFault σ

structure Grammar (σ : Type) where
  arguments : List (Argument σ)
  positions : List (Position σ) := []
  /-- words that end this grammar, the words behind them being read by another one -/
  commands : List String := []
  /-- the fault of a value without a position, which may stand behind the double dash or before it -/
  stray : Bool → String → UsageFault := fun _ _ => .unknownArgument

/-! ## Settings in parts -/

def Action.within {σ τ : Type} (get : σ → τ) (put : τ → σ → σ) : Action τ → Action σ
  | .flag set => .flag fun s => put (set (get s)) s
  | .value negatives set => .value negatives fun v s => (set v (get s)).map (put · s)
  | .stop fault => .stop fault

def Argument.within {σ τ : Type} (get : σ → τ) (put : τ → σ → σ) (a : Argument τ) : Argument σ :=
  ⟨a.name, a.short, a.long, a.action.within get put⟩

/-! ## Numbers -/

/-- Digits, with at most one point and then at most one `e`, neither of them in front, nor the `e` at the
end. -/
def looksNumeric (cs : List Char) : Bool :=
  let (mantissa, exponent) := cs.span (· != 'e')
  let (whole, fraction) := mantissa.span (· != '.')
  let pointOk := fraction.isEmpty || !whole.isEmpty
  let exponentOk := exponent.isEmpty || (!mantissa.isEmpty && 1 < exponent.length)
  whole.all Char.isDigit && (fraction.drop 1).all Char.isDigit && (exponent.drop 1).all Char.isDigit &&
    pointOk && exponentOk

def readInteger? (text : String) : Option Int :=
  let (negative, digits) := match text.toList with
    | '-' :: cs => (true, cs)
    | '+' :: cs => (false, cs)
    | cs => (false, cs)
  let size : Int := digits.foldl (fun n c => 10 * n + (c.toNat - '0'.toNat)) (0 : Nat)
  let n := if negative then -size else size
  let fits := decide (-9223372036854775808 ≤ n ∧ n < 9223372036854775808)
  if !digits.isEmpty && digits.all Char.isDigit && fits then some n else none

/-! ## Reading -/

structure Pending (σ : Type) where
  name : String
  /-- may be given only once -/
  once : Bool
  set : String → σ → Except UsageFault σ
  values : List String := []

structure Progress (σ : Type) where
  settings : σ
  /-- the names of what has been entered into the settings -/
  given : List String := []
  pending : Option (Pending σ) := none
  /-- whether the next word is the value of what is pending, and if so whether it may be a negative
  number -/
  awaits : Option Bool := none
  /-- whether the double dash has been read, behind which all words are values -/
  escaped : Bool := false
  /-- the number of positions that are filled -/
  filled : Nat := 0

namespace Progress

variable {σ : Type}

def enter (p : Progress σ) (name : String) (once : Bool) (set : σ → Except UsageFault σ) :
    Except UsageFault (Progress σ) :=
  if once && p.given.contains name then .error .argumentConflict
  else (set p.settings).map fun settings =>
    { p with settings, given := name :: p.given, pending := none, awaits := none }

def resolve (p : Progress σ) : Except UsageFault (Progress σ) :=
  match p.pending with
  | none => .ok p
  | some pending =>
    if pending.values.isEmpty then .error .invalidValue
    else p.enter pending.name pending.once fun s => pending.values.foldlM (fun s v => pending.set v s) s

def await (p : Progress σ) (pending : Pending σ) (awaits : Option Bool) :
    Except UsageFault (Progress σ) :=
  p.resolve.map fun p => { p with pending := some pending, awaits }

def addValue (p : Progress σ) (value : String) : Progress σ :=
  { p with
    pending := p.pending.map fun pending => { pending with values := pending.values ++ [value] }
    awaits := none }

def act (p : Progress σ) (a : Argument σ) (attached : Option String) :
    Except UsageFault (Progress σ) :=
  match a.action, attached with
  | .flag set, none => p.resolve >>= fun p => p.enter a.name true fun s => .ok (set s)
  | .stop fault, none => p.resolve >>= fun _ => .error fault
  | .flag _, some _ | .stop _, some _ => .error .tooManyValues
  | .value _ set, some value => p.resolve >>= fun p => p.enter a.name true (set value)
  | .value negatives set, none => p.await { name := a.name, once := true, set } (some negatives)

end Progress

namespace Grammar

variable {σ : Type}

def readLong (g : Grammar σ) (p : Progress σ) (text : List Char) : Except UsageFault (Progress σ) :=
  let (name, value) := text.span (· != '=')
  let attached := if value.isEmpty then none else some (String.ofList (value.drop 1))
  match g.arguments.find? fun a => a.long == some (String.ofList name) with
  | some a => p.act a attached
  | none => .error .unknownArgument

/-- A word with one dash: short names of flags, and perhaps of an option, which takes what follows as its
value. -/
def readShort (g : Grammar σ) : Progress σ → List Char → Except UsageFault (Progress σ)
  | p, [] => .ok p
  | p, c :: cs =>
    match g.arguments.find? fun a => a.short == some c with
    | none => .error .unknownArgument
    | some a =>
      match a.action, cs with
      | .value .., '=' :: value => p.act a (some (String.ofList value))
      | .value .., [] => p.act a none
      | .value .., value => p.act a (some (String.ofList value))
      | _, cs => p.act a none >>= fun p => g.readShort p cs

def readPosition (g : Grammar σ) (p : Progress σ) (word : String) : Except UsageFault (Progress σ) :=
  match g.positions[p.filled]? with
  | none => .error (g.stray p.escaped word)
  | some position =>
    let isOpen := position.many && p.pending.any (·.name == position.name)
    if isOpen then .ok (p.addValue word)
    else
      let filled := if position.many then p.filled else p.filled + 1
      (p.await { name := position.name, once := !position.many, set := position.set } none).map fun p =>
        { p.addValue word with filled }

def readWord (g : Grammar σ) (p : Progress σ) (word : String) : Except UsageFault (Progress σ) :=
  let value := if p.awaits.isSome then .ok (p.addValue word) else g.readPosition p word
  if p.escaped then g.readPosition p word
  else
    match word.toList with
    | ['-', '-'] => .ok { p with escaped := true }
    | '-' :: '-' :: text => g.readLong p text
    | ['-'] => value
    | '-' :: text =>
      if p.awaits == some true && looksNumeric text then value else g.readShort p text
    | _ => value

def read (g : Grammar σ) : Progress σ → List String →
    Except UsageFault (Progress σ × Option (String × List String))
  | p, [] => .ok (p, none)
  | p, word :: words =>
    if !p.escaped && p.awaits.isNone && g.commands.contains word then .ok (p, some (word, words))
    else g.readWord p word >>= fun p => g.read p words

end Grammar

end TokenDiff.CommandLine
