import TokenDiff.Pattern.Basic

/-!
# Reading patterns

A pattern is read character by character. `Pattern.parse?` has no result for a text that is not a
pattern: one with an unclosed bracket, a repetition of nothing, an unknown escape, or the like. Each step
takes at least one character, so the length of the text bounds all recursions.
-/

namespace TokenDiff.Pattern

/-- What letters in a group such as `(?i)` switch on and off, up to the end of the group around it. -/
structure Modes where
  anyCase : Bool := false
  lines : Bool := false
  dotTakesNewline : Bool := false
deriving DecidableEq, Repr

def Modes.fold (modes : Modes) (s : CharSet) : CharSet := if modes.anyCase then .anyCase s else s

/-! ## Numbers -/

def hexDigit? (c : Char) : Option Nat :=
  if c.isDigit then some (c.toNat - '0'.toNat)
  else if 'a' ≤ c ∧ c ≤ 'f' then some (c.toNat - 'a'.toNat + 10)
  else if 'A' ≤ c ∧ c ≤ 'F' then some (c.toNat - 'A'.toNat + 10)
  else none

def hexChar? (digits : List Char) : Option Char := do
  let values ← digits.mapM hexDigit?
  let n := values.foldl (fun n d => 16 * n + d) 0
  if values.isEmpty then none else if h : n.isValidChar then some (Char.ofNatAux n h) else none

def hexEscape? (width : Nat) : List Char → Option (Char × List Char)
  | '\x7b' :: cs =>
    match cs.span (· != '\x7d') with
    | (digits, _ :: rest) => (hexChar? digits).map (·, rest)
    | _ => none
  | cs => if cs.length < width then none else (hexChar? (cs.take width)).map (·, cs.drop width)

def isSpace (c : Char) : Bool := CharSet.space.contains c

def decimal? (cs : List Char) : Option (Option Nat × List Char) :=
  let (digits, rest) := (cs.dropWhile isSpace).span Char.isDigit
  let n := digits.foldl (fun n c => 10 * n + (c.toNat - '0'.toNat)) 0
  if digits.isEmpty then some (none, rest.dropWhile isSpace)
  else if n < 4294967296 then some (some n, rest.dropWhile isSpace)
  else none

/-! ## Escapes -/

inductive Escape where
  | char (c : Char)
  | set (s : CharSet)
  | anchor (a : Anchor)

def namedAnchor? (name : String) : Option Anchor :=
  match name with
  | "start" => some .wordStart
  | "end" => some .wordEnd
  | "start-half" => some .notAfterWord
  | "end-half" => some .notBeforeWord
  | _ => none

/-- A word boundary. Braces behind it hold the name of a special one, unless they begin like a count. -/
def boundary? : List Char → Option (Anchor × List Char)
  | '\x7b' :: cs =>
    let isNameChar (c : Char) : Bool := c.isAlpha || c == '-'
    match cs.span isNameChar with
    | ([], []) => none
    | ([], _) => some (.boundary, '\x7b' :: cs)
    | (name, '\x7d' :: rest) => (namedAnchor? (String.ofList name)).map (·, rest)
    | _ => none
  | cs => some (.boundary, cs)

def escape? : List Char → Option (Escape × List Char)
  | [] => none
  | c :: cs =>
    match c with
    | 'd' => some (.set .digit, cs)
    | 'D' => some (.set (.compl .digit), cs)
    | 's' => some (.set .space, cs)
    | 'S' => some (.set (.compl .space), cs)
    | 'w' => some (.set .word, cs)
    | 'W' => some (.set (.compl .word), cs)
    | 'x' => (hexEscape? 2 cs).map fun (c, rest) => (.char c, rest)
    | 'u' => (hexEscape? 4 cs).map fun (c, rest) => (.char c, rest)
    | 'U' => (hexEscape? 8 cs).map fun (c, rest) => (.char c, rest)
    | 'a' => some (.char '\x07', cs)
    | 'f' => some (.char '\x0c', cs)
    | 't' => some (.char '\t', cs)
    | 'n' => some (.char '\n', cs)
    | 'r' => some (.char '\r', cs)
    | 'v' => some (.char '\x0b', cs)
    | 'A' => some (.anchor .textStart, cs)
    | 'z' => some (.anchor .textEnd, cs)
    | 'B' => some (.anchor .noBoundary, cs)
    | '<' => some (.anchor .wordStart, cs)
    | '>' => some (.anchor .wordEnd, cs)
    | 'b' => (boundary? cs).map fun (a, rest) => (.anchor a, rest)
    | c => if c.toNat < 128 ∧ !c.isAlphanum then some (.char c, cs) else none

/-! ## Sets in brackets -/

def namedSet? (name : String) : Option CharSet :=
  let range (first last : Char) := (first.toNat, last.toNat)
  let digit := range '0' '9'
  let upper := range 'A' 'Z'
  let lower := range 'a' 'z'
  match name with
  | "alnum" => some (.ranges [digit, upper, lower])
  | "alpha" => some (.ranges [upper, lower])
  | "ascii" => some (.ranges [(0, 127)])
  | "blank" => some (.ranges [(9, 9), (32, 32)])
  | "cntrl" => some (.ranges [(0, 31), (127, 127)])
  | "digit" => some (.ranges [digit])
  | "graph" => some (.ranges [(33, 126)])
  | "lower" => some (.ranges [lower])
  | "print" => some (.ranges [(32, 126)])
  | "punct" => some (.ranges [(33, 47), (58, 64), (91, 96), (123, 126)])
  | "space" => some (.ranges [(9, 13), (32, 32)])
  | "upper" => some (.ranges [upper])
  | "word" => some (.ranges [digit, upper, lower, range '_' '_'])
  | "xdigit" => some (.ranges [digit, range 'A' 'F', range 'a' 'f'])
  | _ => none

def wordSet? : List Char → Option (CharSet × List Char)
  | ':' :: cs =>
    let (negated, cs) := match cs with
      | '^' :: cs => (true, cs)
      | cs => (false, cs)
    match cs.span Char.isAlpha with
    | (name, ':' :: ']' :: rest) =>
      (namedSet? (String.ofList name)).map fun s => (if negated then .compl s else s, rest)
    | _ => none
  | _ => none

def member? : List Char → Option ((Char ⊕ CharSet) × List Char)
  | [] => none
  | '\\' :: cs =>
    match escape? cs with
    | some (.char c, rest) => some (.inl c, rest)
    | some (.set s, rest) => some (.inr s, rest)
    | _ => none
  | c :: cs => some (.inl c, cs)

/-- A member of a set or a range of characters. A dash makes a range unless it stands before a closing
bracket or another dash. -/
def members? (cs : List Char) : Option (CharSet × List Char) := do
  let (first, rest) ← member? cs
  let single : CharSet := match first with
    | .inl c => .single c
    | .inr s => s
  match rest with
  | [] => none
  | '-' :: ']' :: _ | '-' :: '-' :: _ => some (single, rest)
  | '-' :: rest =>
    match first, ← member? rest with
    | .inl first, (.inl last, rest) =>
      if first ≤ last then some (.ranges [(first.toNat, last.toNat)], rest) else none
    | _, _ => none
  | rest => some (single, rest)

abbrev Pending := Option ((CharSet → CharSet → CharSet) × CharSet)

/-- The operands of an operator take in their other cases before they are combined. -/
def combine (modes : Modes) (pending : Pending) (s : CharSet) : CharSet :=
  match pending with
  | some (op, left) => op (modes.fold left) (modes.fold s)
  | none => s

/-- What a set in brackets begins with: the sign of a complement, dashes that stand for themselves, and a
closing bracket that does so because there would be nothing before it. -/
def setStart (cs : List Char) : Bool × CharSet × List Char :=
  let (negated, cs) := match cs with
    | '^' :: cs => (true, cs)
    | cs => (false, cs)
  match cs.span (· == '-') with
  | ([], ']' :: rest) => (negated, .single ']', rest)
  | ([], rest) => (negated, .none, rest)
  | (_, rest) => (negated, .single '-', rest)

/-- The rest of a set in brackets: `s` is what stands between the last operator and here. -/
def setRest (modes : Modes) : Nat → Bool → Pending → CharSet → List Char → Option (CharSet × List Char)
  | 0, _, _, _, _ => none
  | fuel + 1, negated, pending, s, cs =>
    match cs with
    | [] => none
    | ']' :: rest =>
      let s := modes.fold (combine modes pending s)
      some (if negated then .compl s else s, rest)
    | '&' :: '&' :: rest =>
      setRest modes fuel negated (some (.inter, combine modes pending s)) .none rest
    | '-' :: '-' :: rest =>
      setRest modes fuel negated (some (.diff, combine modes pending s)) .none rest
    | '~' :: '~' :: rest =>
      setRest modes fuel negated (some (CharSet.symmDiff, combine modes pending s)) .none rest
    | '[' :: rest =>
      match wordSet? rest with
      | some (t, rest) => setRest modes fuel negated pending (.union s t) rest
      | none =>
        let (innerNegated, start, rest) := setStart rest
        match setRest modes fuel innerNegated none start rest with
        | some (t, rest) => setRest modes fuel negated pending (.union s t) rest
        | none => none
    | cs =>
      match members? cs with
      | some (t, rest) => setRest modes fuel negated pending (.union s t) rest
      | none => none

def set? (modes : Modes) (cs : List Char) : Option (CharSet × List Char) :=
  let (negated, start, rest) := setStart cs
  setRest modes (rest.length + 1) negated none start rest

/-! ## Groups -/

def Modes.set (modes : Modes) (letter : Char) (on : Bool) : Option Modes :=
  match letter with
  | 'i' => some { modes with anyCase := on }
  | 'm' => some { modes with lines := on }
  | 's' => some { modes with dotTakesNewline := on }
  | 'U' | 'u' | 'R' | 'x' => some modes
  | _ => none

/-- The modes after a list of letters, those behind a dash being switched off. No letter occurs twice, and
the dash is not the last of them. -/
def Modes.change (modes : Modes) (letters : List Char) : Option Modes := do
  let (on, off) := letters.span (· != '-')
  let modes ← on.foldlM (fun modes c => modes.set c true) modes
  let modes ← (off.drop 1).foldlM (fun modes c => modes.set c false) modes
  if letters.eraseDups.length = letters.length ∧ off.length ≠ 1 then some modes else none

inductive GroupStart where
  /-- the modes that hold inside -/
  | group (modes : Modes)
  /-- the modes that hold from here on -/
  | change (modes : Modes)

def isGroupName (name : List Char) : Bool :=
  match name with
  | [] => false
  | c :: cs =>
    let isLetter (c : Char) : Bool := c == '_' || (CharSet.word.contains c && !CharSet.digit.contains c)
    isLetter c && cs.all fun c => isLetter c || CharSet.digit.contains c || ".[]".toList.contains c

def groupStart? (modes : Modes) (cs : List Char) : Option (GroupStart × List Char) :=
  let named (cs : List Char) :=
    match cs.span (· != '>') with
    | (name, _ :: rest) => if isGroupName name then some (.group modes, rest) else none
    | _ => none
  match cs with
  | '?' :: 'P' :: '<' :: rest => named rest
  | '?' :: '<' :: rest => named rest
  | '?' :: rest =>
    match rest.span fun c => c != ':' && c != ')' with
    | (letters, ':' :: rest) => (modes.change letters).map fun modes => (.group modes, rest)
    | (letters, _ :: rest) =>
      if letters.isEmpty then none else (modes.change letters).map fun modes => (.change modes, rest)
    | _ => none
  | rest => some (.group modes, rest)

/-! ## Repetitions -/

/-- A count in braces, read from behind the opening one. -/
def count? (cs : List Char) : Option ((Nat × Option Nat) × List Char) := do
  let (least, rest) ← decimal? cs
  let least ← least
  match rest with
  | '\x7d' :: rest => some ((least, some least), rest)
  | ',' :: '\x7d' :: rest => some ((least, none), rest)
  | ',' :: rest =>
    match ← decimal? rest with
    | (some most, '\x7d' :: rest) => if least ≤ most then some ((least, some most), rest) else none
    | _ => none
  | _ => none

def repetition? : List Char → Option (Option ((Nat × Option Nat) × List Char))
  | '*' :: rest => some (some ((0, none), rest))
  | '+' :: rest => some (some ((1, none), rest))
  | '?' :: rest => some (some ((0, some 1), rest))
  | '\x7b' :: rest => (count? rest).map some
  | _ => some none

/-! ## Patterns -/

/-- Alternatives, the last one first, each as its items, the last one first. A change of modes is an item
too, and one that cannot be repeated. -/
structure Draft where
  closed : List Pattern := []
  items : List (Option Pattern) := []

namespace Draft

def concat (items : List (Option Pattern)) : Pattern :=
  items.foldl (fun p item => match item with
    | some q => .seq q p
    | none => p) .empty

def add (d : Draft) (p : Pattern) : Draft := { d with items := some p :: d.items }

def alternate (d : Draft) : Draft := { closed := concat d.items :: d.closed, items := [] }

def finish (d : Draft) : Pattern := d.closed.foldl (fun p q => .either q p) (concat d.items)

end Draft

/-- The pattern up to the end of the text, or within a group up to its closing parenthesis. -/
def read (inGroup : Bool) : Nat → Modes → Draft → List Char → Option (Pattern × List Char)
  | 0, _, _, _ => none
  | fuel + 1, modes, draft, cs =>
    match repetition? cs with
    | none => none
    | some (some ((least, most), rest)) =>
      match draft.items with
      | some p :: items =>
        let rest := match rest with
          | '?' :: rest => rest
          | rest => rest
        read inGroup fuel modes { draft with items := some (.repeated p least most) :: items } rest
      | _ => none
    | some none =>
      match cs with
      | [] => if inGroup then none else some (draft.finish, [])
      | ')' :: rest => if inGroup then some (draft.finish, rest) else none
      | '|' :: rest => read inGroup fuel modes draft.alternate rest
      | '(' :: rest =>
        match groupStart? modes rest with
        | none => none
        | some (.change modes, rest) =>
          read inGroup fuel modes { draft with items := none :: draft.items } rest
        | some (.group inner, rest) =>
          match read true fuel inner {} rest with
          | some (p, rest) => read inGroup fuel modes (draft.add p) rest
          | none => none
      | '[' :: rest =>
        match set? modes rest with
        | some (s, rest) => read inGroup fuel modes (draft.add (.one s)) rest
        | none => none
      | '\\' :: rest =>
        match escape? rest with
        | some (.char c, rest) =>
          read inGroup fuel modes (draft.add (.one (modes.fold (.single c)))) rest
        | some (.set s, rest) => read inGroup fuel modes (draft.add (.one s)) rest
        | some (.anchor a, rest) => read inGroup fuel modes (draft.add (.anchor a)) rest
        | none => none
      | '.' :: rest =>
        let s : CharSet := .compl (if modes.dotTakesNewline then .none else .single '\n')
        read inGroup fuel modes (draft.add (.one s)) rest
      | '^' :: rest =>
        let a : Anchor := if modes.lines then .lineStart else .textStart
        read inGroup fuel modes (draft.add (.anchor a)) rest
      | '$' :: rest =>
        let a : Anchor := if modes.lines then .lineEnd else .textEnd
        read inGroup fuel modes (draft.add (.anchor a)) rest
      | c :: rest => read inGroup fuel modes (draft.add (.one (modes.fold (.single c)))) rest

def sizeLimit : Nat := 320000

def parse? (text : String) : Option Pattern :=
  match read false (text.length + 1) {} {} text.toList with
  | some (p, _) => if p.size ≤ sizeLimit then some p else none
  | none => none

end TokenDiff.Pattern
