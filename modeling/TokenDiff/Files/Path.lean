/-!
# Paths

A path is the list of the segments between its slashes, so its text is a plain join and nothing of it is
lost: a leading slash shows as an empty first segment, a repeated or trailing slash as an empty segment
further on. What a path means is a matter of its parts: `Path.parts` leaves out the segments that do not
count, which are the empty ones and every `.` but a leading one. Two paths with the same parts are the
same path to everything that is kept by path, and paths are ordered part by part.

A `Name` is a segment that can name an entry of a folder.
-/

namespace TokenDiff

/-- Not empty, not one of the two dotted segments, and without a slash. -/
def Name.isValid (text : String) : Bool :=
  text != "" && text != "." && text != ".." && text.toList.all (· != '/')

structure Name where
  text : String
  valid : Name.isValid text
deriving DecidableEq, Repr

def Name.ofText? (text : String) : Option Name :=
  if h : Name.isValid text then some ⟨text, h⟩ else none

def Name.extension? (n : Name) : Option String :=
  match n.text.toList.reverse.span (· != '.') with
  | (ext, _ :: _ :: _) => some (String.ofList ext.reverse)
  | _ => none

inductive Segment where
  | empty
  | current
  | parent
  | name (n : Name)
deriving DecidableEq, Repr

namespace Segment

def text : Segment → String
  | .empty => ""
  | .current => "."
  | .parent => ".."
  | .name n => n.text

def ofText (text : String) : Segment :=
  if text = "." then .current
  else if text = ".." then .parent
  else ((Name.ofText? text).map .name).getD .empty

end Segment

inductive Part where
  | root
  | current
  | parent
  | name (n : Name)
deriving DecidableEq, Repr

namespace Part

def rank : Part → Nat
  | .root => 0
  | .current => 1
  | .parent => 2
  | .name _ => 3

/-- The steps that are not names come first, names are ordered as texts. -/
def lt : Part → Part → Bool
  | .name m, .name n => decide (m.text < n.text)
  | p, q => decide (p.rank < q.rank)

instance : LT Part := ⟨fun p q => p.lt q⟩

instance (p q : Part) : Decidable (p < q) := inferInstanceAs (Decidable (p.lt q = true))

/-- The step a segment stands for when it is not the first one. -/
def ofSegment? : Segment → Option Part
  | .empty | .current => none
  | .parent => some .parent
  | .name n => some (.name n)

end Part

/-- The stretches between the slashes of a text, at least one. -/
def splitSlashes (cs : List Char) : List (List Char) :=
  cs.foldr
    (fun c segments =>
      if c = '/' then [] :: segments
      else
        match segments with
        | [] => [[c]]
        | segment :: rest => (c :: segment) :: rest)
    [[]]

structure Path where
  segments : List Segment
deriving DecidableEq, Repr

namespace Path

def ofText (text : String) : Path :=
  ⟨(splitSlashes text.toList).map fun cs => Segment.ofText (String.ofList cs)⟩

def text (p : Path) : String := String.intercalate "/" (p.segments.map Segment.text)

def ofNames (names : List Name) : Path := ⟨names.map .name⟩

/-- The steps of a path. -/
def parts (p : Path) : List Part :=
  match p.segments with
  | [] => []
  | [.empty] => []
  | .empty :: rest => .root :: rest.filterMap Part.ofSegment?
  | .current :: rest => .current :: rest.filterMap Part.ofSegment?
  | segments => segments.filterMap Part.ofSegment?

/-- The path to an entry below this one. A slash is put between them unless this one ends with a slash
or is empty. -/
def join (p : Path) (names : List Name) : Path :=
  let base := if p.segments.getLast? = some .empty then p.segments.dropLast else p.segments
  ⟨base ++ names.map .name⟩

def extension? (p : Path) : Option String :=
  match p.parts.getLast? with
  | some (.name n) => n.extension?
  | _ => none

instance : LT Path := ⟨fun p q => p.parts < q.parts⟩

instance (p q : Path) : Decidable (p < q) := List.decidableLT p.parts q.parts

theorem parts_ofNames (names : List Name) : (ofNames names).parts = names.map .name := by
  have h : (names.map Segment.name).filterMap Part.ofSegment? = names.map .name := by
    rw [List.filterMap_map, ← List.filterMap_eq_map]
    rfl
  cases names with
  | nil => rfl
  | cons n rest => exact h

end Path

end TokenDiff
