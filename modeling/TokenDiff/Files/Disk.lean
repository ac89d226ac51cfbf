import TokenDiff.Fault
import TokenDiff.Feed
import TokenDiff.Files.Path

/-!
# Disks

A `Disk` holds files and folders under the names that lead to them from the root. A folder need not be
entered: whatever leads to a file or to an entered folder is a folder, so no entry can lack its parent.
Where a name would be both, the folder wins. A file may be there without being readable: it is listed, and its
size and time are known, but it cannot be opened.

Following a path goes segment by segment, not part by part: every segment, an empty one too, needs a
folder to start from, so that `f/` and `f/.` lead nowhere when `f` is a file.
-/

namespace TokenDiff

structure File where
  data : List UInt8
  /-- nanoseconds since the start of 1970 -/
  modified : Int
  /-- whether it may be opened -/
  readable : Bool := true
deriving DecidableEq, Repr

inductive Node where
  | folder
  | file (f : File)
deriving DecidableEq, Repr

def Node.isFile : Node → Bool
  | .folder => false
  | .file _ => true

structure Disk where
  /-- the folder that relative paths start from -/
  home : List Name := []
  folders : List (List Name) := []
  files : List (List Name × File) := []
deriving Repr

namespace Disk

/-- Whether some entry lies at or below that place, and is not a file there. -/
def isFolder (d : Disk) (place : List Name) : Bool :=
  place.isEmpty || place.isPrefixOf d.home || d.folders.any place.isPrefixOf ||
    d.files.any fun (at', _) => place.isPrefixOf at' && place != at'

def find? (d : Disk) (place : List Name) : Option Node :=
  if d.isFolder place then some .folder else (d.files.lookup place).map .file

/-! ## Following paths -/

def step (d : Disk) (here : List Name) (segment : Segment) : Except PathFault (List Name) :=
  if !d.isFolder here then .error .notADirectory
  else
    match segment with
    | .empty | .current => .ok here
    | .parent => .ok here.dropLast
    | .name n => if (d.find? (here ++ [n])).isSome then .ok (here ++ [n]) else .error .notFound

def resolve (d : Disk) (p : Path) : Except PathFault (List Name) :=
  match p.segments with
  | [] | [.empty] => .error .notFound
  | .empty :: rest => rest.foldlM d.step []
  | segments => segments.foldlM d.step d.home

def get (d : Disk) (p : Path) : Except PathFault Node :=
  d.resolve p >>= fun place =>
    match d.find? place with
    | some node => .ok node
    | none => .error .notFound

/-- What reading from the entry at a path yields. A folder can be opened but not read. -/
def openFeed (d : Disk) (p : Path) : Except PathFault Feed :=
  match d.get p with
  | .error fault => .error fault
  | .ok .folder => .ok [.failed (.path .isADirectory)]
  | .ok (.file f) => if f.readable then .ok (Feed.ofBytes f.data) else .error .permissionDenied

theorem openFeed_of_error {d : Disk} {p : Path} {fault : PathFault} (h : d.get p = .error fault) :
    d.openFeed p = .error fault := by
  rw [openFeed, h]

theorem openFeed_of_file {d : Disk} {p : Path} {f : File} (h : d.get p = .ok (.file f))
    (hread : f.readable = true) : d.openFeed p = .ok (Feed.ofBytes f.data) := by
  rw [openFeed, h]
  exact if_pos hread

theorem openFeed_of_unreadable {d : Disk} {p : Path} {f : File} (h : d.get p = .ok (.file f))
    (hread : f.readable = false) : d.openFeed p = .error .permissionDenied := by
  rw [openFeed, h]
  exact if_neg (Bool.eq_false_iff.1 hread)

theorem openFeed_of_folder {d : Disk} {p : Path} (h : d.get p = .ok .folder) :
    d.openFeed p = .ok [.failed (.path .isADirectory)] := by
  rw [openFeed, h]

def file? (d : Disk) (p : Path) : Option File :=
  match d.get p with
  | .ok (.file f) => some f
  | _ => none

/-- The names that lead from a folder to the files in and below it, in the order of their paths. -/
def filesUnder (d : Disk) (folder : List Name) : List (List Name) :=
  let below := d.files.filterMap fun (at', _) => folder.isPrefixOf? at'
  let files := below.filter fun names => (d.find? (folder ++ names)).any Node.isFile
  (files.mergeSort fun m n => !decide (Path.ofNames n < Path.ofNames m)).eraseDups

/-! ## Changes from outside -/

/-- The place a path speaks of, whether there is anything or not. -/
def place (d : Disk) (p : Path) : List Name :=
  p.parts.foldl
    (fun here part =>
      match part with
      | .root => []
      | .current => here
      | .parent => here.dropLast
      | .name n => here ++ [n])
    d.home

def write (d : Disk) (p : Path) (f : File) : Disk :=
  { d with files := (d.place p, f) :: d.files.filter (·.1 != d.place p) }

def makeFolder (d : Disk) (p : Path) : Disk := { d with folders := d.place p :: d.folders }

/-- Without the file at that place. The folder it was in stays. -/
def remove (d : Disk) (p : Path) : Disk :=
  { d with
    folders := (d.place p).dropLast :: d.folders
    files := d.files.filter (·.1 != d.place p) }

end Disk

end TokenDiff
