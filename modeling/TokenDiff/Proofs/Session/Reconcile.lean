import Mathlib
import TokenDiff.Proofs.Digest.Cache
import TokenDiff.Proofs.Reconcile.Pairing
import TokenDiff.Proofs.Text.Decimal
import TokenDiff.Session.Reconcile

/-!
# The difference of two trees

A tree says of every list of names which digest the file under these names has, if there is one that is not
left out. What a session reports of two folders whose files can be read is the difference of their trees
(`reconcile_exact`), whatever kinds of changes are wanted: the others are left out at the end, and have been
paired before.
-/

namespace TokenDiff

/-- The digest of the file under some names, if there is one. -/
abbrev Tree := List Name → Option FileDigest

/-- The paths, in their order, are those of the names with a property. -/
structure Lists (P : List Name → Prop) (paths : List Path) : Prop where
  ascending : paths.Pairwise (· < ·)
  mem_iff : ∀ p, p ∈ paths ↔ ∃ names, P names ∧ p = Path.ofNames names

/-- The path is that of a file in both trees, with different digests. -/
def Tree.Differ (old new : Tree) (p : Path) : Prop :=
  ∃ names d d', old names = some d ∧ new names = some d' ∧ d ≠ d' ∧ p = Path.ofNames names

/-- The changes are the difference of two trees, in the order of their paths. Of the files with one digest
that are in one tree only, the first of the new tree goes with the first of the old one, and so on. -/
structure Tree.IsDifference (old new : Tree) (changes : List Change) : Prop where
  ascending : changes.Pairwise fun c d => c.path < d.path
  exact : ∃ gone fresh : FileDigest → List Path,
    (∀ digest, Lists (fun names => old names = some digest ∧ new names = none) (gone digest)) ∧
    (∀ digest, Lists (fun names => new names = some digest ∧ old names = none) (fresh digest)) ∧
    ∀ c, c ∈ changes ↔ Change.Due (old.Differ new) gone fresh c

/-- The digest of what is at a place, as far as it is a file. -/
def Disk.digest? (d : Disk) (place : List Name) : Option FileDigest :=
  match d.find? place with
  | some (.file f) => some (FileDigest.ofBytes f.data)
  | _ => none

/-- The digest of the file at a place, and of an empty one where there is none. -/
def Disk.digestAt (d : Disk) (place : List Name) : FileDigest :=
  (d.digest? place).getD (FileDigest.ofBytes [])

/-- The files at and below a place that a request does not leave out. -/
def TreeRequest.tree (r : TreeRequest) (disk : Disk) (place : List Name) : Tree := fun names =>
  if r.excludes names then none else disk.digest? (place ++ names)

/-- All files at and below a place can be read that a request does not leave out. -/
def TreeRequest.Readable (r : TreeRequest) (disk : Disk) (place : List Name) : Prop :=
  ∀ names f, r.excludes names = false → disk.find? (place ++ names) = some (.file f) → f.readable = true

theorem TreeRequest.readable_of_files {disk : Disk} (h : ∀ entry ∈ disk.files, entry.2.readable = true)
    {r : TreeRequest} {place : List Name} : r.Readable disk place := by
  intro names f _ hf
  obtain ⟨before, after, hfiles, -⟩ := List.lookup_eq_some_iff.1 (Disk.find?_eq_file.1 hf).2
  exact h (place ++ names, f) (by simp [hfiles])

/-! ## The line of a change -/

/-- A letter, between the codes that turn a colour on and off if there are to be colours. -/
def tinted (colours : Bool) (code letter : String) : String :=
  if colours then "\x1b[" ++ code ++ "m" ++ letter ++ "\x1b[0m" else letter

/-- The line of a change: the letter of its kind, and its path or both of its paths. -/
def Change.spelled (colours : Bool) : Change → String
  | .modified p => tinted colours "33" "M" ++ " " ++ p.text ++ "\n"
  | .added p => tinted colours "32" "A" ++ " " ++ p.text ++ "\n"
  | .deleted p => tinted colours "31" "D" ++ " " ++ p.text ++ "\n"
  | .renamed p q => tinted colours "36" "R" ++ " " ++ p.text ++ " -> " ++ q.text ++ "\n"

theorem utf8Bytes_tinted (kind : ChangeKind) (code letter : String) (colours : Bool)
    (hletter : kind.letter.toString = letter) (hcode : kind.colour.opening = utf8Bytes ("\x1b[" ++ code ++ "m"))
    (hplain : reopen kind.colour.opening (utf8Bytes letter) = utf8Bytes letter) :
    utf8Bytes (tinted colours code letter) =
      if colours then kind.colour.apply (utf8Bytes kind.letter.toString) else utf8Bytes kind.letter.toString := by
  rw [hletter]
  cases colours with
  | false => rfl
  | true =>
      have hreset : colourReset = utf8Bytes "\x1b[0m" := by decide
      rw [if_pos rfl, Colour.apply, hplain, hcode, hreset, ← utf8Bytes_append, ← utf8Bytes_append]
      rfl

theorem Change.line_eq (c : Change) (colours : Bool) : c.line colours = utf8Bytes (c.spelled colours) := by
  have hline : c.line colours = (if colours then c.kind.colour.apply (utf8Bytes c.code) else utf8Bytes c.code) ++
      (utf8Bytes " " ++ utf8Bytes c.describe ++ utf8Bytes "\n") := by
    have hblank : utf8Bytes s!" {c.describe}" = utf8Bytes " " ++ utf8Bytes c.describe := utf8Bytes_append ..
    have htext : utf8Bytes c.text = utf8Bytes c.code ++ (utf8Bytes " " ++ utf8Bytes c.describe) := by
      rw [← utf8Bytes_append, ← utf8Bytes_append, ← String.append_assoc]
      rfl
    rw [line, coloured, hblank, htext]
    cases colours <;> exact List.append_assoc ..
  have hmodified := utf8Bytes_tinted .modified "33" "M" colours (by decide) (by decide) (by decide)
  have hadded := utf8Bytes_tinted .added "32" "A" colours (by decide) (by decide) (by decide)
  have hdeleted := utf8Bytes_tinted .deleted "31" "D" colours (by decide) (by decide) (by decide)
  have hrenamed := utf8Bytes_tinted .renamed "36" "R" colours (by decide) (by decide) (by decide)
  rw [hline]
  cases c with
  | modified p | added p | deleted p =>
      simp only [spelled, utf8Bytes_append, List.append_assoc, hmodified, hadded, hdeleted]
      rfl
  | renamed p q =>
      have hpaths : describe (.renamed p q) = p.text ++ " -> " ++ q.text := rfl
      simp only [spelled, hpaths, utf8Bytes_append, List.append_assoc, hrenamed]
      rfl

/-! ## What is listed of a tree -/

def TreeRequest.names (r : TreeRequest) (disk : Disk) (place : List Name) : List (List Name) :=
  (disk.filesUnder place).filter fun names => !r.excludes names

section

variable {disk : Disk} {r : TreeRequest} {root : Path} {place names : List Name}

theorem Disk.digest?_eq_some {digest : FileDigest} : disk.digest? place = some digest ↔
    ∃ f, disk.find? place = some (.file f) ∧ digest = FileDigest.ofBytes f.data := by
  rw [digest?]
  cases disk.find? place with
  | none => simp
  | some node =>
      cases node with
      | folder => simp
      | file f => simp [eq_comm]

theorem TreeRequest.list_eq (hroot : disk.resolve root = .ok place) (hfolder : disk.isFolder place = true) :
    r.list disk root = .ok (r.names disk place) := by
  rw [list, hroot]
  exact if_pos hfolder

theorem TreeRequest.mem_names :
    names ∈ r.names disk place ↔ ∃ digest, r.tree disk place names = some digest := by
  rw [TreeRequest.names, List.mem_filter, Disk.mem_filesUnder, tree]
  cases r.excludes names with
  | true => simp
  | false => simp [Disk.digest?_eq_some]

theorem TreeRequest.pairwise_names (r : TreeRequest) (disk : Disk) (place : List Name) :
    (r.names disk place).Pairwise fun m n => Path.ofNames m < Path.ofNames n :=
  (disk.pairwise_filesUnder place).filter _

end

/-! ## What is read of a tree -/

/-- The session keeps digests that are true to the disk, and has written so much. -/
structure Session.Quiet (disk : Disk) (output : List UInt8) (s : Session) : Prop where
  digests : s.digests.TrueTo disk
  output : s.output = output

section

variable {disk : Disk} {r : TreeRequest} {root : Path} {place names : List Name} {output : List UInt8}

theorem Session.answers_digestOf {p : Path} {f : File} (hp : disk.get p = .ok (.file f))
    (hread : f.readable = true) :
    Answers (Quiet disk output) (digestOf disk p) (FileDigest.ofBytes f.data) (Quiet disk output) := by
  intro s hs
  obtain ⟨digests, hdigest, htrue⟩ := DigestCache.answers_digestOf hp hread s.digests hs.digests
  rw [digestOf, hdigest]
  exact ⟨{ s with digests }, rfl, htrue, hs.output⟩

/-- Below the root of a tree the digest of each of its files is given. -/
theorem Session.answers_digestOf_join (hroot : disk.resolve root = .ok place)
    (hfolder : disk.isFolder place = true) (hread : r.Readable disk place) (hnames : names ∈ r.names disk place) :
    Answers (Quiet disk output) (digestOf disk (root.join names)) (disk.digestAt (place ++ names))
      (Quiet disk output) := by
  obtain ⟨hmem, hkept⟩ := List.mem_filter.1 hnames
  obtain ⟨f, hf⟩ := Disk.mem_filesUnder.1 hmem
  have hdigest : disk.digestAt (place ++ names) = FileDigest.ofBytes f.data := by
    rw [Disk.digestAt, Disk.digest?_eq_some.2 ⟨f, hf, rfl⟩, Option.getD_some]
  rw [hdigest]
  exact answers_digestOf (Disk.get_join hroot hfolder hf) (hread names f (Bool.not_eq_true' _ ▸ hkept) hf)

def Disk.digestsAt (disk : Disk) (place : List Name) (files : List (List Name)) : List (Path × FileDigest) :=
  files.map fun names => (Path.ofNames names, disk.digestAt (place ++ names))

theorem Session.answers_digestsUnder (hroot : disk.resolve root = .ok place)
    (hfolder : disk.isFolder place = true) (hread : r.Readable disk place) {files : List (List Name)}
    (hfiles : files ⊆ r.names disk place) :
    Answers (Quiet disk output) (digestsUnder disk root files) (disk.digestsAt place files)
      (Quiet disk output) :=
  .mapM fun _ hnames => (answers_digestOf_join hroot hfolder hread (hfiles hnames)).bind (.pure _)

end

/-! ## The changes between two trees -/

section

variable (r : TreeRequest) (disk : Disk) (a b : List Name)

def TreeRequest.different : List (List Name) :=
  ((r.names disk a).filter (r.names disk b).contains).filter fun names =>
    disk.digestAt (a ++ names) != disk.digestAt (b ++ names)

def TreeRequest.onlyIn : List (List Name) :=
  (r.names disk a).filter fun names => !(r.names disk b).contains names

/-- The changes between the trees at two places. -/
def TreeRequest.changes : List Change :=
  Change.between ((r.different disk a b).map Path.ofNames) (disk.digestsAt a (r.onlyIn disk a b))
    (disk.digestsAt b (r.onlyIn disk b a))

variable {r disk a b} {output : List UInt8}

/-- Whatever is kept of the digests, the changes of the wanted kinds are what is answered and written. -/
theorem Session.answers_reconcile (hold : disk.resolve r.old = .ok a) (ha : disk.isFolder a = true)
    (hnew : disk.resolve r.new = .ok b) (hb : disk.isFolder b = true) (hread : r.Readable disk a)
    (hread' : r.Readable disk b) :
    Answers (Quiet disk output) (reconcile disk r)
      ((r.changes disk a b).filter fun c => r.kinds.contains c.kind)
      (Quiet disk (output ++ ((r.changes disk a b).filter fun c => r.kinds.contains c.kind).flatMap fun c =>
        utf8Bytes (c.spelled r.colours))) := by
  have hdifferent : ∀ names ∈ (r.names disk a).filter (r.names disk b).contains,
      Answers (Quiet disk output)
        (do
          let before ← digestOf disk (r.old.join names)
          let after ← digestOf disk (r.new.join names)
          return before != after)
        (disk.digestAt (a ++ names) != disk.digestAt (b ++ names)) (Quiet disk output) := by
    intro names hnames
    obtain ⟨hmem, hmem'⟩ := List.mem_filter.1 hnames
    rw [List.contains_iff_mem] at hmem'
    exact (answers_digestOf_join hold ha hread hmem).bind
      ((answers_digestOf_join hnew hb hread' hmem').bind (.pure _))
  rw [reconcile, TreeRequest.list_eq hold ha, TreeRequest.list_eq hnew hb]
  refine (Answers.ofExcept _).bind ((Answers.ofExcept _).bind ?_)
  refine (Answers.filterM hdifferent).bind ?_
  refine (answers_digestsUnder hold ha hread fun _ => List.mem_of_mem_filter).bind ?_
  refine (answers_digestsUnder hnew hb hread' fun _ => List.mem_of_mem_filter).bind ?_
  intro s hs
  refine ⟨_, rfl, hs.digests, ?_⟩
  simp only [Change.line_eq]
  exact congrArg (· ++ _) hs.output

theorem TreeRequest.tree_of_mem {place names : List Name} (h : names ∈ r.names disk place) :
    r.tree disk place names = some (disk.digestAt (place ++ names)) := by
  obtain ⟨digest, hdigest⟩ := mem_names.1 h
  rw [hdigest]
  rw [tree] at hdigest
  split at hdigest
  · cases hdigest
  · rw [Disk.digestAt, hdigest, Option.getD_some]

theorem TreeRequest.tree_eq_none {place names : List Name} :
    r.tree disk place names = none ↔ names ∉ r.names disk place := by
  rw [mem_names, not_exists, Option.eq_none_iff_forall_ne_some]

theorem TreeRequest.mem_different {names : List Name} : names ∈ r.different disk a b ↔
    ∃ d d', r.tree disk a names = some d ∧ r.tree disk b names = some d' ∧ d ≠ d' := by
  rw [different, List.mem_filter, List.mem_filter, List.contains_iff_mem, bne_iff_ne]
  constructor
  · rintro ⟨⟨hmem, hmem'⟩, hne⟩
    exact ⟨_, _, tree_of_mem hmem, tree_of_mem hmem', hne⟩
  · rintro ⟨d, d', hd, hd', hne⟩
    have hmem := mem_names.2 ⟨d, hd⟩
    have hmem' := mem_names.2 ⟨d', hd'⟩
    rw [tree_of_mem hmem, Option.some_inj] at hd
    rw [tree_of_mem hmem', Option.some_inj] at hd'
    exact ⟨⟨hmem, hmem'⟩, hd ▸ hd' ▸ hne⟩

theorem TreeRequest.mem_onlyIn {names : List Name} : names ∈ r.onlyIn disk a b ↔
    names ∈ r.names disk a ∧ r.tree disk b names = none := by
  rw [onlyIn, List.mem_filter, Bool.not_eq_true', Bool.eq_false_iff, Ne, List.contains_iff_mem, tree_eq_none]

/-- The files that are in one tree only, by their digests. -/
theorem TreeRequest.lists_withDigest (r : TreeRequest) (disk : Disk) (a b : List Name)
    (digest : FileDigest) :
    Lists (fun names => r.tree disk a names = some digest ∧ r.tree disk b names = none)
      (withDigest (disk.digestsAt a (r.onlyIn disk a b)) digest) := by
  have hpaths : withDigest (disk.digestsAt a (r.onlyIn disk a b)) digest =
      ((r.onlyIn disk a b).filter fun names => disk.digestAt (a ++ names) == digest).map Path.ofNames := by
    rw [withDigest, Disk.digestsAt, List.filter_map, List.map_map]
    rfl
  rw [hpaths]
  constructor
  · rw [List.pairwise_map]
    exact ((r.pairwise_names disk a).filter _).filter _
  · intro p
    rw [List.mem_map]
    constructor
    · rintro ⟨names, hmem, rfl⟩
      obtain ⟨hmem, hdigest⟩ := List.mem_filter.1 hmem
      obtain ⟨hmem, hnone⟩ := mem_onlyIn.1 hmem
      refine ⟨names, ⟨?_, hnone⟩, rfl⟩
      rw [tree_of_mem hmem, eq_of_beq hdigest]
    · rintro ⟨names, ⟨hdigest, hnone⟩, rfl⟩
      have hmem := mem_names.2 ⟨digest, hdigest⟩
      rw [tree_of_mem hmem, Option.some_inj] at hdigest
      exact ⟨names, List.mem_filter.2 ⟨mem_onlyIn.2 ⟨hmem, hnone⟩, beq_of_eq hdigest⟩, rfl⟩

/-- A file that is listed in both trees is not in one of them only. -/
theorem TreeRequest.distinct (r : TreeRequest) (disk : Disk) (a b : List Name) :
    Distinct ((r.different disk a b).map Path.ofNames) (disk.digestsAt a (r.onlyIn disk a b))
      (disk.digestsAt b (r.onlyIn disk b a)) := by
  have hnodup (place : List Name) : (r.names disk place).Nodup := by
    refine (r.pairwise_names disk place).imp fun {m n} h heq => ?_
    rw [heq] at h
    exact Path.lt_irrefl _ h
  have hpaths (place : List Name) (files : List (List Name)) :
      (disk.digestsAt place files).map (·.1) = files.map Path.ofNames := by
    rw [Disk.digestsAt, List.map_map]
    rfl
  have hall : (r.different disk a b ++ (r.onlyIn disk b a ++ r.onlyIn disk a b)).Nodup := by
    refine List.nodup_append.2 ⟨((hnodup a).filter _).filter _,
      List.nodup_append.2 ⟨(hnodup b).filter _, (hnodup a).filter _, ?_⟩, ?_⟩
    · rintro names hfresh _ hgone rfl
      obtain ⟨digest, hdigest⟩ := mem_names.1 (mem_onlyIn.1 hfresh).1
      rw [(mem_onlyIn.1 hgone).2] at hdigest
      cases hdigest
    · rintro names hboth _ hone rfl
      obtain ⟨d, d', hd, hd', -⟩ := mem_different.1 hboth
      rcases List.mem_append.1 hone with hone | hone
      · rw [(mem_onlyIn.1 hone).2] at hd
        cases hd
      · rw [(mem_onlyIn.1 hone).2] at hd'
        cases hd'
  rw [Distinct, hpaths, hpaths, ← List.map_append, ← List.map_append, List.pairwise_map]
  exact hall.imp fun {m n} hne hparts => hne (Path.parts_ofNames_injective hparts)

/-- The changes between two trees are their difference. -/
theorem TreeRequest.isDifference_changes (r : TreeRequest) (disk : Disk) (a b : List Name) :
    (r.tree disk a).IsDifference (r.tree disk b) (r.changes disk a b) := by
  have hdistinct := r.distinct disk a b
  have hdifferent : (· ∈ (r.different disk a b).map Path.ofNames) =
      (r.tree disk a).Differ (r.tree disk b) := by
    funext p
    apply propext
    rw [List.mem_map]
    constructor
    · rintro ⟨names, hnames, rfl⟩
      obtain ⟨d, d', hd, hd', hne⟩ := mem_different.1 hnames
      exact ⟨names, d, d', hd, hd', hne, rfl⟩
    · rintro ⟨names, d, d', hd, hd', hne, rfl⟩
      exact ⟨names, mem_different.2 ⟨d, d', hd, hd', hne⟩, rfl⟩
  refine ⟨Change.pairwise_between hdistinct, _, _, lists_withDigest r disk a b,
    lists_withDigest r disk b a, fun c => ?_⟩
  rw [changes, Change.mem_between hdistinct, hdifferent]

end

/-- What a fresh session reports of two folders whose files can be read is the difference of their trees. Of this
those changes are answered that are of a wanted kind, and a line is written for each of them in their order. -/
theorem reconcile_exact {disk : Disk} {r : TreeRequest} {s : Session} {a b : List Name}
    (hold : disk.resolve r.old = .ok a) (ha : disk.isFolder a = true)
    (hnew : disk.resolve r.new = .ok b) (hb : disk.isFolder b = true) (hread : r.Readable disk a)
    (hread' : r.Readable disk b) (hfresh : s.digests = {}) :
    ∃ changes, (r.tree disk a).IsDifference (r.tree disk b) changes ∧
      (∃ s', Session.reconcile disk { r with kinds := .all } s = .ok changes s') ∧
      ∀ kinds : KindSet, ∃ s', Session.reconcile disk { r with kinds } s =
          .ok (changes.filter fun c => kinds.contains c.kind) s' ∧
        s'.output = s.output ++ (changes.filter fun c => kinds.contains c.kind).flatMap fun c =>
          utf8Bytes (c.spelled r.colours) := by
  have hreport (kinds : KindSet) : ∃ s', Session.reconcile disk { r with kinds } s =
        .ok ((r.changes disk a b).filter fun c => kinds.contains c.kind) s' ∧
      s'.output = s.output ++ ((r.changes disk a b).filter fun c => kinds.contains c.kind).flatMap fun c =>
        utf8Bytes (c.spelled r.colours) := by
    have hquiet : s.Quiet disk s.output := ⟨hfresh ▸ DigestCache.trueTo_empty disk, rfl⟩
    obtain ⟨s', hout, hquiet'⟩ :=
      Session.answers_reconcile (r := { r with kinds }) hold ha hnew hb hread hread' s hquiet
    exact ⟨s', hout, hquiet'.output⟩
  refine ⟨r.changes disk a b, r.isDifference_changes disk a b, ?_, hreport⟩
  obtain ⟨s', hout, -⟩ := hreport .all
  have hall : ((r.changes disk a b).filter fun c => KindSet.all.contains c.kind) = r.changes disk a b :=
    List.filter_eq_self.2 fun c _ => by cases c <;> rfl
  rw [hall] at hout
  exact ⟨s', hout⟩

/-- Three files of the new tree have the content of two files that are in the old tree only. -/
def Disk.twins : Disk where
  files :=
    [([⟨"old", by decide⟩, ⟨"a", by decide⟩], { data := [116], modified := 0 }),
      ([⟨"old", by decide⟩, ⟨"b", by decide⟩], { data := [116], modified := 0 }),
      ([⟨"old", by decide⟩, ⟨"m", by decide⟩], { data := [117], modified := 0 }),
      ([⟨"new", by decide⟩, ⟨"c", by decide⟩], { data := [116], modified := 0 }),
      ([⟨"new", by decide⟩, ⟨"d", by decide⟩], { data := [116], modified := 0 }),
      ([⟨"new", by decide⟩, ⟨"e", by decide⟩], { data := [116], modified := 0 }),
      ([⟨"new", by decide⟩, ⟨"m", by decide⟩], { data := [117, 118], modified := 0 })]

def TreeRequest.twins : TreeRequest where
  old := .ofNames [⟨"old", by decide⟩]
  new := .ofNames [⟨"new", by decide⟩]

theorem FileDigest.ofBytes_twin : ofBytes [116] = ⟨"8efd86fb78a56a5145ed7739dcb00c78581c5375", 1⟩ := by
  cbv

/-- Two of the twins have moved, the third one is new, and a file that is in both trees has been modified. -/
theorem TreeRequest.changes_twins :
    TreeRequest.twins.changes Disk.twins [⟨"old", by decide⟩] [⟨"new", by decide⟩] =
      [.renamed (.ofText "a") (.ofText "c"), .renamed (.ofText "b") (.ofText "d"), .added (.ofText "e"),
        .modified (.ofText "m")] := by
  have hboth : (TreeRequest.twins.names Disk.twins [⟨"old", by decide⟩]).filter
      (TreeRequest.twins.names Disk.twins [⟨"new", by decide⟩]).contains = [[⟨"m", by decide⟩]] := by cbv
  have hgone : TreeRequest.twins.onlyIn Disk.twins [⟨"old", by decide⟩] [⟨"new", by decide⟩] =
      [[⟨"a", by decide⟩], [⟨"b", by decide⟩]] := by cbv
  have hfresh : TreeRequest.twins.onlyIn Disk.twins [⟨"new", by decide⟩] [⟨"old", by decide⟩] =
      [[⟨"c", by decide⟩], [⟨"d", by decide⟩], [⟨"e", by decide⟩]] := by cbv
  have hdiffer : (FileDigest.ofBytes [117] != FileDigest.ofBytes [117, 118]) = true :=
    bne_iff_ne.2 fun h => absurd (congrArg FileDigest.size h) (by decide)
  have hdifferent : TreeRequest.twins.different Disk.twins [⟨"old", by decide⟩] [⟨"new", by decide⟩] =
      [[⟨"m", by decide⟩]] := by
    rw [different, hboth]
    exact List.filter_cons_of_pos hdiffer
  rw [changes, hdifferent, hgone, hfresh]
  change Change.between [.ofText "m"]
    [(.ofText "a", FileDigest.ofBytes [116]), (.ofText "b", FileDigest.ofBytes [116])]
    [(.ofText "c", FileDigest.ofBytes [116]), (.ofText "d", FileDigest.ofBytes [116]),
      (.ofText "e", FileDigest.ofBytes [116])] = _
  rw [FileDigest.ofBytes_twin]
  cbv

/-- What is reported of the twins, once with all changes and once with the added files only, in colours. -/
theorem reconcile_exact_of_twins :
    Disk.twins.resolve TreeRequest.twins.old = .ok [⟨"old", by decide⟩] ∧
    Disk.twins.isFolder [⟨"old", by decide⟩] = true ∧
    Disk.twins.resolve TreeRequest.twins.new = .ok [⟨"new", by decide⟩] ∧
    Disk.twins.isFolder [⟨"new", by decide⟩] = true ∧
    TreeRequest.twins.Readable Disk.twins [⟨"old", by decide⟩] ∧
    TreeRequest.twins.Readable Disk.twins [⟨"new", by decide⟩] ∧
    ∃ changes s' t', (TreeRequest.twins.tree Disk.twins [⟨"old", by decide⟩]).IsDifference
        (TreeRequest.twins.tree Disk.twins [⟨"new", by decide⟩]) changes ∧
      Session.reconcile Disk.twins { TreeRequest.twins with kinds := .all } {} = .ok changes s' ∧
      s'.output = utf8Bytes "R a -> c\nR b -> d\nA e\nM m\n" ∧
      Session.reconcile Disk.twins { TreeRequest.twins with kinds := { added := true }, colours := true } {} =
        .ok [.added (.ofText "e")] t' ∧
      t'.output = utf8Bytes "\x1b[32mA\x1b[0m e\n" := by
  have hold : Disk.twins.resolve TreeRequest.twins.old = .ok [⟨"old", by decide⟩] := by decide
  have hold' : Disk.twins.isFolder [⟨"old", by decide⟩] = true := by decide
  have hnew : Disk.twins.resolve TreeRequest.twins.new = .ok [⟨"new", by decide⟩] := by decide
  have hnew' : Disk.twins.isFolder [⟨"new", by decide⟩] = true := by decide
  have hread (place : List Name) : TreeRequest.twins.Readable Disk.twins place :=
    TreeRequest.readable_of_files (by decide)
  have hquiet : Session.Quiet Disk.twins [] {} := ⟨DigestCache.trueTo_empty _, rfl⟩
  have hchanges (colours : Bool) {changes : List Change} {s' : Session}
      (h : Session.reconcile Disk.twins { TreeRequest.twins with kinds := .all, colours } {} = .ok changes s') :
      changes = [.renamed (.ofText "a") (.ofText "c"), .renamed (.ofText "b") (.ofText "d"),
        .added (.ofText "e"), .modified (.ofText "m")] := by
    obtain ⟨t, hrun, -⟩ := Session.answers_reconcile (r := { TreeRequest.twins with colours }) hold hold' hnew
      hnew' (hread _) (hread _) {} hquiet
    obtain ⟨rfl, -⟩ := EStateM.Result.ok.inj (h.symm.trans hrun)
    exact congrArg (List.filter _) TreeRequest.changes_twins
  obtain ⟨changes, hdifference, ⟨s, hout⟩, hkinds⟩ :=
    reconcile_exact hold hold' hnew hnew' (hread _) (hread _) (s := {}) rfl
  obtain ⟨changes', -, ⟨t, hout'⟩, hkinds'⟩ := reconcile_exact (r := { TreeRequest.twins with colours := true })
    hold hold' hnew hnew' (hread _) (hread _) (s := {}) rfl
  obtain rfl := hchanges false hout
  obtain rfl := hchanges true hout'
  obtain ⟨s', hall, hwritten⟩ := hkinds .all
  obtain ⟨t', hadded, hwritten'⟩ := hkinds' { added := true }
  refine ⟨hold, hold', hnew, hnew', hread _, hread _, _, s', t', hdifference, hall, hwritten.trans ?_, hadded,
    hwritten'.trans ?_⟩
  · decide
  · decide

end TokenDiff
