import TokenDiff.Files.Disk
import TokenDiff.Proofs.Files.Order

/-!
# Following paths, and the files below a folder

Whatever path leads to a place, the place is a function of the parts of the path (`resolve_eq_place`), so all
that is kept by the parts of a path is kept by what the path leads to. From a folder the names of a file below
it lead to the file (`get_join`). The files below a folder are listed without omission or repetition, in the
order of their paths (`mem_filesUnder`, `pairwise_filesUnder`).
-/

namespace TokenDiff

namespace Disk

variable {d : Disk}

/-! ## Files and the folders above them -/

theorem find?_eq_file {place : List Name} {f : File} :
    d.find? place = some (.file f) ↔ d.isFolder place = false ∧ d.files.lookup place = some f := by
  rw [find?]
  cases d.isFolder place <;> simp

theorem isFolder_of_below {here : List Name} {n : Name} {names : List Name} {f : File}
    (h : d.find? (here ++ n :: names) = some (.file f)) : d.isFolder here = true := by
  obtain ⟨before, after, hfiles, -⟩ := List.lookup_eq_some_iff.1 (find?_eq_file.1 h).2
  have hmem : (here ++ n :: names, f) ∈ d.files := by
    rw [hfiles]
    exact List.mem_append_right _ List.mem_cons_self
  rw [isFolder, Bool.or_eq_true]
  exact .inr (List.any_eq_true.2 ⟨_, hmem, by simp⟩)

/-- The names of a file below a folder lead to it, segment by segment. -/
theorem foldlM_names {here names : List Name} {f : File} (h : d.find? (here ++ names) = some (.file f)) :
    (names.map Segment.name).foldlM d.step here = .ok (here ++ names) := by
  induction names generalizing here with
  | nil =>
      rw [List.append_nil]
      rfl
  | cons n names ih =>
      have hfolder := isFolder_of_below h
      rw [List.append_cons] at h ⊢
      have hthere : (d.find? (here ++ [n])).isSome = true := by
        cases names with
        | nil =>
            rw [List.append_nil] at h
            rw [h]
            rfl
        | cons m names =>
            rw [find?, isFolder_of_below h]
            rfl
      have hstep : d.step here (.name n) = .ok (here ++ [n]) := by
        rw [step, hfolder]
        simp only [Bool.not_true, Bool.false_eq_true, if_false, hthere, if_true]
      rw [List.map_cons, List.foldlM_cons, hstep]
      exact ih h

/-! ## Following paths -/

theorem exists_of_bind_eq_ok {ε α β : Type} {x : Except ε α} {f : α → Except ε β} {b : β}
    (h : x >>= f = .ok b) : ∃ a, x = .ok a ∧ f a = .ok b := by
  cases x with
  | ok a => exact ⟨a, rfl, h⟩
  | error e => cases h

/-- What a part of a path makes of a place. -/
def onward (here : List Name) : Part → List Name
  | .root => []
  | .current => here
  | .parent => here.dropLast
  | .name n => here ++ [n]

theorem step_eq_ok {here there : List Name} {segment : Segment} (h : d.step here segment = .ok there) :
    there = (Part.ofSegment? segment).toList.foldl onward here := by
  unfold step at h
  split at h
  · cases h
  · cases segment with
    | empty => exact (Except.ok.inj h).symm
    | current => exact (Except.ok.inj h).symm
    | parent => exact (Except.ok.inj h).symm
    | name n =>
        dsimp only at h
        split at h
        · exact (Except.ok.inj h).symm
        · cases h

def follow (d : Disk) : List Segment → Except PathFault (List Name)
  | .empty :: rest => rest.foldlM d.step []
  | segments => segments.foldlM d.step d.home

theorem resolve_eq_follow {p : Path} (hne : p.segments ≠ []) (hempty : p.segments ≠ [.empty]) :
    d.resolve p = d.follow p.segments := by
  obtain ⟨segments⟩ := p
  cases segments with
  | nil => exact absurd rfl hne
  | cons segment rest =>
      cases segment with
      | empty =>
          cases rest with
          | nil => exact absurd rfl hempty
          | cons _ _ => rfl
      | current => rfl
      | parent => rfl
      | name n => rfl

theorem segments_of_resolve {p : Path} {place : List Name} (h : d.resolve p = .ok place) :
    p.segments ≠ [] ∧ p.segments ≠ [.empty] := by
  constructor
  · intro hnil
    rw [resolve, hnil] at h
    cases h
  · intro hempty
    rw [resolve, hempty] at h
    cases h

theorem follow_append {segments : List Segment} (hne : segments ≠ []) (more : List Segment) :
    d.follow (segments ++ more) = d.follow segments >>= fun here => more.foldlM d.step here := by
  cases segments with
  | nil => exact absurd rfl hne
  | cons segment rest =>
      cases segment with
      | empty => exact List.foldlM_append (m := Except PathFault)
      | current => exact List.foldlM_append (m := Except PathFault) (l := .current :: rest)
      | parent => exact List.foldlM_append (m := Except PathFault) (l := .parent :: rest)
      | name n => exact List.foldlM_append (m := Except PathFault) (l := .name n :: rest)

/-- A slash at the end of a path changes nothing if the path leads to a folder. -/
theorem follow_dropLast {segments : List Segment} {place : List Name} (h : d.follow segments = .ok place)
    (hne : segments ≠ [.empty]) (hlast : segments.getLast? = some .empty) :
    segments.dropLast ≠ [] ∧ d.follow segments.dropLast = .ok place := by
  obtain ⟨base, rfl⟩ := List.getLast?_eq_some_iff.1 hlast
  rw [List.dropLast_concat]
  have hbase : base ≠ [] := by
    rintro rfl
    exact hne rfl
  refine ⟨hbase, ?_⟩
  rw [follow_append hbase] at h
  obtain ⟨here, hhere, hstep⟩ := exists_of_bind_eq_ok h
  rw [List.foldlM_cons] at hstep
  obtain ⟨there, hthere, hend⟩ := exists_of_bind_eq_ok hstep
  obtain rfl := Except.ok.inj hend
  rw [hhere, step_eq_ok hthere]
  rfl

/-- Below a folder the names of a file lead to it. -/
theorem resolve_join {root : Path} {place names : List Name} {f : File} (hroot : d.resolve root = .ok place)
    (hfolder : d.isFolder place = true) (h : d.find? (place ++ names) = some (.file f)) :
    d.resolve (root.join names) = .ok (place ++ names) := by
  obtain ⟨hne, hempty⟩ := segments_of_resolve hroot
  rw [resolve_eq_follow hne hempty] at hroot
  have hnames : names ≠ [] := by
    rintro rfl
    rw [List.append_nil, find?_eq_file, hfolder] at h
    cases h.1
  obtain ⟨hbase, hfollow⟩ : let base := if root.segments.getLast? = some .empty then root.segments.dropLast
      else root.segments
      base ≠ [] ∧ d.follow base = .ok place := by
    dsimp only
    split
    · exact follow_dropLast hroot hempty ‹_›
    · exact ⟨hne, hroot⟩
  have hjoin : d.follow (root.join names).segments = .ok (place ++ names) := by
    rw [Path.join, follow_append hbase, hfollow]
    exact foldlM_names h
  rw [resolve_eq_follow, hjoin]
  · exact List.append_ne_nil_of_left_ne_nil hbase _
  · intro hsingle
    have hlength := congrArg List.length hsingle
    have hpos := List.length_pos_iff.2 hbase
    have hpos' := List.length_pos_iff.2 hnames
    rw [Path.join, List.length_append, List.length_map, List.length_singleton] at hlength
    omega

theorem get_join {root : Path} {place names : List Name} {f : File} (hroot : d.resolve root = .ok place)
    (hfolder : d.isFolder place = true) (h : d.find? (place ++ names) = some (.file f)) :
    d.get (root.join names) = .ok (.file f) := by
  rw [get, resolve_join hroot hfolder h]
  simp only [bind, Except.bind, h]

theorem foldlM_step_eq_ok (segments : List Segment) {here there : List Name}
    (h : segments.foldlM d.step here = .ok there) :
    there = (segments.filterMap Part.ofSegment?).foldl onward here := by
  induction segments generalizing here with
  | nil => exact (Except.ok.inj h).symm
  | cons segment segments ih =>
      rw [List.foldlM_cons] at h
      obtain ⟨next, hnext, hrest⟩ := exists_of_bind_eq_ok h
      rw [ih hrest, step_eq_ok hnext, ← List.foldl_append, List.filterMap_eq_flatMap_toList,
        List.filterMap_eq_flatMap_toList, List.flatMap_cons]

/-! ## Places by the parts of paths -/

/-- The place that a path leads to is the one it speaks of. -/
theorem resolve_eq_place {p : Path} {place : List Name} (h : d.resolve p = .ok place) :
    place = d.place p := by
  obtain ⟨hne, hempty⟩ := segments_of_resolve h
  rw [resolve_eq_follow hne hempty] at h
  change place = p.parts.foldl onward d.home
  obtain ⟨segments⟩ := p
  cases segments with
  | nil => exact absurd rfl hne
  | cons segment rest =>
      cases segment with
      | empty =>
          cases rest with
          | nil => exact absurd rfl hempty
          | cons _ _ => exact foldlM_step_eq_ok _ h
      | current => exact foldlM_step_eq_ok (.current :: rest) h
      | parent => exact foldlM_step_eq_ok (.parent :: rest) h
      | name n => exact foldlM_step_eq_ok (.name n :: rest) h

/-- Two spellings of one path lead to the same file. -/
theorem get_congr {p q : Path} {f g : File} (hparts : p.parts = q.parts) (hp : d.get p = .ok (.file f))
    (hq : d.get q = .ok (.file g)) : f = g := by
  obtain ⟨place, hplace, hfile⟩ := exists_of_bind_eq_ok hp
  obtain ⟨place', hplace', hfile'⟩ := exists_of_bind_eq_ok hq
  have hplaces : d.place p = d.place q := congrArg (List.foldl onward d.home) hparts
  have hsame : place = place' := by
    rw [resolve_eq_place hplace, resolve_eq_place hplace', hplaces]
  rw [hsame] at hfile
  exact Node.file.inj (Except.ok.inj (hfile.symm.trans hfile'))

/-! ## The files below a folder -/

theorem mem_filesUnder {place names : List Name} :
    names ∈ d.filesUnder place ↔ ∃ f, d.find? (place ++ names) = some (.file f) := by
  have hfile (node? : Option Node) : node?.any Node.isFile = true ↔ ∃ f, node? = some (.file f) := by
    cases node? with
    | none => simp
    | some node => cases node <;> simp [Node.isFile]
  rw [filesUnder, List.mem_eraseDups, List.mem_mergeSort, List.mem_filter, hfile, and_iff_right_iff_imp]
  rintro ⟨f, hf⟩
  obtain ⟨before, after, hfiles, -⟩ := List.lookup_eq_some_iff.1 (find?_eq_file.1 hf).2
  rw [List.mem_filterMap]
  refine ⟨(place ++ names, f), ?_, ?_⟩
  · rw [hfiles]
    exact List.mem_append_right _ List.mem_cons_self
  · exact List.isPrefixOf?_eq_some_iff_append_eq.2 rfl

theorem pairwise_filesUnder (d : Disk) (place : List Name) :
    (d.filesUnder place).Pairwise fun m n => Path.ofNames m < Path.ofNames n := by
  refine (pairwise_eraseDups (Path.pairwise_mergeSort_not_lt Path.ofNames _)).imp fun {m n} h => ?_
  by_contra hlt
  exact h.2 (Path.parts_ofNames_injective (Path.parts_eq_of_not_lt hlt h.1))

end Disk

end TokenDiff
