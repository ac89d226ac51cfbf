import TokenDiff.Proofs.Files.Listing

/-!
# Following the parts of a path

Where a path leads to, and where it fails and how, is a matter of its parts, unless it ends with a slash or a
dot (`Disk.resolve_eq_resolveParts`). The segments that do not count ask for a folder like the ones that do;
so leaving them out changes nothing as long as another one comes after them.
-/

namespace TokenDiff

def Part.segment : Part → Segment
  | .root => .empty
  | .current => .current
  | .parent => .parent
  | .name n => .name n

/-- The path does not end with a slash or with a dot. -/
def Path.EndsPlain (p : Path) : Prop :=
  p.segments = [.empty] ∨ ∀ segment ∈ p.segments.getLast?, segment ≠ .empty ∧ segment ≠ .current

instance (p : Path) : Decidable p.EndsPlain := inferInstanceAs (Decidable (_ ∨ _))

theorem Path.endsPlain_join {names : List Name} (root : Path) (hne : names ≠ []) :
    (root.join names).EndsPlain := by
  refine .inr fun segment hsegment => ?_
  obtain ⟨init, n, rfl⟩ := (List.eq_nil_or_concat' names).resolve_left hne
  rw [join, List.map_append, List.map_singleton, ← List.append_assoc, List.getLast?_concat] at hsegment
  obtain rfl := Option.mem_some_iff.1 hsegment
  exact ⟨Segment.noConfusion, Segment.noConfusion⟩

namespace Disk

variable {d : Disk}

def resolveParts (d : Disk) : List Part → Except PathFault (List Name)
  | [] => .error .notFound
  | .root :: parts => (parts.map Part.segment).foldlM d.step []
  | parts => (parts.map Part.segment).foldlM d.step d.home

theorem step_of_not_counts {segment : Segment} (h : Part.ofSegment? segment = none) (here : List Name) :
    d.step here segment = if d.isFolder here then .ok here else .error .notADirectory := by
  unfold step
  cases segment with
  | empty => cases d.isFolder here <;> rfl
  | current => cases d.isFolder here <;> rfl
  | parent => cases h
  | name n => cases h

theorem segment_of_ofSegment? {segment : Segment} {part : Part} (h : Part.ofSegment? segment = some part) :
    part.segment = segment := by
  cases segment with
  | empty => cases h
  | current => cases h
  | parent =>
      obtain rfl := Option.some.inj h
      rfl
  | name n =>
      obtain rfl := Option.some.inj h
      rfl

theorem foldlM_step_of_not_folder {here : List Name} (h : d.isFolder here = false) {segments : List Segment}
    (hne : segments ≠ []) : segments.foldlM d.step here = .error .notADirectory := by
  obtain ⟨segment, rest, rfl⟩ := List.exists_cons_of_ne_nil hne
  unfold step
  rw [List.foldlM_cons, h]
  rfl

theorem forall_getLast?_of_cons {α : Type} {P : α → Prop} {a : α} {l : List α}
    (h : ∀ b ∈ (a :: l).getLast?, P b) : ∀ b ∈ l.getLast?, P b := by
  cases l with
  | nil => nofun
  | cons b l => rwa [List.getLast?_cons_cons] at h

/-- Of segments that end with one that counts, those that do not count can be left out. -/
theorem foldlM_step_filterMap {segments : List Segment}
    (hlast : ∀ segment ∈ segments.getLast?, segment ≠ .empty ∧ segment ≠ .current) (here : List Name) :
    segments.foldlM d.step here =
      ((segments.filterMap Part.ofSegment?).map Part.segment).foldlM d.step here := by
  induction segments generalizing here with
  | nil => rfl
  | cons segment rest ih =>
      have hrest := forall_getLast?_of_cons hlast
      cases hpart : Part.ofSegment? segment with
      | some part =>
          rw [List.filterMap_cons_some hpart, List.map_cons, segment_of_ofSegment? hpart, List.foldlM_cons,
            List.foldlM_cons]
          exact bind_congr fun there => ih hrest there
      | none =>
          have hne : rest ≠ [] := by
            rintro rfl
            obtain ⟨hempty, hcurrent⟩ := hlast segment rfl
            cases segment <;> simp_all [Part.ofSegment?]
          rw [List.filterMap_cons_none hpart, ← ih hrest here, List.foldlM_cons, step_of_not_counts hpart]
          cases hfolder : d.isFolder here with
          | true => rfl
          | false => exact (foldlM_step_of_not_folder hfolder hne).symm

/-- A path that does not end with a slash or a dot leads where its parts lead, or fails as they do. -/
theorem resolve_eq_resolveParts {p : Path} (h : p.EndsPlain) : d.resolve p = d.resolveParts p.parts := by
  obtain ⟨segments⟩ := p
  rcases h with hempty | hlast
  · obtain rfl : segments = [.empty] := hempty
    rfl
  · dsimp only at hlast
    cases segments with
    | nil => rfl
    | cons segment rest =>
        have hcompact := foldlM_step_filterMap (d := d) hlast
        have hrest := foldlM_step_filterMap (d := d) (forall_getLast?_of_cons hlast)
        cases segment with
        | empty =>
            cases rest with
            | nil => exact absurd rfl (hlast .empty rfl).1
            | cons next rest => exact hrest []
        | current =>
            have hstep := List.foldlM_cons (f := d.step) (b := d.home) (a := .current) (l := rest)
            refine Eq.trans hstep (Eq.trans ?_ List.foldlM_cons.symm)
            exact bind_congr fun there => hrest there
        | parent => exact hcompact d.home
        | name n => exact hcompact d.home

/-- Two spellings of one path that end plainly lead to the same, or fail alike. -/
theorem get_eq_of_parts {p q : Path} (hp : p.EndsPlain) (hq : q.EndsPlain) (h : p.parts = q.parts) :
    d.get p = d.get q := by
  rw [get, get, resolve_eq_resolveParts hp, resolve_eq_resolveParts hq, h]

end Disk

end TokenDiff
