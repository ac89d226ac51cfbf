import TokenDiff.Proofs.Edit.Script
import TokenDiff.Proofs.Token.Reference
import TokenDiff.Report.Hunk

/-!
# Patches

A `Patch.Hunk` says which lines of a text are replaced by which others: its lines are those that stay, those
that are taken out and those that are put in, with the places and the numbers of the lines of both sides.
Hunks are applied strictly, to the very lines they name.

The hunks of a script turn the old lines into the new ones (`applyFrom_ofGroups`). The context of a hunk is
that of the old side. That it is also that of the new side is due to where hunks begin and end: within a
snake, at the same distance from its start on both sides.
-/

namespace TokenDiff

namespace Patch

inductive Mark where
  | context
  | removed
  | added
deriving DecidableEq, Repr

structure Line where
  mark : Mark
  text : List UInt8
deriving DecidableEq, Repr

def before (lines : List Line) : List (List UInt8) := (lines.filter (·.mark != .added)).map Line.text

def after (lines : List Line) : List (List UInt8) := (lines.filter (·.mark != .removed)).map Line.text

/-- A hunk. The lines of each side are counted from one. -/
structure Hunk where
  oldStart : Nat
  oldCount : Nat
  newStart : Nat
  newCount : Nat
  lines : List Line
deriving DecidableEq, Repr

/-- Applies hunks to the lines from place `i` on, which become the new lines from place `j` on. A hunk has
to begin after the one before it, at the place of the new lines that it names, and it has to name the
numbers of its lines and the lines that are there. -/
def applyFrom (i j : Nat) (lines : List (List UInt8)) : List Hunk → Option (List (List UInt8))
  | [] => some lines
  | h :: hunks =>
    let kept := h.oldStart - 1 - i
    if i < h.oldStart ∧ kept ≤ lines.length ∧ h.newStart = j + kept + 1 ∧
        (lines.drop kept).take h.oldCount = before h.lines ∧ (before h.lines).length = h.oldCount ∧
        (after h.lines).length = h.newCount then
      (applyFrom (i + kept + h.oldCount) (j + kept + h.newCount) (lines.drop (kept + h.oldCount))
        hunks).map fun rest => lines.take kept ++ after h.lines ++ rest
    else none

/-- Applies hunks to a text, which is cut into its lines. -/
def apply (hunks : List Hunk) (text : List UInt8) : Option (List UInt8) :=
  (applyFrom 0 0 (Policy.line.tokens text) hunks).map List.flatten

/-- The lines of a hunk that consists of some steps, from line `start` of the old side on. -/
def stepLines (old new : List (List UInt8)) (start stop : Nat) : List Step → List Line
  | [] => (old.extract start stop).map (⟨.context, ·⟩)
  | (s, t) :: steps =>
    (old.extract start s.u).map (⟨.context, ·⟩) ++ (old.extract s.u t.x).map (⟨.removed, ·⟩) ++
      (new.extract s.v t.y).map (⟨.added, ·⟩) ++ stepLines old new t.x stop steps

def Hunk.ofSteps (old new : List (List UInt8)) (extent : Extent) (steps : List Step) : Hunk where
  oldStart := extent.old.start + 1
  oldCount := extent.old.stop - extent.old.start
  newStart := extent.new.start + 1
  newCount := extent.new.stop - extent.new.start
  lines := stepLines old new extent.old.start extent.old.stop steps

/-- The hunks that consist of some groups of steps, with the given width of the context. -/
def ofGroups (old new : List (List UInt8)) (context : Nat) (groups : List (List Step)) : List Hunk :=
  groups.flatMap fun steps =>
    match steps.head?, steps.getLast? with
    | some first, some last =>
      [Hunk.ofSteps old new (Extent.around context old.length new.length first.1 last.2) steps]
    | _, _ => []

end Patch

/-- The hunk names the lines of both sides at the places it says. -/
structure Patch.Hunk.Names (old new : List (List UInt8)) (h : Patch.Hunk) : Prop where
  oldStart_pos : 0 < h.oldStart
  newStart_pos : 0 < h.newStart
  before_eq : before h.lines = (old.drop (h.oldStart - 1)).take h.oldCount
  after_eq : after h.lines = (new.drop (h.newStart - 1)).take h.newCount
  length_before : (before h.lines).length = h.oldCount
  length_after : (after h.lines).length = h.newCount

/-- Hunks that turn the old lines into the new ones name the lines of both sides. -/
theorem Patch.names_of_applyFrom {old new : List (List UInt8)} {i j : Nat} {hunks : List Patch.Hunk}
    (h : applyFrom i j (old.drop i) hunks = some (new.drop j)) : ∀ hunk ∈ hunks, hunk.Names old new := by
  induction hunks generalizing i j with
  | nil => simp
  | cons hunk hunks ih =>
      rw [applyFrom] at h
      split at h
      · rename_i hfits
        obtain ⟨hi, hkept, hnew, hlines, hcount, hcount'⟩ := hfits
        obtain ⟨rest, hrest, happend⟩ := Option.map_eq_some_iff.1 h
        generalize hk : hunk.oldStart - 1 - i = kept at *
        have hlen : ((old.drop i).take kept).length = kept := by
          rw [List.length_take, Nat.min_eq_left hkept]
        have hsplit : (new.drop j).drop kept = after hunk.lines ++ rest := by
          rw [← happend, List.append_assoc, List.drop_append_of_le_length (Nat.le_of_eq hlen.symm),
            List.drop_of_length_le (Nat.le_of_eq hlen), List.nil_append]
        have hstart : hunk.oldStart - 1 = i + kept := by omega
        have hstart' : hunk.newStart - 1 = j + kept := by omega
        rw [List.drop_drop] at hlines hsplit
        have htail : rest = new.drop (j + kept + hunk.newCount) := by
          rw [← List.drop_drop, hsplit, ← hcount', List.drop_left]
        rw [List.drop_drop, ← Nat.add_assoc, htail] at hrest
        refine List.forall_mem_cons.2 ⟨⟨by omega, by omega, ?_, ?_, hcount, hcount'⟩, ih hrest⟩
        · rw [hstart, hlines]
        · rw [hstart', hsplit, ← hcount', List.take_left]
      · cases h

/-! ## Steps over equal lines -/

/-- The snake is a run of equal lines. -/
structure Snake.Joins (old new : List (List UInt8)) (s : Snake) : Prop where
  x_le_u : s.x ≤ s.u
  u_le : s.u ≤ old.length
  v_le : s.v ≤ new.length
  diagonal : s.u + s.y = s.v + s.x
  equal : ∀ k, k < s.u - s.x → old[s.x + k]? = new[s.y + k]?

inductive Route (old new : List (List UInt8)) : Snake → List Step → Snake → Prop
  | nil {s : Snake} (hs : s.Joins old new) : Route old new s [] s
  | cons {s t e : Snake} {steps : List Step} (hs : s.Joins old new) (hgap : s.u ≤ t.x ∧ s.v ≤ t.y)
    (rest : Route old new t steps e) : Route old new s ((s, t) :: steps) e

theorem extract_append_extract {α : Type} (l : List α) {i j k : Nat} (hij : i ≤ j) (hjk : j ≤ k) :
    l.extract i j ++ l.extract j k = l.extract i k := by
  rw [List.extract_eq_take_drop, List.extract_eq_take_drop, List.extract_eq_take_drop,
    show k - i = (j - i) + (k - j) by omega, List.take_add, List.drop_drop, Nat.add_sub_cancel' hij]

section

variable {old new : List (List UInt8)} {s e : Snake} {steps : List Step}

theorem Snake.Joins.extract (h : s.Joins old new) {d d' : Nat} (hd : d' ≤ s.u - s.x) :
    old.extract (s.x + d) (s.x + d') = new.extract (s.y + d) (s.y + d') := by
  apply List.ext_getElem?
  intro k
  rw [List.extract_eq_take_drop, List.extract_eq_take_drop, List.getElem?_take, List.getElem?_take,
    List.getElem?_drop, List.getElem?_drop]
  have hspan : s.x + d' - (s.x + d) = s.y + d' - (s.y + d) := by omega
  rw [hspan]
  split
  · have hequal := h.equal (d + k) (by omega)
    rwa [Nat.add_assoc, Nat.add_assoc]
  · rfl

theorem Snake.Joins.extract_end (h : s.Joins old new) (d : Nat) :
    old.extract (s.x + d) s.u = new.extract (s.y + d) s.v := by
  have hxu := h.x_le_u
  have hdiag := h.diagonal
  have hsame := h.extract (d := d) (Nat.le_refl (s.u - s.x))
  rwa [Nat.add_sub_cancel' hxu, show s.y + (s.u - s.x) = s.v by omega] at hsame

theorem Snake.Joins.drop (h : s.Joins old new) (hcorner : s.u = old.length ∧ s.v = new.length) (d : Nat) :
    old.drop (s.x + d) = new.drop (s.y + d) := by
  have hsame := h.extract_end d
  rwa [hcorner.1, hcorner.2, List.extract_eq_take_drop, List.extract_eq_take_drop,
    List.take_of_length_le (Nat.le_of_eq List.length_drop),
    List.take_of_length_le (Nat.le_of_eq List.length_drop)] at hsame

namespace Route

theorem head (h : Route old new s steps e) : s.Joins old new := by
  cases h with
  | nil hs => exact hs
  | cons hs _ _ => exact hs

theorem last (h : Route old new s steps e) : e.Joins old new := by
  induction h with
  | nil hs => exact hs
  | cons _ _ _ ih => exact ih

theorem split {first last : List Step} (h : Route old new s (first ++ last) e) :
    ∃ m, Route old new s first m ∧ Route old new m last e := by
  induction first generalizing s with
  | nil => exact ⟨s, .nil h.head, h⟩
  | cons step first ih =>
      cases h with
      | cons hs hgap rest =>
          obtain ⟨m, hfirst, hlast⟩ := ih rest
          exact ⟨m, .cons hs hgap hfirst, hlast⟩

theorem ends (h : Route old new s steps e) (hne : steps ≠ []) :
    ∃ first last, steps.head? = some first ∧ steps.getLast? = some last ∧ first.1 = s ∧ last.2 = e := by
  induction h with
  | nil _ => exact absurd rfl hne
  | @cons s t e steps hs hgap rest ih =>
      cases steps with
      | nil =>
          cases rest
          exact ⟨(s, t), (s, t), rfl, rfl, rfl, rfl⟩
      | cons step steps =>
          obtain ⟨-, last, -, hlast, -, he⟩ := ih (List.cons_ne_nil step steps)
          exact ⟨(s, t), last, rfl, by rwa [List.getLast?_cons_cons], rfl, he⟩

end Route

end

/-! ## The lines of both sides of a hunk -/

namespace Patch

@[simp] theorem before_append (xs ys : List Line) : before (xs ++ ys) = before xs ++ before ys := by
  rw [before, List.filter_append, List.map_append]
  rfl

@[simp] theorem after_append (xs ys : List Line) : after (xs ++ ys) = after xs ++ after ys := by
  rw [after, List.filter_append, List.map_append]
  rfl

@[simp] theorem before_map (mark : Mark) (texts : List (List UInt8)) :
    before (texts.map (⟨mark, ·⟩)) = if mark = .added then [] else texts := by
  induction texts with
  | nil => cases mark <;> rfl
  | cons text texts ih => cases mark <;> simp_all [before]

@[simp] theorem after_map (mark : Mark) (texts : List (List UInt8)) :
    after (texts.map (⟨mark, ·⟩)) = if mark = .removed then [] else texts := by
  induction texts with
  | nil => cases mark <;> rfl
  | cons text texts ih => cases mark <;> simp_all [after]

end Patch

section

variable {old new : List (List UInt8)} {s e : Snake} {steps : List Step}

theorem Route.le (h : Route old new s steps e) : s.x ≤ e.x ∧ s.y ≤ e.y := by
  induction h with
  | nil _ => exact ⟨Nat.le_refl _, Nat.le_refl _⟩
  | @cons s t e steps hs hgap rest ih =>
      have := hs.x_le_u
      have := hs.diagonal
      omega

theorem before_stepLines (h : Route old new s steps e) (start stop : Nat) (hstart : start ≤ s.u)
    (hstop : e.x ≤ stop) :
    Patch.before (Patch.stepLines old new start stop steps) = old.extract start stop := by
  induction h generalizing start with
  | nil hs => rw [Patch.stepLines, Patch.before_map, if_neg (by decide)]
  | @cons s t e steps hs hgap rest ih =>
      have hle := rest.le
      have htail := ih t.x rest.head.x_le_u hstop
      simp only [Patch.stepLines, Patch.before_append, Patch.before_map, reduceCtorEq, if_false, if_true,
        htail, List.append_nil]
      rw [extract_append_extract old hstart hgap.1, extract_append_extract old (by omega) (by omega)]

/-- The lines that they are replaced by are the new lines that the hunk covers, if it begins and ends within
snakes. -/
theorem after_stepLines (h : Route old new s steps e) {d d' : Nat} (hd : d ≤ s.u - s.x)
    (hd' : d' ≤ e.u - e.x) :
    Patch.after (Patch.stepLines old new (s.x + d) (e.x + d') steps) =
      new.extract (s.y + d) (e.y + d') := by
  induction h generalizing d with
  | nil hs => rw [Patch.stepLines, Patch.after_map, if_neg (by decide), hs.extract hd']
  | @cons s t e steps hs hgap rest ih =>
      have hle := rest.le
      have hxu := hs.x_le_u
      have hdiag := hs.diagonal
      have htail := ih (d := 0) (Nat.zero_le _) hd'
      rw [Nat.add_zero, Nat.add_zero] at htail
      have hcontext := hs.extract_end d
      simp only [Patch.stepLines, Patch.after_append, Patch.after_map, reduceCtorEq, if_false, if_true,
        htail, List.append_nil, hcontext]
      rw [extract_append_extract new (by omega) hgap.2, extract_append_extract new (by omega) (by omega)]

end

/-! ## Applying the hunks of a script -/

/-- The snake is not shown as a whole between two hunks. -/
def Snake.Parts (context : Nat) (s : Snake) : Prop := s.x + 2 * context < s.u

section

variable {old new : List (List UInt8)} {s e : Snake} {context : Nat}

/-- A hunk begins within its first snake and ends within its last one, each time at the same distance from
the start of the snake on both sides. -/
theorem around_within (context : Nat) (hs : s.Joins old new) (he : e.Joins old new)
    (hstart : (s.x = 0 ∧ s.y = 0) ∨ context ≤ s.u - s.x)
    (hstop : (e.u = old.length ∧ e.v = new.length) ∨ context ≤ e.u - e.x) :
    Extent.around context old.length new.length s e =
      ⟨⟨s.x + (s.u - s.x - context), e.x + min context (e.u - e.x)⟩,
        ⟨s.y + (s.u - s.x - context), e.y + min context (e.u - e.x)⟩⟩ := by
  have hxu := hs.x_le_u
  have hdiag := hs.diagonal
  have hxu' := he.x_le_u
  have hdiag' := he.diagonal
  have hu := he.u_le
  have hv := he.v_le
  rw [Extent.around, Extent.mk.injEq, Span.mk.injEq, Span.mk.injEq]
  omega

theorem Patch.ofGroups_cons {group : List Step} (groups : List (List Step)) {first last : Step}
    (hhead : group.head? = some first) (hlast : group.getLast? = some last) :
    Patch.ofGroups old new context (group :: groups) =
      Hunk.ofSteps old new (Extent.around context old.length new.length first.1 last.2) group ::
        Patch.ofGroups old new context groups := by
  rw [ofGroups, List.flatMap_cons, hhead, hlast]
  rfl

theorem Route.gap {steps : List Step} (h : Route old new s steps e) (hne : steps ≠ []) :
    s.u ≤ e.x ∧ s.v ≤ e.y := by
  cases h with
  | nil _ => exact absurd rfl hne
  | cons hs hgap rest =>
      have := rest.le
      omega

/-- Each group is followed by a snake that parts it from the next one. -/
def Parted (context : Nat) (groups : List (List Step)) : Prop :=
  groups.IsChain fun group _ => ∀ last ∈ group.getLast?, last.2.Parts context

theorem length_extract_of_le {α : Type} (l : List α) {i j : Nat} (hj : j ≤ l.length) :
    (l.extract i j).length = j - i := by
  rw [List.extract_eq_take_drop, List.length_take, List.length_drop]
  omega

/-- A hunk with the lines of both sides between two places, before which both sides go on alike from where
they are, is applied if the hunks after it are. -/
theorem Patch.applyFrom_cons {i i₁ i₂ j j₁ j₂ : Nat} {lines : List Line} {hunks : List Hunk}
    (hi : i ≤ i₁ ∧ i₁ ≤ i₂ ∧ i₂ ≤ old.length) (hj : j ≤ j₁ ∧ j₁ ≤ j₂ ∧ j₂ ≤ new.length)
    (hsame : i₁ + j = j₁ + i) (hkept : old.extract i i₁ = new.extract j j₁)
    (hbefore : before lines = old.extract i₁ i₂) (hafter : after lines = new.extract j₁ j₂)
    (hrest : applyFrom i₂ j₂ (old.drop i₂) hunks = some (new.drop j₂)) :
    applyFrom i j (old.drop i) (⟨i₁ + 1, i₂ - i₁, j₁ + 1, j₂ - j₁, lines⟩ :: hunks) =
      some (new.drop j) := by
  -- the same number of lines is kept on both sides
  obtain ⟨k, rfl⟩ := Nat.exists_eq_add_of_le hi.1
  obtain rfl : j₁ = j + k := by omega
  have hstart : i + k + 1 - 1 - i = k := by omega
  have hwithin : k ≤ (old.drop i).length := by
    rw [List.length_drop]
    omega
  have hlines : ((old.drop i).drop k).take (i₂ - (i + k)) = before lines := by
    rw [hbefore, List.drop_drop, List.extract_eq_take_drop]
  have htaken : (old.drop i).take k = new.extract j (j + k) := by
    rw [← hkept, List.extract_eq_take_drop, Nat.add_sub_cancel_left]
  have hcount := length_extract_of_le old hi.2.2 (i := i + k)
  have hcount' := length_extract_of_le new (i := j + k) hj.2.2
  rw [← hbefore] at hcount
  rw [← hafter] at hcount'
  rw [applyFrom]
  simp only [hstart]
  rw [if_pos ⟨by omega, hwithin, trivial, hlines, hcount, hcount'⟩, List.drop_drop, ← Nat.add_assoc,
    Nat.add_sub_cancel' hi.2.1, Nat.add_sub_cancel' hj.2.1, hrest, Option.map_some, htaken, hafter,
    extract_append_extract new hj.1 hj.2.1, extract_append_drop new (Nat.le_trans hj.1 hj.2.1)]

/-- The hunk of a group that begins and ends within snakes is applied from within the first snake on. -/
theorem applyFrom_ofSteps {group : List Step} {m : Snake} (hgroup : Route old new s group m)
    (hne : group ≠ []) {d d₁ d₂ : Nat} (hd : d ≤ d₁) (hd₁ : d₁ ≤ s.u - s.x) (hd₂ : d₂ ≤ m.u - m.x)
    {hunks : List Patch.Hunk}
    (hrest : Patch.applyFrom (m.x + d₂) (m.y + d₂) (old.drop (m.x + d₂)) hunks =
      some (new.drop (m.y + d₂))) :
    Patch.applyFrom (s.x + d) (s.y + d) (old.drop (s.x + d))
      (Patch.Hunk.ofSteps old new ⟨⟨s.x + d₁, m.x + d₂⟩, ⟨s.y + d₁, m.y + d₂⟩⟩ group :: hunks) =
      some (new.drop (s.y + d)) := by
  obtain ⟨hxu, -, -, hdiag, -⟩ := hgroup.head
  obtain ⟨hmxu, hu, hv, hmdiag, -⟩ := hgroup.last
  have hgap := hgroup.gap hne
  have hbefore := before_stepLines hgroup (s.x + d₁) (m.x + d₂) (by omega) (by omega)
  have hplaces : s.x + d ≤ s.x + d₁ ∧ s.x + d₁ ≤ m.x + d₂ ∧ m.x + d₂ ≤ old.length := by omega
  have hplaces' : s.y + d ≤ s.y + d₁ ∧ s.y + d₁ ≤ m.y + d₂ ∧ m.y + d₂ ≤ new.length := by omega
  have hsame : s.x + d₁ + (s.y + d) = s.y + d₁ + (s.x + d) := by omega
  exact Patch.applyFrom_cons hplaces hplaces' hsame (hgroup.head.extract hd₁) hbefore
    (after_stepLines hgroup hd₁ hd₂) hrest

/-- The hunks of a script, applied from within a snake on, leave the new lines. -/
theorem applyFrom_ofGroups {groups : List (List Step)} (hroute : Route old new s groups.flatten e)
    (hcorner : e.u = old.length ∧ e.v = new.length) (hne : ∀ group ∈ groups, group ≠ [])
    (hparted : Parted context groups) {d : Nat} (hd : d ≤ s.u - s.x)
    (hstart : groups ≠ [] → (s.x = 0 ∧ s.y = 0 ∧ d = 0) ∨ d + context ≤ s.u - s.x) :
    Patch.applyFrom (s.x + d) (s.y + d) (old.drop (s.x + d)) (Patch.ofGroups old new context groups) =
      some (new.drop (s.y + d)) := by
  induction groups generalizing s d with
  | nil =>
      cases hroute with
      | nil hs => exact congrArg some (hs.drop hcorner d)
  | cons group groups ih =>
      have hgroup_ne := hne group List.mem_cons_self
      rw [List.flatten_cons] at hroute
      obtain ⟨m, hgroup, hrest⟩ := hroute.split
      obtain ⟨first, last, hhead, hlast, hfirst, hm⟩ := hgroup.ends hgroup_ne
      have hbegin := hstart (List.cons_ne_nil group groups)
      -- the last snake either parts the group from the next one or ends at the corner
      have hend : (groups = [] ∧ m.u = old.length ∧ m.v = new.length) ∨ m.Parts context := by
        cases groups with
        | nil =>
            cases hrest
            exact .inl ⟨rfl, hcorner⟩
        | cons next groups =>
            rw [Parted, List.isChain_cons_cons] at hparted
            exact .inr (hm ▸ hparted.1 last hlast)
      simp only [Snake.Parts] at hend
      have hextent := around_within context hgroup.head hgroup.last (by omega) (by omega)
      have htail := ih hrest (fun group hgroup => hne group (List.mem_cons_of_mem _ hgroup))
        (List.IsChain.tail hparted) (Nat.min_le_right context (m.u - m.x)) fun hgroups => by
          have hparts := hend.resolve_left fun h => hgroups h.1
          omega
      rw [Patch.ofGroups_cons groups hhead hlast, hfirst, hm, hextent]
      exact applyFrom_ofSteps hgroup hgroup_ne (by omega) (Nat.sub_le _ _) (Nat.min_le_right _ _) htail

end

end TokenDiff
