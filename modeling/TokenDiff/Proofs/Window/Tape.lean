import Mathlib.Data.List.Basic
import TokenDiff.Proofs.Answer
import TokenDiff.Proofs.Window.Replay
import TokenDiff.Window

/-!
# Windows as tapes

A `Tape` is a list of bytes with a cursor in it. A window over a source that replays the bytes shows a tape
if its cursor is at the same place and its buffer holds the bytes that come before its offset. The relation
`Window.Shows` leaves open how large the buffer is, how much of it is filled, and in which pieces the reader
will hand out the rest, so what a window answers to an operation that is known by the tape alone is the same
for all of them.

The buffer enters through two lemmas only: `Holds.fill` says what becomes of it when more is read, and
`Shows.span` which bytes can be taken from it. Everything else is about tapes.
-/

namespace TokenDiff

@[ext]
structure Tape where
  bytes : List UInt8
  cursor : Nat
  cursor_le : cursor ≤ bytes.length
deriving DecidableEq

namespace Tape

variable (t : Tape)

def start (bytes : List UInt8) : Tape := ⟨bytes, 0, Nat.zero_le _⟩

def rest : List UInt8 := t.bytes.drop t.cursor

def peek? : Option UInt8 := t.rest.head?

def seek (target : Nat) : Tape :=
  ⟨t.bytes, min target t.bytes.length, Nat.min_le_right _ _⟩

def forward (n : Nat) : Tape := t.seek (t.cursor + n)

def toEnd : Tape := t.seek t.bytes.length

@[simp] theorem start_bytes (bytes : List UInt8) : (start bytes).bytes = bytes := rfl

@[simp] theorem seek_cursor (n : Nat) : (t.seek n).cursor = min n t.bytes.length := rfl

@[simp] theorem forward_bytes (n : Nat) : (t.forward n).bytes = t.bytes := rfl

@[simp] theorem forward_cursor (n : Nat) :
    (t.forward n).cursor = min (t.cursor + n) t.bytes.length := rfl

@[simp] theorem length_rest : t.rest.length = t.bytes.length - t.cursor := by
  rw [rest, List.length_drop]

@[simp] theorem forward_zero : t.forward 0 = t := by
  ext1
  · rfl
  · exact Nat.min_eq_left t.cursor_le

@[simp] theorem forward_forward (m n : Nat) : (t.forward m).forward n = t.forward (m + n) := by
  ext1
  · rfl
  · simp only [forward_cursor, forward_bytes]
    omega

@[simp] theorem rest_forward (n : Nat) : (t.forward n).rest = t.rest.drop n := by
  rw [rest, rest, forward_cursor, forward_bytes, List.drop_drop]
  rcases Nat.le_total (t.cursor + n) t.bytes.length with h | h
  · rw [Nat.min_eq_left h]
  · rw [Nat.min_eq_right h, List.drop_length, List.drop_eq_nil_of_le h]

theorem forward_cursor_of_le {n : Nat} (h : n ≤ t.rest.length) :
    (t.forward n).cursor = t.cursor + n := by
  rw [t.length_rest] at h
  have := t.cursor_le
  rw [forward_cursor]
  omega

theorem forward_of_rest_nil (h : t.rest = []) (n : Nat) : t.forward n = t := by
  have hlen := t.length_rest
  rw [h, List.length_nil] at hlen
  have := t.cursor_le
  ext1
  · rfl
  · rw [forward_cursor]
    omega

theorem toEnd_of_rest_nil (h : t.rest = []) : t.toEnd = t := by
  have hlen := t.length_rest
  rw [h, List.length_nil] at hlen
  have := t.cursor_le
  ext1
  · rfl
  · rw [toEnd, seek_cursor, Nat.min_self]
    omega

@[simp] theorem toEnd_forward (n : Nat) : (t.forward n).toEnd = t.toEnd := rfl

theorem peek?_eq_none : t.peek? = none ↔ t.rest = [] := List.head?_eq_none_iff

theorem peek?_eq_some {b : UInt8} : t.peek? = some b ↔ t.rest = b :: (t.forward 1).rest := by
  rw [peek?, rest_forward]
  cases h : t.rest with
  | nil => simp
  | cons c rest => simp [eq_comm]

theorem length_rest_of_peek? {b : UInt8} (h : t.peek? = some b) :
    t.rest.length = (t.forward 1).rest.length + 1 := by
  rw [t.peek?_eq_some.1 h, List.length_cons]

end Tape

namespace Window

/-- The window is over these bytes: its buffer holds those before its offset, its reader those after. -/
structure Holds (bytes : List UInt8) (w : Window) : Prop where
  replays : w.source.Replays bytes
  yields : w.reader.Yields (bytes.drop w.offset)
  capacity_pos : 0 < w.capacity
  position_le : w.position ≤ w.filled
  filled_le : w.filled ≤ w.offset
  offset_le : w.offset ≤ bytes.length
  buffer : ∀ i < w.filled, w.buffer[i]? = bytes[w.base + i]?

/-- The window is over the bytes of the tape, and its cursor is where that of the tape is. -/
structure Shows (t : Tape) (w : Window) : Prop extends Holds t.bytes w where
  tell_eq : w.tell = t.cursor

/-- The window shows the tape, and has the next byte in its buffer if there is one. -/
structure Loaded (t : Tape) (w : Window) : Prop extends Shows t w where
  rest_nil : w.available = 0 → t.rest = []

theorem getElem?_overwrite (buffer : Array UInt8) (data : List UInt8) {i : Nat}
    (h : i < data.length) : (overwrite buffer data)[i]? = data[i]? := by
  rw [overwrite, Array.getElem?_append_left (by simpa using h)]
  simp

/-- Reading into the buffer moves the window on, unless there is nothing left. -/
theorem Holds.fill {bytes : List UInt8} {w : Window} (h : w.Holds bytes) :
    ∃ n next, fill w = .ok n next ∧ next.Holds bytes ∧ next.offset = w.offset + n ∧
      (n = 0 → bytes.length ≤ w.offset ∧ next.filled = w.filled ∧ next.position = w.position) ∧
      (0 < n → next.filled = n ∧ next.position = 0) := by
  obtain ⟨data, rest, reader, hread, hyields, heq, -, hne⟩ := h.yields.readSteady h.capacity_pos
  cases data with
  | nil =>
      have hrest : bytes.drop w.offset = [] := by
        by_contra hrest
        exact hne hrest rfl
      have hend := List.drop_eq_nil_iff.1 hrest
      rw [List.nil_append] at heq
      refine ⟨0, { w with reader, size := w.offset }, ?_,
        ⟨h.replays, heq ▸ hyields, h.capacity_pos, h.position_le, h.filled_le, h.offset_le, h.buffer⟩,
        rfl, fun _ => ⟨hend, rfl, rfl⟩, fun hn => absurd hn (Nat.lt_irrefl 0)⟩
      simp only [Window.fill, hread]
  | cons b data =>
      have hlen := congrArg List.length heq
      rw [List.length_drop, List.length_append, List.length_cons] at hlen
      have hbase : w.offset + (b :: data).length - (b :: data).length = w.offset := by omega
      refine ⟨(b :: data).length,
        { w with
          reader
          offset := w.offset + (b :: data).length
          buffer := overwrite w.buffer (b :: data)
          position := 0
          filled := (b :: data).length
          size := max w.size (w.offset + (b :: data).length) },
        by simp only [Window.fill, hread], ⟨h.replays, ?_, h.capacity_pos, ?_, ?_, ?_, ?_⟩,
        rfl, fun hn => absurd hn (Nat.succ_ne_zero _), fun _ => ⟨rfl, rfl⟩⟩
      · have hdrop : bytes.drop (w.offset + (b :: data).length) = rest := by
          rw [← List.drop_drop, heq, List.drop_left]
        rw [hdrop]
        exact hyields
      · exact Nat.zero_le _
      · exact Nat.le_add_left _ _
      · rw [List.length_cons]
        have := h.offset_le
        change w.offset + (data.length + 1) ≤ bytes.length
        omega
      · intro i hi
        have hi : i < (b :: data).length := hi
        change (overwrite w.buffer (b :: data))[i]? = bytes[w.offset + _ - _ + i]?
        rw [getElem?_overwrite _ _ hi, hbase, ← List.getElem?_drop, heq,
          List.getElem?_append_left hi]

theorem Shows.of_holds {t : Tape} {w : Window} (h : w.Holds t.bytes) (hc : w.tell = t.cursor) :
    w.Shows t := { h with tell_eq := hc }

section

variable {t : Tape} {w : Window}

theorem Shows.available_le (h : w.Shows t) : w.available ≤ t.rest.length := by
  have hposition := h.position_le
  have hfilled := h.filled_le
  have hoffset := h.offset_le
  have htell := h.tell_eq
  rw [t.length_rest]
  simp only [tell, available] at htell ⊢
  omega

theorem Shows.getElem? (h : w.Shows t) {i : Nat} (hi : i < w.available) :
    w.buffer[w.position + i]? = t.rest[i]? := by
  have htell := h.tell_eq
  rw [available] at hi
  rw [h.buffer _ (by omega), Tape.rest, List.getElem?_drop, ← htell, tell, base, Nat.add_assoc]

theorem Shows.span (h : w.Shows t) {n : Nat} (hn : n ≤ w.available) :
    (w.buffer.extract w.position (w.position + n)).toList = t.rest.take n := by
  apply List.ext_getElem?
  intro i
  rw [Array.getElem?_toList, List.getElem?_take]
  by_cases hi : i < n
  · have hin : i < w.available := Nat.lt_of_lt_of_le hi hn
    have hnext := h.getElem? hin
    rw [List.getElem?_eq_getElem (Nat.lt_of_lt_of_le hin h.available_le)] at hnext
    obtain ⟨hsize, -⟩ := Array.getElem?_eq_some_iff.1 hnext
    rw [if_pos hi, ← h.getElem? hin, Array.getElem?_extract, if_pos (by omega)]
  · rw [if_neg hi]
    apply Array.getElem?_eq_none
    rw [Array.size_extract]
    omega

theorem Shows.skip (h : w.Shows t) {n : Nat} (hn : n ≤ w.available) :
    Shows (t.forward n) { w with position := w.position + n } := by
  have havail := h.available_le
  have htell := h.tell_eq
  have hposition := h.position_le
  rw [t.length_rest] at havail
  refine { h with position_le := ?_, tell_eq := ?_ }
  · rw [available] at hn
    change w.position + n ≤ w.filled
    omega
  · rw [t.forward_cursor, ← htell]
    simp only [tell] at htell ⊢
    have := t.cursor_le
    omega

/-- The number of bytes that can be taken depends on the buffer, but is zero at the end only. -/
theorem Shows.ready (h : w.Shows t) :
    ∃ next, Window.ready w = .ok next.available next ∧ next.Loaded t := by
  have hready : Window.ready w = if w.available = 0 then Window.fill w else .ok w.available w := by
    unfold Window.ready
    change (if w.available = 0 then Window.fill else pure w.available) w = _
    split <;> rfl
  by_cases hzero : w.available = 0
  · rw [hready, if_pos hzero]
    have hposition := h.position_le
    have hfilled := h.filled_le
    have htell := h.tell_eq
    obtain ⟨n, next, hfill, hnext, hoffset, hnone, hsome⟩ := h.toHolds.fill
    rw [available] at hzero
    rw [tell] at htell
    rcases Nat.eq_zero_or_pos n with rfl | hn
    · obtain ⟨hend, hf, hp⟩ := hnone rfl
      have hout : next.available = 0 := by rw [available, hf, hp, hzero]
      have hat : next.tell = t.cursor := by rw [tell, hoffset, hf, hp, ← htell]; rfl
      refine ⟨next, by rw [hfill, hout], { hnext with tell_eq := hat, rest_nil := fun _ => ?_ }⟩
      rw [Tape.rest, List.drop_eq_nil_iff]
      omega
    · obtain ⟨hf, hp⟩ := hsome hn
      have hout : next.available = n := by rw [available, hf, hp, Nat.sub_zero]
      have hat : next.tell = t.cursor := by rw [tell, hoffset, hf, hp]; omega
      refine ⟨next, by rw [hfill, hout], { hnext with tell_eq := hat, rest_nil := fun hnil => ?_ }⟩
      omega
  · rw [hready, if_neg hzero]
    exact ⟨w, rfl, { h with rest_nil := fun hnil => absurd hnil hzero }⟩

theorem Loaded.available_pos (h : w.Loaded t) (hrest : t.rest ≠ []) : 0 < w.available :=
  Nat.pos_of_ne_zero fun hzero => hrest (h.rest_nil hzero)

theorem Loaded.available_eq_zero (h : w.Loaded t) : w.available = 0 ↔ t.rest = [] := by
  refine ⟨h.rest_nil, fun hrest => ?_⟩
  have := h.available_le
  rw [hrest, List.length_nil] at this
  omega

theorem Shows.length_rest_lt_bound (h : w.Shows t) : t.rest.length < w.bound := by
  have hreader := h.yields.length_le_bound
  have hposition := h.position_le
  have hfilled := h.filled_le
  have hoffset := h.offset_le
  have htell := h.tell_eq
  rw [List.length_drop] at hreader
  rw [t.length_rest, bound]
  simp only [tell, available] at htell ⊢
  omega

end

/-! ## Opening and moving about -/

/-- A window over a source that replays the bytes opens at their start. -/
theorem exists_ofSource {s : Source} {bytes : List UInt8} (h : s.Replays bytes) (size : Nat) :
    ∃ w, ofSource s size = .ok w ∧ w.Shows (.start bytes) ∧ w.capacity = max size 1 := by
  obtain ⟨reader, hreader, hyields⟩ := h 0
  refine ⟨_, by rw [ofSource, hreader], ⟨⟨h, hyields, ?_, Nat.le_refl 0, Nat.le_refl 0, Nat.zero_le _,
    fun i hi => absurd hi (Nat.not_lt_zero i)⟩, rfl⟩, rfl⟩
  exact Nat.lt_of_lt_of_le Nat.one_pos (Nat.le_max_right size 1)

variable (t : Tape)

theorem Holds.rewind {bytes : List UInt8} {w : Window} (h : w.Holds bytes) :
    ∃ next, Window.rewind w = .ok () next ∧ next.Shows (.start bytes) ∧ next.offset = 0 := by
  obtain ⟨reader, hreader, hyields⟩ := h.replays w.openings
  refine ⟨{ w with reader, openings := w.openings + 1, position := 0, filled := 0, offset := 0 }, ?_,
    ⟨⟨h.replays, hyields, h.capacity_pos, Nat.le_refl 0, Nat.le_refl 0, Nat.zero_le _,
      fun i hi => absurd hi (Nat.not_lt_zero i)⟩, rfl⟩, rfl⟩
  have hget : (get : WindowM Window) w = .ok w w := rfl
  simp only [Window.rewind, bind, EStateM.bind, hget, hreader]
  rfl

theorem answers_rewind : Answers (Shows t) rewind () (Shows (t.seek 0)) := by
  intro w h
  obtain ⟨next, hrewind, hnext, -⟩ := h.toHolds.rewind
  have hstart : t.seek 0 = .start t.bytes := by
    ext1
    · rfl
    · exact Nat.zero_min _
  exact ⟨next, hrewind, hstart ▸ hnext⟩

theorem Holds.seekForward {bytes : List UInt8} {w : Window} {target : Nat} (h : w.Holds bytes)
    (hbase : w.base ≤ target) :
    ∃ next, seekForward target w = .ok () next ∧ next.Holds bytes ∧
      next.tell = min target bytes.length := by
  fun_induction Window.seekForward target w with
  | case1 w hlt next hfill =>
      obtain ⟨n, next', hfill', hnext, hoffset, hnone, -⟩ := h.fill
      obtain ⟨rfl, rfl⟩ : 0 = n ∧ next = next' := by simpa [hfill] using hfill'
      obtain ⟨hend, -⟩ := hnone rfl
      have hle := hnext.offset_le
      have hfilled := hnext.filled_le
      refine ⟨_, rfl, { hnext with position_le := Nat.le_refl _ }, ?_⟩
      change next.offset - next.filled + next.filled = _
      omega
  | case2 w hlt n next hfill hmoved ih =>
      obtain ⟨n', next', hfill', hnext, hoffset, -, hsome⟩ := h.fill
      obtain ⟨rfl, rfl⟩ : n + 1 = n' ∧ next = next' := by simpa [hfill] using hfill'
      apply ih hnext
      rw [Window.base, hoffset, (hsome (Nat.succ_pos n)).1]
      omega
  | case3 w hlt fault next hfill =>
      obtain ⟨n, next', hfill', -⟩ := h.fill
      rw [hfill] at hfill'
      cases hfill'
  | case4 w hle =>
      have hfilled := h.filled_le
      have hoffset := h.offset_le
      rw [Window.base] at hbase
      refine ⟨_, rfl, { h with position_le := ?_ }, ?_⟩
      · change target - (w.offset - w.filled) ≤ w.filled
        omega
      · change w.offset - w.filled + (target - (w.offset - w.filled)) = _
        omega

theorem answers_seek (target : Nat) :
    Answers (Shows t) (seek target) () (Shows (t.seek target)) := by
  refine Answers.bind_get fun w h => ?_
  by_cases hlt : target < w.base
  · rw [if_pos hlt]
    have hoffset := h.offset_le
    rw [base] at hlt
    obtain ⟨w₀, hrewind, h₀, hzero⟩ := h.toHolds.rewind
    obtain ⟨n, w₁, hfill, h₁, hmoved, hnone, hsome⟩ := h₀.toHolds.fill
    have hn : n ≠ 0 := by
      intro hn
      have := (hnone hn).1
      rw [Tape.start_bytes] at this
      omega
    have hbase : w₁.base ≤ target := by
      rw [base, hmoved, (hsome (Nat.pos_of_ne_zero hn)).1]
      omega
    obtain ⟨next, hseek, hnext, htell⟩ := h₁.seekForward hbase
    refine ⟨next, ?_, .of_holds hnext htell⟩
    change EStateM.bind rewind _ w = _
    rw [EStateM.bind, hrewind]
    change EStateM.bind fill _ w₀ = _
    rw [EStateM.bind, hfill]
    change (if n ≠ 0 then seekForward target else pure ()) w₁ = _
    rw [if_pos hn, hseek]
  · rw [if_neg hlt]
    obtain ⟨next, hseek, hnext, htell⟩ := h.toHolds.seekForward (Nat.not_lt.1 hlt)
    exact ⟨next, hseek, .of_holds hnext htell⟩

/-! ## Reading on -/

theorem answers_atEnd : Answers (Shows t) atEnd t.rest.isEmpty (Loaded t) := by
  intro w h
  obtain ⟨next, hready, hnext⟩ := h.ready
  refine ⟨next, ?_, hnext⟩
  change EStateM.bind ready _ w = _
  rw [EStateM.bind, hready]
  have hend : decide (next.available = 0) = t.rest.isEmpty := by
    rw [Bool.eq_iff_iff, decide_eq_true_iff, hnext.available_eq_zero, List.isEmpty_iff]
  rw [← hend]
  rfl

theorem answers_peek? : Answers (Shows t) peek? t.peek? (Loaded t) := by
  intro w h
  obtain ⟨next, hready, hnext⟩ := h.ready
  refine ⟨next, ?_, hnext⟩
  change EStateM.bind ready _ w = _
  rw [EStateM.bind, hready]
  change (if next.available = 0 then _ else _ : WindowM (Option UInt8)) next = _
  by_cases hzero : next.available = 0
  · rw [if_pos hzero, t.peek?_eq_none.2 (hnext.rest_nil hzero)]
    rfl
  · rw [if_neg hzero, Tape.peek?, List.head?_eq_getElem?,
      ← hnext.getElem? (Nat.pos_of_ne_zero hzero)]
    rfl

theorem answers_skip {b : UInt8} (h : t.peek? = some b) :
    Answers (Loaded t) (skip 1) () (Shows (t.forward 1)) := by
  intro w hw
  have hrest : t.rest ≠ [] := by
    rw [t.peek?_eq_some.1 h]
    exact List.cons_ne_nil _ _
  exact ⟨_, rfl, hw.toShows.skip (hw.available_pos hrest)⟩

theorem answers_next? : Answers (Shows t) next? t.peek? (Shows (t.forward 1)) := by
  refine (answers_peek? t).bind ?_
  cases h : t.peek? with
  | none =>
      have hrest := t.peek?_eq_none.1 h
      rw [t.forward_of_rest_nil hrest]
      exact (Answers.pure none).mono (fun w hw => hw.toShows) (fun w hw => hw)
  | some b => exact (answers_skip t h).bind (Answers.pure (some b))

theorem answers_next : Answers (Shows t) next (t.peek?.getD 0) (Shows (t.forward 1)) :=
  (answers_next? t).bind (Answers.pure _)

theorem answers_advance : Answers (Shows t) advance () (Shows (t.forward 1)) :=
  (answers_next? t).bind (Answers.pure ())

/-- Passing over the bytes that satisfy a predicate, where the fuel reaches to the end. -/
theorem answers_skipWhile (p : UInt8 → Bool) (fuel : Nat) (h : t.rest.length ≤ fuel) :
    Answers (Shows t) (skipWhile p fuel) () (Shows (t.forward (t.rest.takeWhile p).length)) := by
  induction fuel generalizing t with
  | zero =>
      have hrest := List.length_eq_zero_iff.1 (Nat.le_zero.1 h)
      rw [t.forward_of_rest_nil hrest]
      exact Answers.pure ()
  | succ fuel ih =>
      refine (answers_peek? t).bind ?_
      cases hpeek : t.peek? with
      | none =>
          rw [t.forward_of_rest_nil (t.peek?_eq_none.1 hpeek)]
          exact (Answers.pure ()).mono (fun w hw => hw.toShows) (fun w hw => hw)
      | some b =>
          have hrest := t.peek?_eq_some.1 hpeek
          have hlen := t.length_rest_of_peek? hpeek
          cases hp : p b with
          | true =>
              have hpast : t.forward (t.rest.takeWhile p).length =
                  (t.forward 1).forward ((t.forward 1).rest.takeWhile p).length := by
                rw [hrest, List.takeWhile_cons_of_pos hp, Tape.forward_forward, List.length_cons,
                  Nat.add_comm]
              rw [hpast]
              simp only [hp, if_true]
              exact (answers_skip t hpeek).bind (ih (t.forward 1) (by omega))
          | false =>
              rw [hrest, List.takeWhile_cons_of_neg (by simp [hp]), List.length_nil, Tape.forward_zero]
              simp only [hp, Bool.false_eq_true, if_false]
              exact (Answers.pure ()).mono (fun w hw => hw.toShows) (fun w hw => hw)

end Window

end TokenDiff
