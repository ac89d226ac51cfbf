import TokenDiff.Proofs.Window.Steps

/-!
# Failed reads

What a failed operation leaves behind is what the step that failed makes of the window it finds, for the steps
before it succeeded. A step that fails keeps the cursor and the range of the buffer. It keeps the bytes too, with
one exception: a read of checked UTF-8 has put its bytes into the buffer before it finds that they are not valid
(`Window.spilled`). The failure is harmless just if these are the bytes that were there already
(`failed_read_keeps_iff`).
-/

namespace TokenDiff

/-! ## Readers keep their charset -/

theorem Utf16Store.charset_refill (s : Utf16Store) (feed : Feed) :
    (s.refill feed).2.1.charset = s.charset := by
  induction hvolume : feed.volume using Nat.strong_induction_on generalizing s feed with
  | _ n ih =>
      cases hempty : (s.ready.isEmpty && !s.finished) with
      | false => rw [s.refill_of_ready feed hempty]
      | true =>
          rw [s.refill_of_empty feed hempty]
          have hsettle := feed.volume_settle_le
          split
          · rfl
          · next b data rest heq =>
              have hless := Feed.volume_read_lt heq
              dsimp only
              split
              · rfl
              · exact ih rest.volume (by omega) _ rest rfl
          · rfl
          · rfl

theorem Reader.charset_read (r : Reader) (n : Nat) : (r.read n).2.decoder.charset = r.decoder.charset := by
  obtain ⟨feed, decoder⟩ := r
  cases decoder with
  | raw =>
      simp only [read]
      split <;> rfl
  | utf8 check =>
      simp only [read, readChecked]
      split
      · rfl
      · split <;> rfl
      · rfl
      · rfl
  | utf16 store =>
      have hcharset := store.charset_refill feed
      rw [read_utf16, Utf16Store.read]
      split
      · next hrefill =>
          rw [hrefill] at hcharset
          exact hcharset
      · next hrefill =>
          rw [hrefill] at hcharset
          exact hcharset

/-! ## What a failed step leaves -/

namespace Window

/-- The cursor is within the buffered bytes, and these have come from the stream. -/
structure Sound (w : Window) : Prop where
  position_le : w.position ≤ w.filled
  filled_le_offset : w.filled ≤ w.offset
  filled_le_size : w.filled ≤ w.buffer.size
  charset_eq : w.reader.decoder.charset = w.source.charset

/-- The byte is read at this place of the stream. -/
def Reads (w : Window) (place : Nat) (b : UInt8) : Prop :=
  ∃ next, (do seek place; peek?) w = .ok (some b) next

/-- The bytes that a read of checked UTF-8 has put into the buffer before it finds that they are not valid. -/
def spilled (w : Window) : List UInt8 :=
  match w.reader.decoder, w.reader.feed.settle.read w.capacity with
  | .utf8 check, (.bytes data, _) =>
    match check.run data with
    | .ok _ => []
    | .error _ => data
  | _, _ => []

/-- Every byte that the first window has in its buffer can be read in both, and is the same. -/
def SameBytes (w v : Window) : Prop :=
  ∀ place, w.base ≤ place → place < w.offset → ∃ b, w.Reads place b ∧ v.Reads place b

variable {w next : Window} {n : Nat} {fault : Fault}

theorem length_le_size_overwrite (buffer : Array UInt8) (data : List UInt8) :
    data.length ≤ (overwrite buffer data).size ∧ buffer.size ≤ (overwrite buffer data).size := by
  rw [overwrite, Array.size_append, Array.size_extract, List.size_toArray]
  omega

theorem getElem?_overwrite_of_le (buffer : Array UInt8) {data : List UInt8} {i : Nat} (h : data.length ≤ i) :
    (overwrite buffer data)[i]? = buffer[i]? := by
  rw [overwrite, Array.getElem?_append_right (by simpa using h), Array.getElem?_extract, List.size_toArray,
    Nat.add_sub_cancel' h]
  split
  · rfl
  · exact (Array.getElem?_eq_none (by omega)).symm

theorem charset_readSteady (r : Reader) (n : Nat) : (r.readSteady n).2.decoder.charset = r.decoder.charset :=
  Reader.charset_read _ n

theorem Sound.fill (h : w.Sound) (hfill : Window.fill w = .ok n next) : next.Sound := by
  have hcharset := charset_readSteady w.reader w.capacity
  rw [h.charset_eq] at hcharset
  unfold Window.fill at hfill
  split at hfill
  · next hread =>
      cases hfill
      rw [hread] at hcharset
      exact { h with charset_eq := hcharset }
  · next data reader hdata hread =>
      cases hfill
      rw [hread] at hcharset
      exact ⟨Nat.zero_le _, Nat.le_add_left _ _, (length_le_size_overwrite _ _).1, hcharset⟩
  · cases hfill
  · next hread =>
      cases hfill
      rw [hread] at hcharset
      exact { h with charset_eq := hcharset }

theorem charset_ofFeed (charset : Charset) (feed : Feed) :
    (Reader.ofFeed charset feed).decoder.charset = charset := by
  cases charset <;> rfl

theorem charset_reader {s : Source} {k : Nat} {r : Reader} (h : s.reader k = .ok r) :
    r.decoder.charset = s.charset := by
  unfold Source.reader at h
  split at h
  · obtain rfl := Except.ok.inj h
    exact charset_ofFeed _ _
  · cases h

/-- Starting over either leaves nothing in the buffer, or the window as it was. -/
theorem rewind_eq (w : Window) :
    rewind w = match w.source.reader w.openings with
      | .ok reader =>
        .ok () { w with reader, openings := w.openings + 1, position := 0, filled := 0, offset := 0 }
      | .error fault => .error (.read fault) { w with openings := w.openings + 1 } := by
  change (match w.source.reader w.openings with
    | .ok reader => _
    | .error fault => _ : WindowM Unit) w = _
  cases w.source.reader w.openings <;> rfl

theorem sound_of_rewind (hrewind : rewind w = .ok () next) : next.Sound := by
  rw [rewind_eq] at hrewind
  cases hreader : w.source.reader w.openings with
  | error fault =>
      rw [hreader] at hrewind
      cases hrewind
  | ok reader =>
      rw [hreader] at hrewind
      cases hrewind
      exact ⟨Nat.le_refl _, Nat.le_refl _, Nat.zero_le _, charset_reader hreader⟩

theorem Sound.reaches (h : w.Sound) (hreaches : w.Reaches next) : next.Sound := by
  induction hreaches with
  | refl => exact h
  | move _ hp ih => exact { ih with position_le := hp }
  | fill _ hfill ih => exact ih.fill hfill
  | rewind _ hrewind _ => exact sound_of_rewind hrewind

/-- What a failed read has written is what the window spills. -/
theorem spilled_eq {cause : ReadFault} {data : List UInt8} {reader : Reader}
    (h : w.reader.readSteady w.capacity = (.failed cause data, reader)) : w.spilled = data := by
  obtain ⟨source, openings, ⟨feed, decoder⟩, capacity, buffer, position, filled, offset, size⟩ := w
  rw [Reader.readSteady] at h
  cases decoder with
  | raw =>
      simp only [Reader.read] at h
      split at h <;> cases h
      rfl
  | utf8 check =>
      simp only [Reader.read, Reader.readChecked] at h
      split at h
      · next hread =>
          have hdata : data = [] := by
            split at h
            · exact (Reading.failed.inj (Prod.mk.inj h).1).2.symm
            · cases (Prod.mk.inj h).1
          simp only [spilled, hread, hdata, Utf8Check.run]
      · next read rest _ hread =>
          cases hrun : check.run read with
          | ok _ =>
              rw [hrun] at h
              cases h
          | error _ =>
              rw [hrun] at h
              cases h
              simp only [spilled, hread, hrun]
      · cases h
      · next hread =>
          cases h
          simp only [spilled, hread]
  | utf16 store =>
      rw [Reader.read_utf16, Utf16Store.read] at h
      split at h <;> cases h
      rfl

/-- A failed fill writes what it spills, and nothing else about the window changes but its reader. -/
theorem eq_of_fill_error (h : Window.fill w = .error fault next) :
    ∃ reader : Reader, reader.decoder.charset = w.reader.decoder.charset ∧
      next = { w with reader, buffer := overwrite w.buffer w.spilled } := by
  have hcharset := charset_readSteady w.reader w.capacity
  unfold Window.fill at h
  split at h
  · cases h
  · cases h
  · next cause data reader hread =>
      cases h
      rw [hread] at hcharset
      rw [spilled_eq hread]
      exact ⟨reader, hcharset, rfl⟩
  · cases h

theorem eq_of_rewind_error (h : Window.rewind w = .error fault next) :
    next = { w with openings := w.openings + 1 } := by
  rw [rewind_eq] at h
  split at h
  · cases h
  · cases h
    rfl

theorem Sound.refuses (h : w.Sound) (hrefuses : w.Refuses fault next) : next.Sound := by
  cases hrefuses with
  | fill hfill =>
      obtain ⟨reader, hcharset, rfl⟩ := eq_of_fill_error hfill
      exact { h with
        filled_le_size := Nat.le_trans h.filled_le_size (length_le_size_overwrite _ _).2
        charset_eq := hcharset.trans h.charset_eq }
  | rewind hrewind =>
      obtain rfl := eq_of_rewind_error hrewind
      exact { h with }

theorem sound_ofSource {s : Source} (h : ofSource s n = .ok w) : w.Sound := by
  unfold ofSource at h
  split at h
  · next hreader =>
      cases h
      exact ⟨Nat.le_refl _, Nat.le_refl _, Nat.zero_le _, charset_reader hreader⟩
  · cases h

/-- The bytes of the buffer can be read without the source. -/
theorem reads_iff {place : Nat} {b : UInt8} (hfilled : w.filled ≤ w.offset) (hbase : w.base ≤ place)
    (hplace : place < w.offset) : w.Reads place b ↔ w.buffer[place - w.base]? = some b := by
  have hseek : seek place w = .ok () { w with position := place - w.base } := by
    change (if place < w.base then _ else seekForward place : WindowM Unit) w = _
    rw [if_neg (by omega), seekForward, if_neg (by omega)]
  have hready : ready { w with position := place - w.base } =
      .ok (w.filled - (place - w.base)) { w with position := place - w.base } := by
    change (if w.filled - (place - w.base) = 0 then fill else pure _ : WindowM Nat) _ = _
    rw [if_neg (by rw [base] at hbase ⊢; omega)]
    rfl
  have hpeek : peek? { w with position := place - w.base } =
      .ok w.buffer[place - w.base]? { w with position := place - w.base } := by
    change EStateM.bind ready _ _ = _
    rw [EStateM.bind, hready]
    dsimp only
    rw [if_neg (by rw [base] at hbase ⊢; omega)]
    rfl
  have hreads : (do seek place; peek?) w =
      .ok w.buffer[place - w.base]? { w with position := place - w.base } := by
    change EStateM.bind (seek place) _ w = _
    rw [EStateM.bind, hseek]
    exact hpeek
  rw [Reads, hreads]
  simp

theorem Sound.exists_reads (h : w.Sound) {place : Nat} (hbase : w.base ≤ place) (hplace : place < w.offset) :
    ∃ b, w.Reads place b := by
  have hfilled := h.filled_le_offset
  have hsize := h.filled_le_size
  have hlt : place - w.base < w.buffer.size := by
    rw [base] at hbase ⊢
    omega
  exact ⟨w.buffer[place - w.base], (reads_iff hfilled hbase hplace).2 (Array.getElem?_eq_getElem hlt)⟩

theorem Reads.unique {place : Nat} {b c : UInt8} (hb : w.Reads place b) (hc : w.Reads place c) : b = c := by
  obtain ⟨_, hb⟩ := hb
  obtain ⟨_, hc⟩ := hc
  rw [hb] at hc
  cases hc
  rfl

/-- After a failed fill the spilled bytes are read in place of those that were there. -/
theorem reads_of_fill_error (h : w.Sound) (hfill : Window.fill w = .error fault next) {place : Nat} {b : UInt8}
    (hbase : w.base ≤ place) (hplace : place < w.offset) (hb : w.Reads place b) :
    next.Reads place (w.spilled[place - w.base]?.getD b) := by
  have hfilled := h.filled_le_offset
  obtain ⟨reader, -, rfl⟩ := eq_of_fill_error hfill
  rw [reads_iff hfilled hbase hplace] at hb
  refine (reads_iff (w := { w with reader, buffer := overwrite w.buffer w.spilled }) hfilled hbase hplace).2 ?_
  change (overwrite w.buffer w.spilled)[place - w.base]? = _
  rcases Nat.lt_or_ge (place - w.base) w.spilled.length with hlt | hge
  · rw [getElem?_overwrite _ _ hlt, List.getElem?_eq_getElem hlt]
    rfl
  · rw [getElem?_overwrite_of_le _ hge, List.getElem?_eq_none hge, hb]
    rfl

/-- A failed fill keeps the bytes just if those it spills are the ones that were there. -/
theorem sameBytes_iff (h : w.Sound) (hfill : Window.fill w = .error fault next) :
    w.SameBytes next ↔ ∀ place b, w.base ≤ place → place < w.offset →
      w.spilled[place - w.base]? = some b → w.Reads place b := by
  constructor
  · intro hsame place b hbase hplace hb
    obtain ⟨c, hc, hnext⟩ := hsame place hbase hplace
    have hread := reads_of_fill_error h hfill hbase hplace hc
    rw [hb, Option.getD_some] at hread
    rwa [hread.unique hnext]
  · intro hagree place hbase hplace
    obtain ⟨c, hc⟩ := h.exists_reads hbase hplace
    refine ⟨c, hc, ?_⟩
    have hread := reads_of_fill_error h hfill hbase hplace hc
    cases hb : w.spilled[place - w.base]? with
    | none => rwa [hb, Option.getD_none] at hread
    | some b =>
        rw [hb, Option.getD_some] at hread
        rwa [← (hagree place b hbase hplace hb).unique hc]

theorem sameBytes_of_rewind_error (h : w.Sound) (hrewind : Window.rewind w = .error fault next) :
    w.SameBytes next := by
  intro place hbase hplace
  obtain rfl := eq_of_rewind_error hrewind
  obtain ⟨b, hb⟩ := h.exists_reads hbase hplace
  have hfilled := h.filled_le_offset
  refine ⟨b, hb, (reads_iff (w := { w with openings := w.openings + 1 }) hfilled hbase hplace).2 ?_⟩
  exact (reads_iff hfilled hbase hplace).1 hb

theorem Sound.spilled_eq_nil (h : w.Sound) (hcharset : w.source.charset ≠ .utf8) : w.spilled = [] := by
  have hdecoder := h.charset_eq
  unfold spilled
  split
  · next hcheck hread =>
      rw [hcheck] at hdecoder
      exact absurd hdecoder.symm hcharset
  · rfl

end Window

/-! ## Programs that go on after faults -/

namespace PairOp

/-- A program, in which the operations after one that fails are carried out all the same. -/
def runOn : List PairOp → Window × Window → Window × Window
  | [], s => s
  | op :: ops, s =>
    match op.run s with
    | .ok _ s => runOn ops s
    | .error _ s => runOn ops s

theorem sound_run {s : Window × Window} (hl : s.1.Sound) (hr : s.2.Sound) (op : PairOp) :
    match op.run s with
    | .ok _ next => next.1.Sound ∧ next.2.Sound
    | .error _ next => next.1.Sound ∧ next.2.Sound := by
  have hsteps := op.steps s
  unfold PairSteps at hsteps
  cases hres : op.run s with
  | ok reply next =>
      rw [hres] at hsteps
      exact ⟨hl.reaches hsteps.1, hr.reaches hsteps.2⟩
  | error fault next =>
      rw [hres] at hsteps
      obtain ⟨v, u, hfails⟩ := hsteps
      cases hfails with
      | left h hrefuses hother => exact ⟨(hl.reaches h).refuses hrefuses, hr.reaches hother⟩
      | right h hrefuses hother => exact ⟨hl.reaches hother, (hr.reaches h).refuses hrefuses⟩

theorem sound_runOn (ops : List PairOp) {s : Window × Window} (hl : s.1.Sound) (hr : s.2.Sound) :
    (runOn ops s).1.Sound ∧ (runOn ops s).2.Sound := by
  induction ops generalizing s with
  | nil => exact ⟨hl, hr⟩
  | cons op ops ih =>
      have hrun := sound_run hl hr op
      rw [runOn]
      cases hres : op.run s with
      | ok reply next =>
          rw [hres] at hrun
          exact ih hrun.1 hrun.2
      | error fault next =>
          rw [hres] at hrun
          exact ih hrun.1 hrun.2

/-- A short operation on one of the windows fails in the window it finds. -/
theorem exists_fails {s next : Window × Window} {op : PairOp} {fault : Fault}
    (h : op.run s = .error fault next) :
    ∃ v u, Fails s fault next v u ∧ ∀ o : WindowOp, o.isShort = true →
      (op = .left o → v = s.1 ∧ u = next.1) ∧ (op = .right o → v = s.2 ∧ u = next.2) := by
  by_cases hshort : ∃ o : WindowOp, o.isShort = true ∧ (op = .left o ∨ op = .right o)
  · obtain ⟨l, r⟩ := s
    obtain ⟨o, ho, rfl | rfl⟩ := hshort
    · change PairM.onLeft o.run (l, r) = _ at h
      unfold PairM.onLeft at h
      dsimp only at h
      cases hres : o.run l with
      | ok reply l' =>
          rw [hres] at h
          cases h
      | error fault' l' =>
          rw [hres] at h
          cases h
          refine ⟨l, l', .left .refl (WindowOp.refuses_of_isShort ho hres) .refl, fun o' _ => ?_⟩
          exact ⟨fun _ => ⟨rfl, rfl⟩, nofun⟩
    · change PairM.onRight o.run (l, r) = _ at h
      unfold PairM.onRight at h
      dsimp only at h
      cases hres : o.run r with
      | ok reply r' =>
          rw [hres] at h
          cases h
      | error fault' r' =>
          rw [hres] at h
          cases h
          refine ⟨r, r', .right .refl (WindowOp.refuses_of_isShort ho hres) .refl, fun o' _ => ?_⟩
          exact ⟨nofun, fun _ => ⟨rfl, rfl⟩⟩
  · have hsteps := op.steps s
    unfold PairSteps at hsteps
    rw [h] at hsteps
    obtain ⟨v, u, hfails⟩ := hsteps
    exact ⟨v, u, hfails, fun o ho =>
      ⟨fun hop => absurd ⟨o, ho, .inl hop⟩ hshort, fun hop => absurd ⟨o, ho, .inr hop⟩ hshort⟩⟩

end PairOp

theorem Fails.sound {s next : Window × Window} {fault : Fault} {v u : Window} (h : Fails s fault next v u)
    (hl : s.1.Sound) (hr : s.2.Sound) : v.Sound ∧ v.Refuses fault u := by
  cases h with
  | left h hrefuses hother => exact ⟨hl.reaches h, hrefuses⟩
  | right h hrefuses hother => exact ⟨hr.reaches h, hrefuses⟩

theorem Window.Refuses.place_eq {v u : Window} {fault : Fault} (h : v.Refuses fault u) :
    u.tell = v.tell ∧ u.base = v.base ∧ u.offset = v.offset := by
  cases h with
  | fill h =>
      obtain ⟨reader, -, rfl⟩ := eq_of_fill_error h
      exact ⟨rfl, rfl, rfl⟩
  | rewind h =>
      obtain rfl := eq_of_rewind_error h
      exact ⟨rfl, rfl, rfl⟩

/-- Two windows are opened and a program is carried out, faults or not, and then an operation fails. One of the
two windows could not take a step, the first one of the operation if that is a short one. The window keeps its
cursor and the range of its buffer. It keeps the bytes in the buffer too, so that they are read as before, unless
it is over checked UTF-8 and the read that failed has put other bytes there. -/
theorem failed_read_keeps_iff {a b : Source} {m n : Nat} {v w : Window} (hv : Window.ofSource a m = .ok v)
    (hw : Window.ofSource b n = .ok w) (ops : List PairOp) (op : PairOp) {s next : Window × Window}
    {fault : Fault} (hs : PairOp.runOn ops (v, w) = s) (h : op.run s = .error fault next) :
    ∃ before after, Fails s fault next before after ∧
      (∀ o : WindowOp, o.isShort = true → (op = .left o → before = s.1 ∧ after = next.1) ∧
        (op = .right o → before = s.2 ∧ after = next.2)) ∧
      (after.tell = before.tell ∧ after.base = before.base ∧ after.offset = before.offset) ∧
      (before.source.charset ≠ .utf8 ∨ Window.rewind before = .error fault after →
        before.SameBytes after) ∧
      (Window.fill before = .error fault after →
        (before.SameBytes after ↔ ∀ place b, before.base ≤ place → place < before.offset →
          before.spilled[place - before.base]? = some b → before.Reads place b)) := by
  obtain ⟨hl, hr⟩ := PairOp.sound_runOn ops (s := (v, w)) (Window.sound_ofSource hv) (Window.sound_ofSource hw)
  rw [hs] at hl hr
  obtain ⟨before, after, hfails, hshort⟩ := PairOp.exists_fails h
  obtain ⟨hsound, hrefuses⟩ := hfails.sound hl hr
  refine ⟨before, after, hfails, hshort, hrefuses.place_eq, ?_, Window.sameBytes_iff hsound⟩
  rintro (hcharset | hrewind)
  · cases hrefuses with
    | fill hfill =>
        refine (Window.sameBytes_iff hsound hfill).2 fun place b _ _ hb => ?_
        rw [hsound.spilled_eq_nil hcharset] at hb
        cases hb
    | rewind hrewind => exact Window.sameBytes_of_rewind_error hsound hrewind
  · exact Window.sameBytes_of_rewind_error hsound hrewind

/-- A window of one byte, in which the next byte is not valid: after the failure it is read in place of the one
before it. -/
theorem failed_read_spoils_byte : ∃ v w,
    Window.ofSource (.ofFeed "torn" .utf8 [.bytes [0x61], .bytes [0xff]] none) 1 = .ok v ∧
    Window.ofSource (.ofBytes "none" .raw []) 1 = .ok w ∧
    ∃ s next, PairOp.runOn [.left .next?] (v, w) = s ∧
      PairOp.run (.left .peek?) s = .error (.read (.malformed .utf8 1)) next ∧
      next.1.tell = s.1.tell ∧ s.1.Reads 0 0x61 ∧ next.1.Reads 0 0xff ∧ ¬ s.1.SameBytes next.1 := by
  refine ⟨_, _, rfl, rfl, _, _, rfl, rfl, ?_⟩
  obtain ⟨before, after, -, hshort, ⟨htell, -, -⟩, -, hiff⟩ := failed_read_keeps_iff
    (a := .ofFeed "torn" .utf8 [.bytes [0x61], .bytes [0xff]] none) (b := .ofBytes "none" .raw []) (m := 1) (n := 1)
    rfl rfl [.left .next?] (.left .peek?) rfl rfl
  obtain ⟨rfl, rfl⟩ := (hshort .peek? rfl).1 rfl
  refine ⟨htell, (Window.reads_iff (Nat.le_refl 1) (Nat.le_refl 0) Nat.one_pos).2 rfl,
    (Window.reads_iff (Nat.le_refl 1) (Nat.le_refl 0) Nat.one_pos).2 rfl, fun hsame => ?_⟩
  have hbyte := (hiff rfl).1 hsame 0 0xff (Nat.le_refl 0) Nat.one_pos rfl
  exact absurd (hbyte.unique ((Window.reads_iff (Nat.le_refl 1) (Nat.le_refl 0) Nat.one_pos).2 rfl))
    (by decide : (0xff : UInt8) ≠ 0x61)

end TokenDiff
