import TokenDiff.Proofs.Window.Decoding

/-!
# Readers that do not come to an end

A reader breaks if it never seems to be at its end: each read that is tried again after interruptions hands
out bytes, at least one at a time, until one fails (`Reader.Breaks`). This is true of a reader of a content
that is not valid under its charset, and, whatever the charset is, of a reader whose feed ends in a failure
(`Feed.Breaks.breaks`): a decoder asks its feed for more before it hands out nothing.
-/

namespace TokenDiff

/-- A set of readers that no read leads out of, but for the faults that are allowed. -/
def BreaksOff (fails : ReadFault → Prop) (P : Reader → Prop) : Prop :=
  ∀ r n, P r → 0 < n →
    (∃ b data r', r.readSteady n = (.bytes (b :: data), r') ∧ P r') ∨
    ∃ fault spilled r', r.readSteady n = (.failed fault spilled, r') ∧ fails fault

/-- The reader hands out bytes until it stops with a fault that is allowed. -/
def Reader.Breaks (fails : ReadFault → Prop) (r : Reader) : Prop := ∃ P, BreaksOff fails P ∧ P r

theorem Reader.Breaks.readSteady {fails : ReadFault → Prop} {r : Reader} (h : r.Breaks fails) {n : Nat}
    (hn : 0 < n) :
    (∃ b data r', r.readSteady n = (.bytes (b :: data), r') ∧ r'.Breaks fails) ∨
    ∃ fault spilled r', r.readSteady n = (.failed fault spilled, r') ∧ fails fault := by
  obtain ⟨P, hP, hr⟩ := h
  rcases hP r n hr hn with ⟨b, data, r', hread, hr'⟩ | hfailed
  · exact .inl ⟨b, data, r', hread, P, hP, hr'⟩
  · exact .inr hfailed

theorem Reader.Expects.breaks {charset : Charset} {place : Nat} {r : Reader}
    (h : r.Expects charset (.error place)) : r.Breaks (· = .malformed charset place) := by
  refine ⟨fun r => r.Expects charset (.error place), fun r n h hn => ?_, h⟩
  rcases h.readSteady_error hn with ⟨b, data, r', hread, hr', -⟩ | ⟨spilled, r', hread⟩
  · exact .inl ⟨b, data, r', hread, hr'⟩
  · exact .inr ⟨_, spilled, r', hread, rfl⟩

/-! ## Feeds that end in a failure -/

/-- The feed hands out bytes, with interruptions between them, until it fails. -/
inductive Feed.Breaks (cause : Failure) : Feed → Prop
  | failed {feed : Feed} : Breaks cause (.failed cause :: feed)
  | interrupted {feed : Feed} (rest : Breaks cause feed) : Breaks cause (.interrupted :: feed)
  | bytes {feed : Feed} {data : List UInt8} (hdata : data ≠ []) (rest : Breaks cause feed) :
      Breaks cause (.bytes data :: feed)

namespace Feed.Breaks

variable {cause : Failure} {feed : Feed} {n : Nat}

theorem putBack {left : List UInt8} (h : feed.Breaks cause) : (Feed.putBack left feed).Breaks cause := by
  cases left with
  | nil => exact h
  | cons b left => exact .bytes (List.cons_ne_nil b left) h

theorem settle (h : feed.Breaks cause) : feed.settle.Breaks cause := by
  induction h with
  | failed => exact .failed
  | interrupted _ ih => exact ih
  | bytes hdata rest _ => exact .bytes hdata rest

/-- Past its interruptions the feed hands out some bytes, or it fails. -/
theorem read_settle (h : feed.Breaks cause) (hn : 0 < n) :
    (∃ b data rest, feed.settle.read n = (.bytes (b :: data), rest) ∧ rest.Breaks cause) ∨
    ∃ rest, feed.settle.read n = (.failed cause, rest) := by
  induction h with
  | @failed feed => exact .inr ⟨feed, rfl⟩
  | interrupted rest ih => exact ih
  | @bytes feed data hdata rest _ =>
      obtain ⟨b, data, rfl⟩ := List.exists_cons_of_ne_nil hdata
      obtain ⟨n, rfl⟩ := Nat.exists_eq_succ_of_ne_zero (Nat.ne_of_gt hn)
      exact .inl ⟨b, data.take n, _, rfl, rest.putBack⟩

end Feed.Breaks

/-- The faults a reader stops with whose feed fails: the failure, or a content before it that is not valid. -/
def FailsLike (cause : Failure) (fault : ReadFault) : Prop :=
  fault = .failed cause ∨ ∃ charset place, fault = .malformed charset place

/-- A decoder of UTF-16 whose feed fails finds something to hand out, or fails. -/
theorem Utf16Store.refill_breaks {cause : Failure} (s : Utf16Store) {feed : Feed} (h : feed.Breaks cause)
    (hfinished : s.finished = false) :
    (∃ s' rest, s.refill feed = (none, s', rest) ∧ s'.ready ≠ [] ∧ s'.finished = false ∧
      rest.Breaks cause) ∨
    ∃ fault s' rest, s.refill feed = (some fault, s', rest) ∧ FailsLike cause fault := by
  induction hvolume : feed.volume using Nat.strong_induction_on generalizing s feed with
  | _ n ih =>
      cases hempty : (s.ready.isEmpty && !s.finished) with
      | false =>
          rw [hfinished, Bool.not_false, Bool.and_true, List.isEmpty_eq_false_iff] at hempty
          refine .inl ⟨s, feed, s.refill_of_ready feed ?_, hempty, hfinished, h⟩
          rw [hfinished, Bool.not_false, Bool.and_true, List.isEmpty_eq_false_iff]
          exact hempty
      | true =>
          rw [s.refill_of_empty feed hempty]
          rcases h.read_settle (n := chunkSize) (by decide) with ⟨b, data, rest, hread, hrest⟩ | ⟨rest, hread⟩
          · rw [hread]
            dsimp only
            cases hstopped : (s.decode.feed s.order (b :: data)).2.2 with
            | true => exact .inr ⟨_, _, _, rfl, .inr ⟨_, _, rfl⟩⟩
            | false =>
                have hless := Feed.volume_read_lt hread
                have hsettle := feed.volume_settle_le
                exact ih rest.volume (by omega) _ hrest hfinished rfl
          · rw [hread]
            exact .inr ⟨_, _, _, rfl, .inl rfl⟩

/-- The feed of the reader fails, and the reader does not take it to have ended. -/
structure Reader.FeedBreaks (cause : Failure) (r : Reader) : Prop where
  feed : r.feed.Breaks cause
  unfinished : ∀ store, r.decoder = .utf16 store → store.finished = false

namespace Reader

variable {cause : Failure} {feed : Feed}

theorem FeedBreaks.raw (h : feed.Breaks cause) : FeedBreaks cause ⟨feed, .raw⟩ := ⟨h, fun _ h => by cases h⟩

theorem FeedBreaks.utf8 (check : Utf8Check) (h : feed.Breaks cause) : FeedBreaks cause ⟨feed, .utf8 check⟩ :=
  ⟨h, fun _ h => by cases h⟩

theorem FeedBreaks.utf16 {store : Utf16Store} (h : feed.Breaks cause) (hfinished : store.finished = false) :
    FeedBreaks cause ⟨feed, .utf16 store⟩ :=
  ⟨h, fun _ h => Decoder.utf16.inj h ▸ hfinished⟩

theorem breaksOff_feedBreaks (cause : Failure) : BreaksOff (FailsLike cause) (FeedBreaks cause) := by
  rintro ⟨feed, decoder⟩ n ⟨hfeed, hfinished⟩ hn
  have hread := hfeed.read_settle hn
  rw [readSteady_eq]
  cases decoder with
  | raw =>
      rcases hread with ⟨b, data, rest, hread, hrest⟩ | ⟨rest, hread⟩
      · exact .inl ⟨b, data, _, by rw [settled, read, hread], .raw hrest⟩
      · exact .inr ⟨_, [], _, by rw [settled, read, hread], .inl rfl⟩
  | utf8 check =>
      rcases hread with ⟨b, data, rest, hread, hrest⟩ | ⟨rest, hread⟩
      · cases hrun : check.run (b :: data) with
        | ok check' =>
            refine .inl ⟨b, data, ⟨rest, .utf8 check'⟩, ?_, .utf8 check' hrest⟩
            simp only [settled, read, readChecked, hread, hrun]
        | error check' =>
            refine .inr ⟨_, b :: data, ⟨rest, .utf8 check'⟩, ?_, .inr ⟨.utf8, check'.offset, rfl⟩⟩
            simp only [settled, read, readChecked, hread, hrun]
      · refine .inr ⟨_, [], ⟨rest, .utf8 check⟩, ?_, .inl rfl⟩
        simp only [settled, read, readChecked, hread]
  | utf16 store =>
      rcases store.refill_breaks hfeed.settle (hfinished store rfl) with
        ⟨s', rest, hrefill, hready, hfinished', hrest⟩ | ⟨fault, s', rest, hrefill, hfault⟩
      · obtain ⟨b, data, hdata⟩ := List.exists_cons_of_ne_nil hready
        obtain ⟨n, rfl⟩ := Nat.exists_eq_succ_of_ne_zero (Nat.ne_of_gt hn)
        have htake : b :: data.take n = s'.ready.take (n + 1) := by
          rw [hdata]
          rfl
        refine .inl ⟨b, data.take n, ⟨rest, .utf16 { s' with ready := s'.ready.drop (n + 1) }⟩, ?_,
          .utf16 hrest hfinished'⟩
        rw [settled, read_utf16, Utf16Store.read, hrefill, htake]
      · refine .inr ⟨fault, [], ⟨rest, .utf16 s'⟩, ?_, hfault⟩
        rw [settled, read_utf16, Utf16Store.read, hrefill]

end Reader

theorem Feed.Breaks.breaks {cause : Failure} {feed : Feed} (h : feed.Breaks cause) (charset : Charset) :
    (Reader.ofFeed charset feed).Breaks (FailsLike cause) := by
  refine ⟨_, Reader.breaksOff_feedBreaks cause, ?_⟩
  cases charset with
  | raw => exact .raw h
  | utf8 => exact .utf8 {} h
  | utf16le => exact .utf16 h rfl
  | utf16be => exact .utf16 h rfl

end TokenDiff
