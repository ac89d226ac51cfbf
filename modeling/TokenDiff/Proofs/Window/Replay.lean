import Mathlib.Data.Nat.Init
import TokenDiff.Source

/-!
# Readers that replay a list of bytes

A reader replays a list of bytes if it hands out these bytes in order and nothing else, however large the
buffers are that it is asked to fill: each read is interrupted, or hands out at least one byte and at most
as many as fit, and once all are used up no read hands out any. `Reader.Yields` says this of a reader in
whatever state it is, so it holds again after every read, with the bytes that are left. A source replays
a list of bytes if each of its openings succeeds with such a reader.

How the bytes come about is left open here: `Reader.Yields` is about the bytes behind the charset, and the
pieces they come in may differ from one opening to the next. `Yields.readSteady` is all that is used of it
by a window, and `Yields.length_le_bound` bounds what is left to read.
-/

namespace TokenDiff

/-- A set of readers, each with the bytes it has still to hand out, that no read leads out of. -/
def HandsOut (P : Reader → List UInt8 → Prop) : Prop :=
  ∀ r bytes n, P r bytes → 0 < n →
    (∃ r', r.read n = (.interrupted, r') ∧ P r' bytes) ∨
    ∃ data rest r', r.read n = (.bytes data, r') ∧ P r' rest ∧ bytes = data ++ rest ∧
      data.length ≤ n ∧ (bytes ≠ [] → data ≠ [])

/-- The reader replays the bytes: every read is interrupted or hands out some of them, until all are used
up. -/
def Reader.Yields (r : Reader) (bytes : List UInt8) : Prop := ∃ P, HandsOut P ∧ P r bytes

/-- Each opening of the source replays the bytes. -/
def Source.Replays (s : Source) (bytes : List UInt8) : Prop :=
  ∀ k, ∃ r, s.reader k = .ok r ∧ r.Yields bytes

namespace Feed

theorem settle_settle (feed : Feed) : feed.settle.settle = feed.settle := by
  fun_induction settle feed with
  | case1 rest ih => exact ih
  | case2 feed h => rw [settle.eq_2 feed h]

theorem read_settle_ne (feed rest : Feed) (n : Nat) :
    feed.settle.read n ≠ (.interrupted, rest) := by
  fun_induction settle feed with
  | case1 rest ih => exact ih
  | case2 feed h =>
      intro heq
      cases feed with
      | nil => simp [read] at heq
      | cons e feed =>
          cases e with
          | bytes data => simp [read] at heq
          | interrupted => exact h feed rfl
          | failed cause => simp [read] at heq

end Feed

namespace Utf16Store

/-- What a decoder does that has nothing left to hand out. -/
theorem refill_of_empty (s : Utf16Store) (feed : Feed)
    (h : (s.ready.isEmpty && !s.finished) = true) :
    s.refill feed =
      match feed.settle.read chunkSize with
      | (.bytes [], rest) =>
        (if s.decode.isPartial then some s.malformed else none, { s with finished := true }, rest)
      | (.bytes (b :: data), rest) =>
        let out := s.decode.feed s.order (b :: data)
        let s := { s with decode := out.2.1, ready := out.1 }
        if out.2.2 then (some s.malformed, s, rest) else s.refill rest
      | (.failed cause, rest) => (some (.failed cause), s, rest)
      | (.interrupted, rest) => (none, s, rest) := by
  rw [refill, if_pos h]
  split
  · next heq => simp only [heq]
  · next heq => simp only [heq]
  · next heq => simp only [heq]
  · next heq => simp only [heq]

theorem refill_of_ready (s : Utf16Store) (feed : Feed)
    (h : (s.ready.isEmpty && !s.finished) = false) : s.refill feed = (none, s, feed) := by
  rw [refill, if_neg (by simp [h])]

theorem refill_settle (s : Utf16Store) (feed : Feed)
    (h : (s.ready.isEmpty && !s.finished) = true) : s.refill feed.settle = s.refill feed := by
  rw [refill_of_empty s _ h, refill_of_empty s _ h, Feed.settle_settle]

end Utf16Store

/-! ## Reads that are tried again -/

namespace Reader

def settled (r : Reader) : Reader := { r with feed := r.feed.settle }

theorem readSteady_eq (r : Reader) (n : Nat) : r.readSteady n = r.settled.read n := rfl

theorem read_utf16 (store : Utf16Store) (feed : Feed) (n : Nat) :
    (⟨feed, .utf16 store⟩ : Reader).read n =
      ((store.read n feed).1, ⟨(store.read n feed).2.2, .utf16 (store.read n feed).2.1⟩) := rfl

/-- Without a decoder in between an interruption of the feed is one of the read. -/
theorem read_interrupted (feed : Feed) (decoder : Decoder) (n : Nat)
    (h : ∀ store, decoder ≠ .utf16 store) :
    (⟨.interrupted :: feed, decoder⟩ : Reader).read n = (.interrupted, ⟨feed, decoder⟩) := by
  cases decoder with
  | raw => rfl
  | utf8 check => rfl
  | utf16 store => exact absurd rfl (h store)

theorem read_settled_ne (r r' : Reader) (n : Nat) : r.settled.read n ≠ (.interrupted, r') := by
  obtain ⟨feed, decoder⟩ := r
  have hfeed := feed.read_settle_ne (n := n)
  intro heq
  cases decoder with
  | raw =>
      simp only [settled, read] at heq
      split at heq
      · simp at heq
      · next hread => exact hfeed _ hread
      · simp at heq
  | utf8 check =>
      simp only [settled, read, readChecked] at heq
      split at heq
      · split at heq <;> simp at heq
      · split at heq <;> simp at heq
      · next hread => exact hfeed _ hread
      · simp at heq
  | utf16 store =>
      rw [settled, read_utf16] at heq
      simp only [Utf16Store.read] at heq
      split at heq <;> simp at heq

namespace Yields

variable {r : Reader} {bytes : List UInt8} {n : Nat}

theorem read (h : r.Yields bytes) (hn : 0 < n) :
    (∃ r', r.read n = (.interrupted, r') ∧ r'.Yields bytes) ∨
    ∃ data rest r', r.read n = (.bytes data, r') ∧ r'.Yields rest ∧ bytes = data ++ rest ∧
      data.length ≤ n ∧ (bytes ≠ [] → data ≠ []) := by
  obtain ⟨P, hP, hr⟩ := h
  rcases hP r bytes n hr hn with ⟨r', hread, hr'⟩ | ⟨data, rest, r', hread, hr', hrest⟩
  · exact .inl ⟨r', hread, P, hP, hr'⟩
  · exact .inr ⟨data, rest, r', hread, ⟨P, hP, hr'⟩, hrest⟩

theorem settled_of_plain {feed : Feed} {decoder : Decoder} (hd : ∀ store, decoder ≠ .utf16 store)
    (h : Yields ⟨feed, decoder⟩ bytes) : Yields ⟨feed.settle, decoder⟩ bytes := by
  fun_induction Feed.settle feed with
  | case1 rest ih =>
      have hread := read_interrupted rest decoder 1 hd
      rcases h.read (n := 1) Nat.one_pos with ⟨r', hr, hr'⟩ | ⟨data, left, r', hr, -⟩
      · rw [hread] at hr
        obtain rfl := (Prod.mk.inj hr).2
        exact ih hr'
      · rw [hread] at hr
        cases (Prod.mk.inj hr).1
  | case2 feed _ => exact h

/-- A decoder with something to hand out does not look at its feed, and one without passes over
interruptions by itself. -/
theorem settled_of_utf16 {feed : Feed} {store : Utf16Store}
    (h : Yields ⟨feed, .utf16 store⟩ bytes) : Yields ⟨feed.settle, .utf16 store⟩ bytes := by
  obtain ⟨P, hP, hr⟩ := h
  refine ⟨fun r bytes => P r bytes ∨
    ∃ feed store, P ⟨feed, .utf16 store⟩ bytes ∧ r = ⟨feed.settle, .utf16 store⟩, ?_,
    .inr ⟨feed, store, hr, rfl⟩⟩
  rintro r bytes n (hr | ⟨feed, store, hr, rfl⟩) hn
  · rcases hP r bytes n hr hn with ⟨r', hread, hr'⟩ | ⟨data, rest, r', hread, hr', hrest⟩
    · exact .inl ⟨r', hread, .inl hr'⟩
    · exact .inr ⟨data, rest, r', hread, .inl hr', hrest⟩
  · have hout := hP _ bytes n hr hn
    cases hempty : (store.ready.isEmpty && !store.finished) with
    | true =>
        have hread : (⟨feed.settle, .utf16 store⟩ : Reader).read n =
            (⟨feed, .utf16 store⟩ : Reader).read n := by
          simp only [read_utf16, Utf16Store.read, store.refill_settle feed hempty]
        rw [hread]
        rcases hout with ⟨r', hread, hr'⟩ | ⟨data, rest, r', hread, hr', hrest⟩
        · exact .inl ⟨r', hread, .inl hr'⟩
        · exact .inr ⟨data, rest, r', hread, .inl hr', hrest⟩
    | false =>
        simp only [read_utf16, Utf16Store.read, store.refill_of_ready _ hempty] at hout ⊢
        rcases hout with ⟨r', hread, -⟩ | ⟨data, rest, r', hread, hr', hrest⟩
        · cases (Prod.mk.inj hread).1
        · obtain ⟨hdata, rfl⟩ := Prod.mk.inj hread
          exact .inr ⟨data, rest, _, by rw [hdata], .inr ⟨feed, _, hr', rfl⟩, hrest⟩

theorem settled (h : r.Yields bytes) : r.settled.Yields bytes := by
  obtain ⟨feed, decoder⟩ := r
  cases decoder with
  | raw => exact h.settled_of_plain (by simp)
  | utf8 check => exact h.settled_of_plain (by simp)
  | utf16 store => exact h.settled_of_utf16

/-- A read that is tried again after interruptions hands out some of the bytes, and none only if there are
none. -/
theorem readSteady (h : r.Yields bytes) (hn : 0 < n) :
    ∃ data rest r', r.readSteady n = (.bytes data, r') ∧ r'.Yields rest ∧ bytes = data ++ rest ∧
      data.length ≤ n ∧ (bytes ≠ [] → data ≠ []) := by
  rw [readSteady_eq]
  rcases h.settled.read hn with ⟨r', hread, -⟩ | hout
  · exact absurd hread (r.read_settled_ne r' n)
  · exact hout

end Yields

end Reader

/-! ## How much is left to read -/

theorem Feed.length_add_volume_read_le {n : Nat} {feed rest : Feed} {data : List UInt8}
    (h : feed.read n = (.bytes data, rest)) : data.length + rest.volume ≤ feed.volume := by
  cases feed with
  | nil =>
      obtain ⟨hdata, rfl⟩ := Prod.mk.inj h
      obtain rfl := Event.bytes.inj hdata
      simp
  | cons e feed =>
      cases e with
      | bytes all =>
          obtain ⟨hdata, rfl⟩ := Prod.mk.inj h
          obtain rfl := Event.bytes.inj hdata
          have := volume_putBack_le (all.drop n) feed
          simp only [volume, List.length_take, List.length_drop] at this ⊢
          omega
      | interrupted => cases (Prod.mk.inj h).1
      | failed cause => cases (Prod.mk.inj h).1

theorem ByteOrder.length_units (order : ByteOrder) (bytes : List UInt8) :
    2 * (order.units bytes).1.length + (order.units bytes).2.toList.length = bytes.length := by
  fun_induction units order bytes with
  | case1 => rfl
  | case2 b => rfl
  | case3 first second bytes us left hunits ih =>
      simp only [hunits, List.length_cons] at ih ⊢
      omega

namespace Utf16Decode

/-- A unit becomes at most four bytes. -/
theorem length_step_le {s s' : Utf16Decode} {u : UInt16} {out : List UInt8}
    (h : s.step u = some (out, s')) : out.length ≤ 4 ∧ s'.staged = s.staged := by
  have hemit : ∀ c, (s.emit c).1.length ≤ 4 ∧ (s.emit c).2.staged = s.staged := by
    intro c
    refine ⟨?_, rfl⟩
    simp only [emit]
    split
    · simp
    · rw [String.length_utf8EncodeChar]
      exact c.utf8Size_le_four
  unfold step at h
  split at h
  · split at h
    · obtain rfl := congrArg Prod.fst (Option.some.inj h)
      obtain rfl := congrArg Prod.snd (Option.some.inj h)
      exact hemit _
    · cases h
  · split at h
    · obtain ⟨rfl, rfl⟩ := Prod.mk.inj (Option.some.inj h)
      simp
    · split at h
      · cases h
      · obtain rfl := congrArg Prod.fst (Option.some.inj h)
        obtain rfl := congrArg Prod.snd (Option.some.inj h)
        exact hemit _

theorem length_run_le (s : Utf16Decode) (us : List UInt16) :
    (s.run us).1.length ≤ 4 * us.length ∧ (s.run us).2.1.staged = s.staged := by
  fun_induction run s us with
  | case1 s => simp
  | case2 s u us out s' hstep more s'' stopped hrun ih =>
      have := length_step_le hstep
      simp only [hrun] at ih
      simp only [List.length_append, List.length_cons]
      exact ⟨by omega, ih.2.trans this.2⟩
  | case3 s u us hstep => simp

theorem length_feed_le (s : Utf16Decode) (order : ByteOrder) (bytes : List UInt8) :
    (s.feed order bytes).1.length + 2 * (s.feed order bytes).2.1.staged.toList.length ≤
      2 * bytes.length + 2 * s.staged.toList.length := by
  have hunits := order.length_units (s.staged.toList ++ bytes)
  have hrun := length_run_le { s with staged := (order.units (s.staged.toList ++ bytes)).2 }
    (order.units (s.staged.toList ++ bytes)).1
  rw [List.length_append] at hunits
  simp only [feed]
  rw [hrun.2]
  simp only at hrun ⊢
  omega

end Utf16Decode

namespace Utf16Store

/-- A bound on the bytes that a decoder and its feed together can still hand out. -/
def supply (s : Utf16Store) (feed : Feed) : Nat :=
  s.ready.length + 2 * feed.volume + 2 * s.decode.staged.toList.length

theorem supply_refill_le (s s' : Utf16Store) (feed rest : Feed)
    (h : s.refill feed = (none, s', rest)) : s'.supply rest ≤ s.supply feed := by
  induction hvolume : feed.volume using Nat.strong_induction_on generalizing s feed with
  | _ n ih =>
      cases hempty : (s.ready.isEmpty && !s.finished) with
      | false =>
          rw [s.refill_of_ready feed hempty] at h
          simp only [Prod.mk.injEq] at h
          obtain ⟨-, rfl, rfl⟩ := h
          exact Nat.le_refl _
      | true =>
          rw [s.refill_of_empty feed hempty] at h
          have hsettle := feed.volume_settle_le
          split at h
          · next heq =>
              have := Feed.length_add_volume_read_le heq
              simp only [Prod.mk.injEq] at h
              obtain ⟨-, rfl, rfl⟩ := h
              simp only [supply, List.length_nil] at this ⊢
              omega
          · next b data rest' heq =>
              have := Feed.length_add_volume_read_le heq
              have hfeed := s.decode.length_feed_le s.order (b :: data)
              have hready : s.ready.length = 0 := by
                simp only [Bool.and_eq_true, List.isEmpty_iff] at hempty
                simp [hempty.1]
              simp only [List.length_cons] at this
              dsimp only at h
              split at h
              · cases (Prod.mk.inj h).1
              · have := ih _ (by omega) _ _ h rfl
                simp only [supply, List.length_cons] at this hfeed ⊢
                omega
          · cases (Prod.mk.inj h).1
          · next heq => exact absurd heq (feed.read_settle_ne _ _)

end Utf16Store

namespace Reader

/-- A bound on the bytes that a reader can still hand out, which no read makes larger. -/
def supply (r : Reader) : Nat :=
  match r.decoder with
  | .raw | .utf8 _ => r.feed.volume
  | .utf16 store => store.supply r.feed

theorem length_add_supply_read_le {r r' : Reader} {n : Nat} {data : List UInt8}
    (h : r.read n = (.bytes data, r')) : data.length + r'.supply ≤ r.supply := by
  obtain ⟨feed, decoder⟩ := r
  cases decoder with
  | raw =>
      simp only [read] at h
      split at h
      · next heq =>
          obtain ⟨hdata, rfl⟩ := Prod.mk.inj h
          obtain rfl := Reading.bytes.inj hdata
          exact Feed.length_add_volume_read_le heq
      · cases (Prod.mk.inj h).1
      · cases (Prod.mk.inj h).1
  | utf8 check =>
      simp only [read, readChecked] at h
      split at h
      · next heq =>
          have := Feed.length_add_volume_read_le heq
          split at h
          · cases (Prod.mk.inj h).1
          · obtain ⟨hdata, rfl⟩ := Prod.mk.inj h
            obtain rfl := Reading.bytes.inj hdata
            exact this
      · next heq =>
          have := Feed.length_add_volume_read_le heq
          split at h
          · obtain ⟨hdata, rfl⟩ := Prod.mk.inj h
            obtain rfl := Reading.bytes.inj hdata
            exact this
          · cases (Prod.mk.inj h).1
      · cases (Prod.mk.inj h).1
      · cases (Prod.mk.inj h).1
  | utf16 store =>
      rw [read_utf16] at h
      simp only [Utf16Store.read] at h
      split at h
      · cases (Prod.mk.inj h).1
      · next s' rest heq =>
          have := Utf16Store.supply_refill_le _ _ _ _ heq
          obtain ⟨hdata, rfl⟩ := Prod.mk.inj h
          obtain rfl := Reading.bytes.inj hdata
          simp only [supply, Utf16Store.supply, List.length_take, List.length_drop] at this ⊢
          omega

theorem supply_le_bound (r : Reader) : r.supply ≤ r.bound := by
  obtain ⟨feed, decoder⟩ := r
  cases decoder with
  | raw => exact Nat.le_refl _
  | utf8 check => exact Nat.le_refl _
  | utf16 store =>
      have hstaged : store.decode.staged.toList.length ≤ 1 := by
        cases store.decode.staged <;> simp
      simp only [supply, Utf16Store.supply, bound]
      omega

theorem supply_settled_le (r : Reader) : r.settled.supply ≤ r.supply := by
  obtain ⟨feed, decoder⟩ := r
  have := feed.volume_settle_le
  cases decoder with
  | raw => exact this
  | utf8 check => exact this
  | utf16 store =>
      simp only [settled, supply, Utf16Store.supply]
      omega

theorem Yields.length_le_supply {r : Reader} {bytes : List UInt8} (h : r.Yields bytes) :
    bytes.length ≤ r.supply := by
  induction hlen : bytes.length using Nat.strong_induction_on generalizing r bytes with
  | _ n ih =>
      cases bytes with
      | nil =>
          rw [← hlen]
          exact Nat.zero_le _
      | cons b bytes =>
          obtain ⟨data, rest, r', hread, hr', heq, -, hne⟩ := h.readSteady Nat.one_pos
          have hdata := List.length_pos_iff.2 (hne (List.cons_ne_nil b bytes))
          have hsum := congrArg List.length heq
          have hsupply := length_add_supply_read_le (r := r.settled) hread
          have hsettled := r.supply_settled_le
          rw [List.length_append] at hsum
          have := ih rest.length (by omega) hr' rfl
          omega

theorem Yields.length_le_bound {r : Reader} {bytes : List UInt8} (h : r.Yields bytes) :
    bytes.length ≤ r.bound :=
  Nat.le_trans h.length_le_supply r.supply_le_bound

end Reader

end TokenDiff
