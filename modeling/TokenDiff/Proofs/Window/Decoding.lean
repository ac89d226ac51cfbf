import TokenDiff.Proofs.Window.Replay

/-!
# Decoded contents

What a charset makes of a content as a whole: `Charset.decode` yields the decoded bytes, or the place from
which on the content is not valid. Feeds hand the content out in pieces of any size with interruptions
between them, and the decoders carry their state from one piece to the next. The outcome of a decoder in some
state on the bytes that are left is the same after each piece (`Utf8Check.outcome_append_ok`,
`Utf16Decode.outcome_append`), so it is an invariant of reading (`Reader.Expects.read`): a source of a valid
content replays the decoded bytes, and the readers of an invalid one stop with that one fault.
-/

namespace TokenDiff

/-! ## Feeds of a content -/

/-- The feed hands out this content, in pieces that are not empty and with interruptions between them. -/
inductive Feed.Carries : Feed → List UInt8 → Prop
  | nil : Carries [] []
  | interrupted {feed : Feed} {content : List UInt8} (rest : Carries feed content) :
      Carries (.interrupted :: feed) content
  | bytes {feed : Feed} {data content : List UInt8} (hdata : data ≠ []) (rest : Carries feed content) :
      Carries (.bytes data :: feed) (data ++ content)

/-- Each opening of the source hands out the content. -/
def Source.Carries (s : Source) (content : List UInt8) : Prop :=
  ∀ k, ∃ feed, s.feedAt k = .ok feed ∧ feed.Carries content

namespace Feed.Carries

variable {feed : Feed} {content : List UInt8}

theorem putBack {left : List UInt8} (h : feed.Carries content) :
    (Feed.putBack left feed).Carries (left ++ content) := by
  cases left with
  | nil => exact h
  | cons b left => exact bytes (List.cons_ne_nil b left) h

theorem settle (h : feed.Carries content) : feed.settle.Carries content := by
  induction h with
  | nil => exact nil
  | interrupted _ ih => exact ih
  | bytes hdata rest _ => exact bytes hdata rest

/-- A read is interrupted or takes some bytes of the content, as long as there are any. -/
theorem read (h : feed.Carries content) {n : Nat} (hn : 0 < n) :
    (∃ rest, feed.read n = (.interrupted, rest) ∧ rest.Carries content) ∨
    ∃ data left rest, feed.read n = (.bytes data, rest) ∧ rest.Carries left ∧ content = data ++ left ∧
      data.length ≤ n ∧ (data = [] → content = []) := by
  cases h with
  | nil => exact .inr ⟨[], [], [], rfl, nil, rfl, Nat.zero_le n, fun _ => rfl⟩
  | @interrupted feed content rest => exact .inl ⟨feed, rfl, rest⟩
  | @bytes feed data content hdata rest =>
      refine .inr ⟨data.take n, data.drop n ++ content, _, rfl, rest.putBack, ?_, ?_, fun hnil => ?_⟩
      · rw [← List.append_assoc, List.take_append_drop]
      · rw [List.length_take]
        exact Nat.min_le_left n _
      · rcases List.take_eq_nil_iff.1 hnil with hn' | hnil
        · omega
        · exact absurd hnil hdata

end Feed.Carries

/-! ## The outcome of a decoder -/

namespace Utf8Check

/-- What becomes of a content from a state on: nothing happens to it, or it is not valid from some place
on. -/
def outcome (s : Utf8Check) (content : List UInt8) : Except Nat (List UInt8) :=
  match s.run content with
  | .ok s => if 0 < s.pending then .error s.offset else .ok content
  | .error s => .error s.offset

theorem run_append (s : Utf8Check) (xs ys : List UInt8) :
    s.run (xs ++ ys) = s.run xs >>= fun s => s.run ys := by
  fun_induction run s xs with
  | case1 s => rfl
  | case2 s b bytes s' hstep ih => rw [List.cons_append, run, hstep]; exact ih
  | case3 s b bytes hstep => rw [List.cons_append, run, hstep]; rfl

theorem outcome_append_ok {s s' : Utf8Check} {xs : List UInt8} (h : s.run xs = .ok s')
    (ys : List UInt8) : s.outcome (xs ++ ys) = (s'.outcome ys).map (xs ++ ·) := by
  have hrun : s.run (xs ++ ys) = s'.run ys := by rw [run_append, h]; rfl
  simp only [outcome, hrun]
  cases s'.run ys with
  | error s => rfl
  | ok s => dsimp only; split <;> rfl

theorem outcome_append_error {s s' : Utf8Check} {xs : List UInt8} (h : s.run xs = .error s')
    (ys : List UInt8) : s.outcome (xs ++ ys) = .error s'.offset := by
  have hrun : s.run (xs ++ ys) = .error s' := by rw [run_append, h]; rfl
  rw [outcome, hrun]

end Utf8Check

theorem ByteOrder.units_append (order : ByteOrder) (xs ys : List UInt8) :
    order.units (xs ++ ys) =
      ((order.units xs).1 ++ (order.units ((order.units xs).2.toList ++ ys)).1,
        (order.units ((order.units xs).2.toList ++ ys)).2) := by
  fun_induction units order xs with
  | case1 => rfl
  | case2 b => rfl
  | case3 first second bytes us left hunits ih =>
      rw [hunits] at ih
      simp only [List.cons_append, units, ih]

namespace Utf16Decode

/-- The decoded bytes of a content from a state on, or the place from which on it is not valid. -/
def outcome (s : Utf16Decode) (order : ByteOrder) (content : List UInt8) : Except Nat (List UInt8) :=
  let (out, s, stopped) := s.feed order content
  if stopped || s.isPartial then .error s.offset else .ok out

theorem step_staged (s : Utf16Decode) (staged : Option UInt8) (u : UInt16) :
    step { s with staged } u = (s.step u).map fun (out, s') => (out, { s' with staged }) := by
  unfold step
  cases s.high with
  | some high => dsimp only; split <;> rfl
  | none => dsimp only; split; · rfl
            · split <;> rfl

theorem run_staged (s : Utf16Decode) (staged : Option UInt8) (us : List UInt16) :
    run { s with staged } us =
      ((s.run us).1, { (s.run us).2.1 with staged }, (s.run us).2.2) := by
  induction us generalizing s with
  | nil => rfl
  | cons u us ih =>
      rw [run, run, step_staged]
      cases s.step u with
      | none => rfl
      | some out => simp only [Option.map_some, ih]

theorem run_append (s : Utf16Decode) (us vs : List UInt16) :
    s.run (us ++ vs) =
      if (s.run us).2.2 then s.run us
      else ((s.run us).1 ++ ((s.run us).2.1.run vs).1, ((s.run us).2.1.run vs).2) := by
  induction us generalizing s with
  | nil => rfl
  | cons u us ih =>
      rw [List.cons_append, run, run]
      cases s.step u with
      | none => rfl
      | some out =>
          simp only [ih]
          split <;> simp_all

theorem feed_eq (s : Utf16Decode) (order : ByteOrder) (bytes : List UInt8) :
    s.feed order bytes = run { s with staged := (order.units (s.staged.toList ++ bytes)).2 }
      (order.units (s.staged.toList ++ bytes)).1 := rfl

/-- A piece of a content is decoded by itself, and the rest from the state after it on. -/
theorem outcome_append (s : Utf16Decode) (order : ByteOrder) (xs ys : List UInt8) :
    s.outcome order (xs ++ ys) =
      if (s.feed order xs).2.2 then .error (s.feed order xs).2.1.offset
      else ((s.feed order xs).2.1.outcome order ys).map ((s.feed order xs).1 ++ ·) := by
  have hstaged : (s.feed order xs).2.1.staged = (order.units (s.staged.toList ++ xs)).2 :=
    (length_run_le _ _).2
  have hunits := order.units_append (s.staged.toList ++ xs) ys
  rw [← hstaged, List.append_assoc] at hunits
  have hpiece (left : Option UInt8) :
      run { s with staged := left } (order.units (s.staged.toList ++ xs)).1 =
        ((s.feed order xs).1, { (s.feed order xs).2.1 with staged := left }, (s.feed order xs).2.2) := by
    rw [feed_eq, run_staged s left, run_staged s (order.units (s.staged.toList ++ xs)).2]
  rw [outcome, feed_eq s order (xs ++ ys), hunits]
  dsimp only
  rw [run_append, hpiece]
  dsimp only
  cases hstopped : (s.feed order xs).2.2 with
  | true => simp only [if_true, Bool.true_or]
  | false =>
      simp only [if_false, Bool.false_eq_true]
      rw [outcome, feed_eq (s.feed order xs).2.1]
      dsimp only
      split <;> rfl

theorem feed_nil (s : Utf16Decode) (order : ByteOrder) : s.feed order [] = ([], s, false) := by
  rw [feed_eq]
  cases s with
  | mk staged high offset atStart => cases staged <;> rfl

theorem outcome_nil (s : Utf16Decode) (order : ByteOrder) :
    s.outcome order [] = if s.isPartial then .error s.offset else .ok [] := by
  rw [outcome, feed_nil]
  rfl

end Utf16Decode

/-- The decoded bytes of a content, or the place from which on it is not valid under the charset. -/
def Charset.decode : Charset → List UInt8 → Except Nat (List UInt8)
  | .raw, content => .ok content
  | .utf8, content => ({} : Utf8Check).outcome content
  | .utf16le, content => ({} : Utf16Decode).outcome .little content
  | .utf16be, content => ({} : Utf16Decode).outcome .big content

/-! ## Readers of a content -/

namespace Utf16Store

/-- What the decoder hands out when the content is what is left to read. -/
def outcome (s : Utf16Store) (content : List UInt8) : Except Nat (List UInt8) :=
  (s.decode.outcome s.order content).map (s.ready ++ ·)

/-- Once the input has ended nothing is left, and nothing waits for more. -/
def Ends (s : Utf16Store) (content : List UInt8) : Prop :=
  s.finished = true → content = [] ∧ s.decode.isPartial = false

/-- A refill keeps the outcome and leaves something to hand out, if there is anything. -/
theorem refill_outcome (s : Utf16Store) {feed : Feed} {content : List UInt8}
    (hfeed : feed.Carries content) (hends : s.Ends content) :
    (∃ s' rest left, s.refill feed = (none, s', rest) ∧ rest.Carries left ∧ s'.Ends left ∧
      s'.charset = s.charset ∧ s.outcome content = s'.outcome left ∧
      (s'.ready = [] → s.outcome content = .ok [])) ∨
    ∃ place s' rest, s.refill feed = (some (.malformed s.charset place), s', rest) ∧
      s.outcome content = .error place := by
  induction hlen : content.length using Nat.strong_induction_on generalizing s feed content with
  | _ len ih =>
      cases hempty : (s.ready.isEmpty && !s.finished) with
      | false =>
          refine .inl ⟨s, feed, content, s.refill_of_ready feed hempty, hfeed, hends, rfl, rfl,
            fun hready => ?_⟩
          have hfinished : s.finished = true := by simpa [hready] using hempty
          obtain ⟨rfl, hpartial⟩ := hends hfinished
          rw [outcome, s.decode.outcome_nil, if_neg (by simp [hpartial]), hready]
          rfl
      | true =>
          have hready : s.ready = [] := by
            simp only [Bool.and_eq_true, List.isEmpty_iff] at hempty
            exact hempty.1
          have hplain : s.outcome content = s.decode.outcome s.order content := by
            rw [outcome, hready]
            cases s.decode.outcome s.order content <;> rfl
          rw [s.refill_of_empty feed hempty, hplain]
          rcases hfeed.settle.read (n := chunkSize) (by decide) with
            ⟨rest, hread, -⟩ | ⟨data, left, rest, hread, hrest, rfl, -, hnil⟩
          · exact absurd hread (feed.read_settle_ne rest chunkSize)
          · rw [hread]
            cases data with
            | nil =>
                obtain rfl : left = [] := hnil rfl
                rw [List.nil_append, s.decode.outcome_nil]
                dsimp only
                cases hpartial : s.decode.isPartial with
                | true => exact .inr ⟨s.decode.offset, _, _, rfl, rfl⟩
                | false =>
                    refine .inl ⟨_, _, _, rfl, hrest, fun _ => ⟨rfl, hpartial⟩, rfl, ?_, fun _ => rfl⟩
                    rw [outcome, s.decode.outcome_nil, hready, hpartial]
                    rfl
            | cons b data =>
                rw [s.decode.outcome_append]
                dsimp only
                cases hstopped : (s.decode.feed s.order (b :: data)).2.2 with
                | true => exact .inr ⟨_, _, _, rfl, rfl⟩
                | false =>
                    have hfinished : s.finished = false := by
                      rw [Bool.and_eq_true, Bool.not_eq_true'] at hempty
                      exact hempty.2
                    refine ih left.length ?_ _ hrest (fun h => ?_) rfl
                    · rw [← hlen, List.length_append, List.length_cons]
                      omega
                    · rw [hfinished] at h
                      cases h

end Utf16Store

/-- What the decoder hands out when the content is what is left to read. -/
def Decoder.outcome : Decoder → List UInt8 → Except Nat (List UInt8)
  | .raw, content => .ok content
  | .utf8 check, content => check.outcome content
  | .utf16 store, content => store.outcome content

def Decoder.charset : Decoder → Charset
  | .raw => .raw
  | .utf8 _ => .utf8
  | .utf16 store => store.charset

/-- The reader has this outcome ahead of it. -/
structure Reader.Expects (r : Reader) (charset : Charset) (outcome : Except Nat (List UInt8)) : Prop where
  charset_eq : r.decoder.charset = charset
  content : ∃ content, r.feed.Carries content ∧ r.decoder.outcome content = outcome ∧
    ∀ store, r.decoder = .utf16 store → store.Ends content

namespace Reader

variable {charset : Charset} {outcome : Except Nat (List UInt8)}

theorem Expects.of_raw {feed : Feed} {content : List UInt8} (h : feed.Carries content) :
    Expects ⟨feed, .raw⟩ .raw (.ok content) :=
  ⟨rfl, content, h, rfl, fun _ heq => by cases heq⟩

theorem Expects.of_utf8 {feed : Feed} {content : List UInt8} (check : Utf8Check)
    (h : feed.Carries content) : Expects ⟨feed, .utf8 check⟩ .utf8 (check.outcome content) :=
  ⟨rfl, content, h, rfl, fun _ heq => by cases heq⟩

theorem Expects.of_utf16 {feed : Feed} {content : List UInt8} (store : Utf16Store)
    (h : feed.Carries content) (hends : store.Ends content) :
    Expects ⟨feed, .utf16 store⟩ store.charset (store.outcome content) :=
  ⟨rfl, content, h, rfl, fun _ heq => Decoder.utf16.inj heq ▸ hends⟩

/-- What one read makes of an outcome ahead: it is interrupted, or hands out a first part of what is ahead, or
finds the content not valid. -/
inductive Advances (r : Reader) (charset : Charset) (outcome : Except Nat (List UInt8)) (n : Nat) : Prop
  | interrupted {r' : Reader} (hread : r.read n = (.interrupted, r')) (hr' : r'.Expects charset outcome)
  | bytes (data : List UInt8) (r' : Reader) {left : Except Nat (List UInt8)}
      (hread : r.read n = (.bytes data, r')) (hr' : r'.Expects charset left)
      (hout : outcome = left.map (data ++ ·)) (hlen : data.length ≤ n)
      (hnil : data = [] → outcome = .ok [])
  | failed {place : Nat} (spilled : List UInt8) (r' : Reader)
      (hread : r.read n = (.failed (.malformed charset place) spilled, r')) (hout : outcome = .error place)

section

variable {feed : Feed} {content : List UInt8} {n : Nat}

theorem Advances.of_raw (h : feed.Carries content) (hn : 0 < n) :
    Advances ⟨feed, .raw⟩ .raw (.ok content) n := by
  rcases h.read hn with ⟨rest, hread, hrest⟩ | ⟨data, left, rest, hread, hrest, rfl, hlen, hnil⟩
  · exact .interrupted (by rw [Reader.read, hread]) (.of_raw hrest)
  · refine .bytes data _ (by rw [Reader.read, hread]) (.of_raw hrest) rfl hlen ?_
    rintro rfl
    exact congrArg Except.ok (hnil rfl)

/-- Without bytes the content is at its end, which must not be within a character. -/
theorem Advances.of_utf8 (check : Utf8Check) (h : feed.Carries content) (hn : 0 < n) :
    Advances ⟨feed, .utf8 check⟩ .utf8 (check.outcome content) n := by
  rcases h.read hn with ⟨rest, hread, hrest⟩ | ⟨data, left, rest, hread, hrest, rfl, hlen, hnil⟩
  · exact .interrupted (by simp only [Reader.read, readChecked, hread]) (.of_utf8 check hrest)
  · cases data with
    | nil =>
        obtain rfl : left = [] := hnil rfl
        have hout : check.outcome [] = if 0 < check.pending then .error check.offset else .ok [] := rfl
        by_cases hpending : 0 < check.pending
        · refine .failed [] ⟨rest, .utf8 check⟩ ?_ (hout.trans (if_pos hpending))
          simp only [Reader.read, readChecked, hread, if_pos (And.intro hpending hn)]
        · refine .bytes [] ⟨rest, .utf8 check⟩ ?_ (.of_utf8 check hrest) ?_ hlen
            fun _ => hout.trans (if_neg hpending)
          · simp only [Reader.read, readChecked, hread, if_neg fun h => hpending (And.left h)]
          · change check.outcome [] = (check.outcome []).map ([] ++ ·)
            rw [hout, if_neg hpending]
            rfl
    | cons b data =>
        cases hrun : check.run (b :: data) with
        | ok check' =>
            refine .bytes (b :: data) ⟨rest, .utf8 check'⟩ ?_ (.of_utf8 check' hrest)
              (Utf8Check.outcome_append_ok hrun left) hlen fun h => absurd h (List.cons_ne_nil b data)
            simp only [Reader.read, readChecked, hread, hrun]
        | error check' =>
            refine .failed (b :: data) ⟨rest, .utf8 check'⟩ ?_
              (Utf8Check.outcome_append_error hrun left)
            simp only [Reader.read, readChecked, hread, hrun]

theorem Advances.of_utf16 (store : Utf16Store) (h : feed.Carries content) (hends : store.Ends content)
    (hn : 0 < n) : Advances ⟨feed, .utf16 store⟩ store.charset (store.outcome content) n := by
  rcases store.refill_outcome h hends with
    ⟨s', rest, left, hrefill, hrest, hends', hcharset, hout, hready⟩ | ⟨place, s', rest, hrefill, hout⟩
  · have hexpects := Expects.of_utf16 { s' with ready := s'.ready.drop n } hrest hends'
    have hsame : Utf16Store.charset { s' with ready := s'.ready.drop n } = store.charset := hcharset
    rw [hsame] at hexpects
    refine .bytes (s'.ready.take n) _ (by rw [read_utf16, Utf16Store.read, hrefill]) hexpects ?_ ?_
      fun h => ?_
    · rw [hout, Utf16Store.outcome, Utf16Store.outcome]
      cases s'.decode.outcome s'.order left with
      | error place => rfl
      | ok bytes =>
          simp only [Except.map]
          rw [← List.append_assoc, List.take_append_drop]
    · rw [List.length_take]
      exact Nat.min_le_left n _
    · rcases List.take_eq_nil_iff.1 h with hn' | hnil
      · omega
      · exact hready hnil
  · exact .failed _ _ (by rw [read_utf16, Utf16Store.read, hrefill]) hout

end

theorem Expects.read {r : Reader} (h : r.Expects charset outcome) {n : Nat} (hn : 0 < n) :
    r.Advances charset outcome n := by
  obtain ⟨feed, decoder⟩ := r
  obtain ⟨rfl, content, hfeed, rfl, hends⟩ := h
  cases decoder with
  | raw => exact .of_raw hfeed hn
  | utf8 check => exact .of_utf8 check hfeed hn
  | utf16 store => exact .of_utf16 store hfeed (hends store rfl) hn

theorem Expects.settled {r : Reader} (h : r.Expects charset outcome) :
    r.settled.Expects charset outcome := by
  obtain ⟨hcharset, content, hfeed, hout, hends⟩ := h
  exact ⟨hcharset, content, hfeed.settle, hout, hends⟩

/-- A reader that expects bytes yields them. -/
theorem Expects.yields {r : Reader} {bytes : List UInt8} (h : r.Expects charset (.ok bytes)) :
    r.Yields bytes := by
  refine ⟨fun r bytes => r.Expects charset (.ok bytes), fun r bytes n h hn => ?_, h⟩
  cases h.read hn with
  | interrupted hread hr' => exact .inl ⟨_, hread, hr'⟩
  | @bytes data r' left hread hr' hout hlen hnil =>
      cases left with
      | error place => cases hout
      | ok rest =>
          exact .inr ⟨data, rest, r', hread, hr', Except.ok.inj hout, hlen,
            fun hbytes hdata => hbytes (Except.ok.inj (hnil hdata))⟩
  | failed _ _ _ hout => cases hout

/-- A reader that expects a fault hands out bytes, at least one at a time, until it stops with the
fault. -/
theorem Expects.readSteady_error {r : Reader} {place : Nat} (h : r.Expects charset (.error place))
    {n : Nat} (hn : 0 < n) :
    (∃ b data r', r.readSteady n = (.bytes (b :: data), r') ∧ r'.Expects charset (.error place) ∧
      (b :: data).length ≤ n) ∨
    ∃ spilled r', r.readSteady n = (.failed (.malformed charset place) spilled, r') := by
  rw [readSteady_eq]
  cases h.settled.read hn with
  | interrupted hread _ => exact absurd hread (r.read_settled_ne _ n)
  | @bytes data r' left hread hr' hout hlen hnil =>
      cases data with
      | nil => cases hnil rfl
      | cons b data =>
          cases left with
          | ok rest => cases hout
          | error place' =>
              obtain rfl := Except.error.inj hout
              exact .inl ⟨b, data, r', hread, hr', hlen⟩
  | failed spilled r' hread hout =>
      obtain rfl := Except.error.inj hout
      exact .inr ⟨spilled, r', hread⟩

end Reader

/-- What a fresh reader of a content has ahead of it is what its charset makes of the content. -/
theorem Feed.Carries.expects {feed : Feed} {content : List UInt8} (h : feed.Carries content)
    (charset : Charset) : (Reader.ofFeed charset feed).Expects charset (charset.decode content) := by
  have hutf16 (order : ByteOrder) :
      (⟨feed, .utf16 ⟨order, {}, [], false⟩⟩ : Reader).Expects
        (Utf16Store.charset ⟨order, {}, [], false⟩) (({} : Utf16Decode).outcome order content) := by
    have hexpects := Reader.Expects.of_utf16 ⟨order, {}, [], false⟩ h fun hfinished => by
      cases hfinished
    rw [Utf16Store.outcome] at hexpects
    generalize ({} : Utf16Decode).outcome order content = out at hexpects ⊢
    cases out <;> exact hexpects
  cases charset with
  | raw => exact .of_raw h
  | utf8 => exact .of_utf8 {} h
  | utf16le => exact hutf16 .little
  | utf16be => exact hutf16 .big

namespace Source.Carries

variable {s : Source} {content : List UInt8}

theorem expects (h : s.Carries content) (k : Nat) :
    ∃ r, s.reader k = .ok r ∧ r.Expects s.charset (s.charset.decode content) := by
  obtain ⟨feed, hfeed, hcarries⟩ := h k
  exact ⟨Reader.ofFeed s.charset feed, by rw [Source.reader, hfeed], hcarries.expects s.charset⟩

theorem replays (h : s.Carries content) {bytes : List UInt8} (hd : s.charset.decode content = .ok bytes) :
    s.Replays bytes := by
  intro k
  obtain ⟨r, hr, hexpects⟩ := h.expects k
  rw [hd] at hexpects
  exact ⟨r, hr, hexpects.yields⟩

end Source.Carries

theorem Feed.carries_ofBytes (data : List UInt8) : (Feed.ofBytes data).Carries data := by
  rw [Feed.ofBytes]
  split
  · rename_i hempty
    rw [List.isEmpty_iff.1 hempty]
    exact .nil
  · rename_i hne
    have hbytes : Feed.Carries [.bytes data] (data ++ []) :=
      .bytes (fun h => hne (List.isEmpty_iff.2 h)) .nil
    rwa [List.append_nil] at hbytes

theorem Source.carries_ofBytes (label : String) (charset : Charset) (data : List UInt8) :
    (Source.ofBytes label charset data).Carries data :=
  fun _ => ⟨_, rfl, Feed.carries_ofBytes data⟩

theorem Source.replays_ofBytes (label : String) (data : List UInt8) :
    (Source.ofBytes label .raw data).Replays data :=
  (carries_ofBytes label .raw data).replays rfl

end TokenDiff
