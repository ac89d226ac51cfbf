import TokenDiff.Proofs.Charset.Utf8

/-!
# Text in UTF-16

Each character is one unit or two, and each unit is two bytes (`inUtf16`, `ByteOrder.bytes`). A list of units
is a text, or it leaves off within a surrogate pair, or it comes to a unit that no text goes on with: the second
half of a pair on its own, or what stands in its place (`Shape`). The decoder tells these apart unit by unit
(`Utf16Decode.run_text`), however the bytes of the units come in, and writes the characters in UTF-8 without
the mark in front (`utf16_reading_exact`).
-/

namespace TokenDiff

/-! ## Units of a character -/

def utf16EncodeChar (c : Char) : List UInt16 :=
  let v := c.val.toNat
  if v < 0x10000 then [UInt16.ofNat v]
  else [UInt16.ofNat (0xd800 + (v - 0x10000) / 0x400), UInt16.ofNat (0xdc00 + (v - 0x10000) % 0x400)]

def inUtf16 (cs : List Char) : List UInt16 := cs.flatMap utf16EncodeChar

def IsUtf16 (us : List UInt16) : Prop := ∃ cs, us = inUtf16 cs

theorem inUtf16_cons (c : Char) (cs : List Char) : inUtf16 (c :: cs) = utf16EncodeChar c ++ inUtf16 cs := rfl

def withoutMark : List Char → List Char
  | [] => []
  | c :: cs => if c.toNat = 0xfeff then cs else c :: cs

section

variable {u high low : UInt16}

theorem isHighSurrogate_iff : isHighSurrogate u = true ↔ 0xd800 ≤ u.toNat ∧ u.toNat ≤ 0xdbff := by
  simp only [isHighSurrogate, Bool.and_eq_true, decide_eq_true_eq, UInt16.le_iff_toNat_le, UInt16.reduceToNat]

theorem isLowSurrogate_iff : isLowSurrogate u = true ↔ 0xdc00 ≤ u.toNat ∧ u.toNat ≤ 0xdfff := by
  simp only [isLowSurrogate, Bool.and_eq_true, decide_eq_true_eq, UInt16.le_iff_toNat_le, UInt16.reduceToNat]

end

/-- The units of a character as the decoder puts them together. -/
inductive IsUnits : Char → List UInt16 → Prop
  | one {u : UInt16} (hhigh : isHighSurrogate u = false) (hlow : isLowSurrogate u = false) :
      IsUnits (Char.ofNat u.toNat) [u]
  | pair {high low : UInt16} (hhigh : isHighSurrogate high = true) (hlow : isLowSurrogate low = true) :
      IsUnits (surrogatePair high low) [high, low]

theorem isUnits_encode (c : Char) : IsUnits c (utf16EncodeChar c) := by
  have hvalid : c.toNat < 0xd800 ∨ 0xdfff < c.toNat ∧ c.toNat < 0x110000 := c.valid
  unfold utf16EncodeChar
  dsimp only
  rw [show c.val.toNat = c.toNat from rfl]
  generalize hu : UInt16.ofNat c.toNat = u
  generalize hhigh : UInt16.ofNat (0xd800 + (c.toNat - 0x10000) / 0x400) = high
  generalize hlow : UInt16.ofNat (0xdc00 + (c.toNat - 0x10000) % 0x400) = low
  simp only [← UInt16.toNat_inj, UInt16.toNat_ofNat'] at hu hhigh hlow
  split
  · have hone : IsUnits (Char.ofNat u.toNat) [u] := by
      refine .one ?_ ?_
      · rw [← Bool.not_eq_true, isHighSurrogate_iff]
        omega
      · rw [← Bool.not_eq_true, isLowSurrogate_iff]
        omega
    rwa [← hu, Nat.mod_eq_of_lt (by omega), Char.ofNat_toNat] at hone
  · have hpair : IsUnits (surrogatePair high low) [high, low] := by
      refine .pair ?_ ?_
      · rw [isHighSurrogate_iff]
        omega
      · rw [isLowSurrogate_iff]
        omega
    have hc : 0x10000 + (high.toNat - 0xd800) * 0x400 + (low.toNat - 0xdc00) = c.toNat := by omega
    rwa [surrogatePair, hc, Char.ofNat_toNat] at hpair

theorem IsUnits.encode_eq {c : Char} {us : List UInt16} (h : IsUnits c us) : utf16EncodeChar c = us := by
  have hvalid : c.val.toNat < 0xd800 ∨ 0xdfff < c.val.toNat ∧ c.val.toNat < 0x110000 := c.valid
  cases h with
  | @one u hhigh hlow =>
      have hu := u.toNat_lt
      rw [← Bool.not_eq_true, isHighSurrogate_iff] at hhigh
      rw [← Bool.not_eq_true, isLowSurrogate_iff] at hlow
      rw [utf16EncodeChar, toNat_ofNat (by unfold Nat.isValidChar; omega), if_pos hu, UInt16.ofNat_toNat]
  | @pair high low hhigh hlow =>
      rw [isHighSurrogate_iff] at hhigh
      rw [isLowSurrogate_iff] at hlow
      rw [utf16EncodeChar, surrogatePair, toNat_ofNat (by unfold Nat.isValidChar; omega), if_neg (by omega)]
      simp only [List.cons.injEq, ← UInt16.toNat_inj, UInt16.toNat_ofNat', and_true]
      omega

/-! ## How a list of units goes on -/

/-- No text goes on with the unit: it is the second half of a pair without a first, or stands in the place of
one. -/
inductive IsStray : List UInt16 → UInt16 → Prop
  | low (cs : List Char) {u : UInt16} (hu : isLowSurrogate u = true) : IsStray (inUtf16 cs) u
  | unpaired (cs : List Char) {high u : UInt16} (hhigh : isHighSurrogate high = true)
      (hu : isLowSurrogate u = false) : IsStray (inUtf16 cs ++ [high]) u

/-- What a list of units is: a text, or the beginning of one that leaves off within a pair, or a beginning and a
stray unit. -/
inductive Shape : List UInt16 → Prop
  | text (cs : List Char) : Shape (inUtf16 cs)
  | cut (cs : List Char) {high : UInt16} (hhigh : isHighSurrogate high = true) : Shape (inUtf16 cs ++ [high])
  | stray {front : List UInt16} {u : UInt16} (h : IsStray front u) (us : List UInt16) : Shape (front ++ u :: us)

theorem IsStray.char_append {front : List UInt16} {u : UInt16} (h : IsStray front u) (c : Char) :
    IsStray (utf16EncodeChar c ++ front) u := by
  cases h with
  | low cs hu => exact .low (c :: cs) hu
  | unpaired cs hhigh hu =>
      rw [← List.append_assoc]
      exact .unpaired (c :: cs) hhigh hu

theorem Shape.char_append {us : List UInt16} (h : Shape us) (c : Char) : Shape (utf16EncodeChar c ++ us) := by
  cases h with
  | text cs => exact .text (c :: cs)
  | cut cs hhigh =>
      rw [← List.append_assoc]
      exact .cut (c :: cs) hhigh
  | stray h us =>
      rw [← List.append_assoc]
      exact .stray (h.char_append c) us

theorem shape (us : List UInt16) : Shape us := by
  induction hlen : us.length using Nat.strong_induction_on generalizing us with
  | _ len ih =>
      cases us with
      | nil => exact .text []
      | cons u us =>
          rw [List.length_cons] at hlen
          cases hhigh : isHighSurrogate u with
          | false =>
              cases hlow : isLowSurrogate u with
              | false =>
                  have hone := (ih us.length (by omega) us rfl).char_append (Char.ofNat u.toNat)
                  rwa [(IsUnits.one hhigh hlow).encode_eq] at hone
              | true => exact .stray (.low [] hlow) us
          | true =>
              cases us with
              | nil => exact .cut [] hhigh
              | cons u' us =>
                  rw [List.length_cons] at hlen
                  cases hlow : isLowSurrogate u' with
                  | false => exact .stray (.unpaired [] hhigh hlow) us
                  | true =>
                      have hpair := (ih us.length (by omega) us rfl).char_append (surrogatePair u u')
                      rwa [(IsUnits.pair hhigh hlow).encode_eq] at hpair

theorem isUtf16_append_pair (cs : List Char) {high : UInt16} (hhigh : isHighSurrogate high = true) :
    IsUtf16 (inUtf16 cs ++ [high] ++ [0xdc00]) := by
  refine ⟨cs ++ [surrogatePair high 0xdc00], ?_⟩
  rw [inUtf16, inUtf16, List.flatMap_append, List.append_assoc, List.flatMap_singleton,
    (IsUnits.pair hhigh (by decide)).encode_eq]
  rfl

theorem IsStray.exists_isUtf16 {front : List UInt16} {u : UInt16} (h : IsStray front u) :
    ∃ rest, IsUtf16 (front ++ rest) := by
  cases h with
  | low cs hu => exact ⟨[], cs, List.append_nil _⟩
  | unpaired cs hhigh hu => exact ⟨[0xdc00], isUtf16_append_pair cs hhigh⟩

/-! ## Bytes of a unit -/

namespace ByteOrder

def bytes : ByteOrder → UInt16 → List UInt8
  | .little, u => [UInt8.ofNat (u.toNat % 256), UInt8.ofNat (u.toNat / 256)]
  | .big, u => [UInt8.ofNat (u.toNat / 256), UInt8.ofNat (u.toNat % 256)]

def charset : ByteOrder → Charset
  | .little => .utf16le
  | .big => .utf16be

theorem decode_charset (order : ByteOrder) (content : List UInt8) :
    order.charset.decode content = ({} : Utf16Decode).outcome order content := by
  cases order <;> rfl

theorem toNat_shift_or (upper lower : UInt8) :
    (upper.toUInt16 <<< 8 ||| lower.toUInt16).toNat = upper.toNat * 256 + lower.toNat := by
  have hupper := upper.toNat_lt
  have hshift : (upper.toUInt16 <<< 8).toNat = upper.toNat <<< 8 := by
    rw [UInt16.toNat_shiftLeft, UInt8.toNat_toUInt16, show (8 : UInt16).toNat % 16 = 8 from rfl]
    exact Nat.mod_eq_of_lt (by rw [Nat.shiftLeft_eq]; omega)
  rw [UInt16.toNat_or, hshift, UInt8.toNat_toUInt16, ← Nat.shiftLeft_add_eq_or_of_lt lower.toNat_lt,
    Nat.shiftLeft_eq]

theorem bytes_unit (order : ByteOrder) (first second : UInt8) :
    order.bytes (order.unit first second) = [first, second] := by
  have hfirst := first.toNat_lt
  have hsecond := second.toNat_lt
  cases order <;>
  · simp only [bytes, unit, toNat_shift_or, List.cons.injEq, ← UInt8.toNat_inj, UInt8.toNat_ofNat', and_true]
    omega

theorem unit_bytes (order : ByteOrder) (u : UInt16) :
    ∃ first second, order.bytes u = [first, second] ∧ order.unit first second = u := by
  have hu := u.toNat_lt
  cases order
  · refine ⟨_, _, rfl, ?_⟩
    rw [← UInt16.toNat_inj, unit, toNat_shift_or, UInt8.toNat_ofNat', UInt8.toNat_ofNat']
    omega
  · refine ⟨_, _, rfl, ?_⟩
    rw [← UInt16.toNat_inj, unit, toNat_shift_or, UInt8.toNat_ofNat', UInt8.toNat_ofNat']
    omega

theorem length_flatMap_bytes (order : ByteOrder) (us : List UInt16) :
    (us.flatMap order.bytes).length = 2 * us.length := by
  induction us with
  | nil => rfl
  | cons u us ih =>
      obtain ⟨first, second, hbytes, -⟩ := order.unit_bytes u
      rw [List.flatMap_cons, List.length_append, ih, hbytes, List.length_cons]
      exact Nat.add_comm 2 _

theorem exists_units (order : ByteOrder) (content : List UInt8) :
    content = (order.units content).1.flatMap order.bytes ++ (order.units content).2.toList := by
  fun_induction units order content with
  | case1 => rfl
  | case2 b => rfl
  | case3 first second content us left hunits ih =>
      rw [hunits] at ih
      rw [List.flatMap_cons, bytes_unit, List.append_assoc]
      exact congrArg (first :: second :: ·) ih

theorem units_flatMap_bytes (order : ByteOrder) (us : List UInt16) (left : Option UInt8) :
    order.units (us.flatMap order.bytes ++ left.toList) = (us, left) := by
  induction us with
  | nil => cases left <;> rfl
  | cons u us ih =>
      obtain ⟨first, second, hbytes, hunit⟩ := order.unit_bytes u
      rw [List.flatMap_cons, List.append_assoc, hbytes, List.cons_append, List.cons_append, List.nil_append, units,
        ih, hunit]

end ByteOrder

/-! ## Units one after the other -/

namespace Utf16Decode

variable {s : Utf16Decode} {u high : UInt16}

theorem step_high (hs : s.high = none) (hu : isHighSurrogate u = true) :
    s.step u = some ([], { s with high := some u, offset := s.offset + 2 }) := by
  simp only [step, hs, hu, if_true]

theorem step_low (hs : s.high = none) (hu : isLowSurrogate u = true) : s.step u = none := by
  have hhigh : ¬ isHighSurrogate u = true := by
    rw [isLowSurrogate_iff] at hu
    rw [isHighSurrogate_iff]
    omega
  simp only [step, hs, hu, if_neg hhigh, if_true]

theorem step_one (hs : s.high = none) (hhigh : isHighSurrogate u = false) (hlow : isLowSurrogate u = false) :
    s.step u = some (s.emit (Char.ofNat u.toNat)) := by
  simp only [step, hs, hhigh, hlow, Bool.false_eq_true, if_false]

theorem step_pair (hs : s.high = some high) (hu : isLowSurrogate u = true) :
    s.step u = some (s.emit (surrogatePair high u)) := by
  simp only [step, hs, hu, if_true]

theorem step_lone (hs : s.high = some high) (hu : isLowSurrogate u = false) : s.step u = none := by
  simp only [step, hs, hu, Bool.false_eq_true, if_false]

theorem run_cons {t : Utf16Decode} {out : List UInt8} (h : s.step u = some (out, t)) (us : List UInt16) :
    s.run (u :: us) = (out ++ (t.run us).1, (t.run us).2) := by
  rw [run, h]

theorem run_stop (h : s.step u = none) (us : List UInt16) :
    s.run (u :: us) = ([], { s with high := none }, true) := by
  rw [run, h]

def past (s : Utf16Decode) (cs : List Char) : Utf16Decode :=
  { s with offset := s.offset + 2 * (inUtf16 cs).length, atStart := s.atStart && cs.isEmpty }

theorem run_char (hs : s.high = none) {c : Char} {seq : List UInt16} (h : IsUnits c seq) (us : List UInt16) :
    s.run (seq ++ us) =
      ((if s.atStart && c.toNat == 0xfeff then [] else String.utf8EncodeChar c) ++
        (run { s with offset := s.offset + 2 * seq.length, atStart := false } us).1,
        (run { s with offset := s.offset + 2 * seq.length, atStart := false } us).2) := by
  have hstate (n : Nat) : ({ s with high := none, offset := n, atStart := false } : Utf16Decode) =
      { s with offset := n, atStart := false } := by rw [← hs]
  cases h with
  | one hhigh hlow =>
      refine (run_cons (step_one hs hhigh hlow) us).trans ?_
      rw [← hstate]
      rfl
  | pair hhigh hlow =>
      refine (run_cons (step_high hs hhigh) (_ :: us)).trans ?_
      rw [run_cons (step_pair rfl hlow) us, ← hstate]
      rfl

/-- A text is written in UTF-8, and the decoder is past it. -/
theorem run_text (hs : s.high = none) (cs : List Char) (us : List UInt16) :
    s.run (inUtf16 cs ++ us) =
      (inUtf8 (if s.atStart then withoutMark cs else cs) ++ ((s.past cs).run us).1, ((s.past cs).run us).2) := by
  induction cs generalizing s with
  | nil =>
      have hpast : s.past [] = s := by
        rw [past, List.isEmpty_nil, Bool.and_true]
        rfl
      rw [hpast, withoutMark, ite_self]
      rfl
  | cons c cs ih =>
      have hrest := ih
        (s := { s with offset := s.offset + 2 * (utf16EncodeChar c).length, atStart := false }) hs
      rw [inUtf16_cons, List.append_assoc, run_char hs (isUnits_encode c), hrest]
      have hpast : past { s with offset := s.offset + 2 * (utf16EncodeChar c).length, atStart := false } cs =
          s.past (c :: cs) := by
        simp only [past, inUtf16_cons, List.length_append, List.isEmpty_cons, Bool.and_false, Bool.false_and]
        congr 1
        omega
      rw [hpast, ← List.append_assoc]
      congr 2
      cases hstart : s.atStart with
      | false => rfl
      | true =>
          by_cases hc : c.toNat = 0xfeff
          · simp [withoutMark, hc]
          · simp [withoutMark, hc, inUtf8_cons]

theorem run_inUtf16 (hs : s.high = none) (cs : List Char) :
    s.run (inUtf16 cs) = (inUtf8 (if s.atStart then withoutMark cs else cs), s.past cs, false) := by
  have htext := run_text hs cs []
  rwa [List.append_nil, run, List.append_nil] at htext

theorem run_cut (hs : s.high = none) (cs : List Char) (hhigh : isHighSurrogate high = true) :
    ∃ out t, s.run (inUtf16 cs ++ [high]) = (out, t, false) ∧ t.high = some high ∧
      t.offset = s.offset + 2 * (inUtf16 cs ++ [high]).length := by
  have hpast : (s.past cs).high = none := hs
  have hrun := run_text hs cs [high]
  rw [run_cons (step_high hpast hhigh), run] at hrun
  refine ⟨_, _, hrun, rfl, ?_⟩
  rw [List.length_append]
  exact Nat.add_assoc _ _ _

theorem run_stray (hs : s.high = none) {front : List UInt16} (h : IsStray front u) (us : List UInt16) :
    ∃ out t, s.run (front ++ u :: us) = (out, t, true) ∧ t.offset = s.offset + 2 * front.length := by
  cases h with
  | low cs hu =>
      have hpast : (s.past cs).high = none := hs
      have hrun := run_text hs cs (u :: us)
      rw [run_stop (step_low hpast hu)] at hrun
      exact ⟨_, _, hrun, rfl⟩
  | @unpaired cs high _ hhigh hu =>
      have hpast : (s.past cs).high = none := hs
      have hrun := run_text hs cs (high :: u :: us)
      rw [run_cons (step_high hpast hhigh), run_stop (step_lone rfl hu)] at hrun
      refine ⟨_, _, by rw [List.append_assoc]; exact hrun, ?_⟩
      rw [List.length_append]
      exact Nat.add_assoc _ _ _

end Utf16Decode

theorem IsStray.not_isUtf16 {front : List UInt16} {u : UInt16} (h : IsStray front u) (rest : List UInt16) :
    ¬ IsUtf16 (front ++ u :: rest) := by
  rintro ⟨cs, hcs⟩
  obtain ⟨out, t, hrun, -⟩ := Utf16Decode.run_stray (s := {}) rfl h rest
  rw [hcs, Utf16Decode.run_inUtf16 rfl] at hrun
  cases hrun

/-! ## The outcome on a content -/

namespace Utf16Decode

theorem outcome_of_run {order : ByteOrder} {us : List UInt16} {out : List UInt8} {t : Utf16Decode}
    {stopped : Bool} (h : ({} : Utf16Decode).run us = (out, t, stopped)) (left : Option UInt8) :
    ({} : Utf16Decode).outcome order (us.flatMap order.bytes ++ left.toList) =
      if stopped || (left.isSome || t.high.isSome) then .error t.offset else .ok out := by
  have hunits : order.units (({} : Utf16Decode).staged.toList ++ (us.flatMap order.bytes ++ left.toList)) =
      (us, left) := order.units_flatMap_bytes us left
  rw [outcome, feed_eq, hunits, run_staged, h]
  rfl

/-- A text is written in UTF-8 without the mark in front. -/
theorem outcome_inUtf16 (order : ByteOrder) (cs : List Char) :
    ({} : Utf16Decode).outcome order ((inUtf16 cs).flatMap order.bytes) = .ok (inUtf8 (withoutMark cs)) := by
  have hbytes : (inUtf16 cs).flatMap order.bytes =
      (inUtf16 cs).flatMap order.bytes ++ Option.toList none := (List.append_nil _).symm
  rw [hbytes]
  exact outcome_of_run (run_inUtf16 rfl cs) none

/-- What is not a text in whole units fails where the units cease to be the beginning of one. -/
theorem exists_outcome_error (order : ByteOrder) {us : List UInt16} {left : Option UInt8}
    (h : ¬ (left = none ∧ IsUtf16 us)) :
    ∃ n, ({} : Utf16Decode).outcome order (us.flatMap order.bytes ++ left.toList) = .error (2 * n) ∧
      KeepsTo IsUtf16 us n ∧ ∀ u, us[n]? = some u → IsStray (us.take n) u := by
  have hend {us : List UInt16} : ∀ u, us[us.length]? = some u → IsStray (us.take us.length) u := by
    intro u hu
    rw [List.getElem?_eq_none (Nat.le_refl _)] at hu
    cases hu
  cases shape us with
  | text cs =>
      have hleft : left.isSome = true := by
        cases left with
        | none => exact absurd ⟨rfl, cs, rfl⟩ h
        | some b => rfl
      refine ⟨(inUtf16 cs).length, ?_, .of_continues ⟨cs, List.append_nil _⟩, hend⟩
      rw [outcome_of_run (run_inUtf16 rfl cs), hleft]
      exact congrArg Except.error (Nat.zero_add _)
  | @cut cs high hhigh =>
      obtain ⟨out, t, hrun, ht, hoffset⟩ := run_cut (s := {}) rfl cs hhigh
      refine ⟨_, ?_, .of_continues (isUtf16_append_pair cs hhigh), hend⟩
      rw [outcome_of_run hrun, ht, hoffset, Option.isSome_some, Bool.or_true]
      exact congrArg Except.error (Nat.zero_add _)
  | @stray front u hstray us =>
      obtain ⟨out, t, hrun, hoffset⟩ := run_stray (s := {}) rfl hstray us
      obtain ⟨rest, hrest⟩ := hstray.exists_isUtf16
      refine ⟨front.length, ?_, .of_stop hrest hstray.not_isUtf16, fun u' hu' => ?_⟩
      · rw [outcome_of_run hrun, hoffset]
        exact congrArg Except.error (Nat.zero_add _)
      · rw [List.getElem?_append_right (Nat.le_refl _), Nat.sub_self] at hu'
        obtain rfl := Option.some.inj hu'
        rwa [List.take_left]

end Utf16Decode

/-! ## Reading -/

/-- Whatever the pieces of a content and whatever the sizes of the reads, a decoding reader comes to an end. The
content is the bytes of some units and perhaps one byte more. If there is none and the units are a text, the
reader hands out its characters in UTF-8, without the mark in front. If not, the fault is at the unit at which
the content ceases to be the beginning of a text, which is a stray one, or else after the last unit. -/
theorem utf16_reading_exact (order : ByteOrder) {feed : Feed} {content : List UInt8} (h : feed.Carries content) :
    ∃ (us : List UInt16) (left : Option UInt8), content = us.flatMap order.bytes ++ left.toList ∧
      ∃ bound, ∀ sizes : List Nat, (∀ n ∈ sizes, 0 < n) → bound ≤ sizes.length →
        ∃ out fault?, (Reader.ofFeed order.charset feed).readOut sizes = some (out, fault?) ∧
          (fault? = none ↔ content.length % 2 = 0 ∧ IsUtf16 us) ∧
          (fault? = none → ∀ cs, us = inUtf16 cs → out = inUtf8 (withoutMark cs)) ∧
          (fault? ≠ none → ∃ n, fault? = some (.malformed order.charset (2 * n)) ∧ KeepsTo IsUtf16 us n ∧
            ∀ u, us[n]? = some u → IsStray (us.take n) u) := by
  obtain ⟨us, left, rfl⟩ : ∃ (us : List UInt16) (left : Option UInt8),
      content = us.flatMap order.bytes ++ left.toList := ⟨_, _, order.exists_units content⟩
  have hwhole : (us.flatMap order.bytes ++ left.toList).length % 2 = 0 ↔ left = none := by
    rw [List.length_append, order.length_flatMap_bytes]
    cases left <;> simp
  refine ⟨us, left, rfl, (Reader.ofFeed order.charset feed).supply + 1, fun sizes hsizes hcount => ?_⟩
  obtain ⟨out, fault?, hreads, hend⟩ := (h.expects order.charset).exists_readOut hsizes hcount
  rw [order.decode_charset] at hend
  refine ⟨out, fault?, hreads, ?_⟩
  rw [hwhole]
  by_cases htext : left = none ∧ IsUtf16 us
  · obtain ⟨rfl, cs, hcs⟩ := htext
    have hout (cs : List Char) (hcs : us = inUtf16 cs) : ({} : Utf16Decode).outcome order
        (us.flatMap order.bytes ++ Option.toList none) = .ok (inUtf8 (withoutMark cs)) := by
      rw [Option.toList_none, List.append_nil, hcs]
      exact Utf16Decode.outcome_inUtf16 order cs
    rcases hend with ⟨rfl, hok⟩ | ⟨place, rfl, herror⟩
    · refine ⟨iff_of_true rfl ⟨rfl, cs, hcs⟩, fun _ cs hcs => ?_, fun hne => absurd rfl hne⟩
      exact Except.ok.inj (hok.symm.trans (hout cs hcs))
    · rw [hout cs hcs] at herror
      cases herror
  · obtain ⟨n, hout, hkeeps, hstray⟩ := Utf16Decode.exists_outcome_error order htext
    rw [hout] at hend
    rcases hend with ⟨rfl, hok⟩ | ⟨place, rfl, herror⟩
    · cases hok
    · obtain rfl := Except.error.inj herror
      refine ⟨iff_of_false (Option.some_ne_none _) htext,
        fun hnone => absurd hnone (Option.some_ne_none _), fun _ => ?_⟩
      exact ⟨n, rfl, hkeeps, hstray⟩

/-- A mark and a pair of surrogates that are cut within units, and a pair without its second half in front of
half a unit. -/
theorem utf16_reading_exact_of_pieces :
    Feed.Carries [.bytes [0xff], .interrupted, .bytes [0xfe, 0x3d], .bytes [0xd8, 0x00, 0xde]]
      [0xff, 0xfe, 0x3d, 0xd8, 0x00, 0xde] ∧
    Feed.Carries [.bytes [0x00, 0x41, 0xd8], .interrupted, .bytes [0x00, 0x00, 0x42, 0x43]]
      [0x00, 0x41, 0xd8, 0x00, 0x00, 0x42, 0x43] ∧
    (∃ k, (Reader.ofFeed .utf16le [.bytes [0xff], .interrupted, .bytes [0xfe, 0x3d],
      .bytes [0xd8, 0x00, 0xde]]).readOut (List.replicate k 3) = some ([0xf0, 0x9f, 0x98, 0x80], none)) ∧
    ∃ k out, (Reader.ofFeed .utf16be [.bytes [0x00, 0x41, 0xd8], .interrupted,
      .bytes [0x00, 0x00, 0x42, 0x43]]).readOut (List.replicate k 1) =
        some (out, some (.malformed .utf16be 4)) := by
  have hgood : Feed.Carries [.bytes [0xff], .interrupted, .bytes [0xfe, 0x3d], .bytes [0xd8, 0x00, 0xde]]
      [0xff, 0xfe, 0x3d, 0xd8, 0x00, 0xde] :=
    .bytes (by decide) (.interrupted (.bytes (by decide) (.bytes (by decide) .nil)))
  have hbad : Feed.Carries [.bytes [0x00, 0x41, 0xd8], .interrupted, .bytes [0x00, 0x00, 0x42, 0x43]]
      [0x00, 0x41, 0xd8, 0x00, 0x00, 0x42, 0x43] :=
    .bytes (by decide) (.interrupted (.bytes (by decide) .nil))
  have hsizes (k n : Nat) : ∀ m ∈ List.replicate k (n + 1), 0 < m := fun m hm =>
    (List.eq_of_mem_replicate hm).symm ▸ Nat.succ_pos n
  obtain ⟨us, left, hus, k, hk⟩ := utf16_reading_exact .little hgood
  obtain ⟨vs, left', hvs, l, hl⟩ := utf16_reading_exact .big hbad
  have hus' := ByteOrder.little.units_flatMap_bytes us left
  have hvs' := ByteOrder.big.units_flatMap_bytes vs left'
  rw [← hus] at hus'
  rw [← hvs] at hvs'
  obtain ⟨rfl, rfl⟩ := Prod.mk.inj hus'
  obtain ⟨rfl, rfl⟩ := Prod.mk.inj hvs'
  obtain ⟨out, fault?, hreads, hfault, hsame, -⟩ := hk (List.replicate k 3) (hsizes k 2) (by simp)
  obtain ⟨out', fault?', hreads', hfault', -, hplace⟩ := hl (List.replicate l 1) (hsizes l 0) (by simp)
  refine ⟨hgood, hbad, ⟨k, hreads.trans ?_⟩, l, out', hreads'.trans ?_⟩
  · have htext : [0xfeff, 0xd83d, 0xde00] = inUtf16 [Char.ofNat 0xfeff, Char.ofNat 0x1f600] := by decide
    have hnone := hfault.2 ⟨rfl, _, htext⟩
    rw [hsame hnone _ htext, hnone]
    decide
  · have hfront : inUtf16 [Char.ofNat 0x41] ++ [0xd800] = [0x41, 0xd800] := by decide
    have hstray : IsStray [0x41, 0xd800] 0x42 :=
      hfront ▸ .unpaired [Char.ofNat 0x41] (by decide) (by decide)
    obtain ⟨rest, hrest⟩ := hstray.exists_isUtf16
    obtain ⟨n, rfl, hkeeps, -⟩ := hplace fun h => absurd (hfault'.1 h).1 (by decide)
    obtain rfl : n = 2 := hkeeps.unique (.of_stop hrest hstray.not_isUtf16)
    rfl

end TokenDiff
