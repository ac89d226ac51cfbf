import TokenDiff.Proofs.Charset.Reading

/-!
# Text in UTF-8

The checker of UTF-8 is held to the encoding of characters, which it does not mention: the bytes that lead it
to the end of a character are those of some characters, one after the other (`Utf8Check.accepts_iff`). Between
the two stands the table of well-formed sequences (`IsSequence`): the bits of each make a character, and what a
lead byte calls for is said once for each length of a sequence (`Utf8Check.step_two` and so on), where the range
of the byte after it excludes just what is not a character.

A state within a sequence can always be led on, so a checker that has not stopped has seen the beginning of a
text, and the byte at which it stops is the first one that no text goes on with (`Utf8Check.keepsTo_of_outcome`).

Readers come to that outcome however the content is handed out and however much is read at a time
(`utf8_reading_exact`).
-/

namespace TokenDiff

def inUtf8 (cs : List Char) : List UInt8 := cs.flatMap String.utf8EncodeChar

def IsUtf8 (bytes : List UInt8) : Prop := ∃ cs, bytes = inUtf8 cs

theorem inUtf8_cons (c : Char) (cs : List Char) : inUtf8 (c :: cs) = String.utf8EncodeChar c ++ inUtf8 cs := rfl

/-! ## Characters by their bytes -/

def IsTail (b : UInt8) : Prop := 0x80 ≤ b.toNat ∧ b.toNat ≤ 0xbf

/-- The sequences that are characters, by their lead bytes. Of three bytes those are left out that stand for
less than three need, and the surrogates; of four those that stand for less than four need, and what is above
`10ffff`. -/
inductive IsSequence : List UInt8 → Prop
  | one {b : UInt8} (hb : b.toNat ≤ 0x7f) : IsSequence [b]
  | two {b b₁ : UInt8} (hb : 0xc2 ≤ b.toNat ∧ b.toNat ≤ 0xdf) (h₁ : IsTail b₁) : IsSequence [b, b₁]
  | three {b b₁ b₂ : UInt8} (hb : 0xe0 ≤ b.toNat ∧ b.toNat ≤ 0xef) (h₁ : IsTail b₁) (h₂ : IsTail b₂)
      (hlow : b.toNat = 0xe0 → 0xa0 ≤ b₁.toNat) (hhigh : b.toNat = 0xed → b₁.toNat ≤ 0x9f) :
      IsSequence [b, b₁, b₂]
  | four {b b₁ b₂ b₃ : UInt8} (hb : 0xf0 ≤ b.toNat ∧ b.toNat ≤ 0xf4) (h₁ : IsTail b₁) (h₂ : IsTail b₂)
      (h₃ : IsTail b₃) (hlow : b.toNat = 0xf0 → 0x90 ≤ b₁.toNat)
      (hhigh : b.toNat = 0xf4 → b₁.toNat ≤ 0x8f) : IsSequence [b, b₁, b₂, b₃]

theorem toNat_ofNat {n : Nat} (h : n.isValidChar) : (Char.ofNat n).val.toNat = n := by
  rw [Char.ofNat, dif_pos h]
  rfl

namespace IsSequence

theorem length_pos {l : List UInt8} (h : IsSequence l) : 0 < l.length := by
  cases h <;> exact Nat.succ_pos _

theorem encode (c : Char) : IsSequence (String.utf8EncodeChar c) := by
  have hvalid : c.val.toNat < 0xd800 ∨ 0xdfff < c.val.toNat ∧ c.val.toNat < 0x110000 := c.valid
  unfold String.utf8EncodeChar
  generalize c.val.toNat = v at hvalid ⊢
  dsimp only
  split
  · refine one ?_
    simp only [UInt8.toNat_ofNat']
    omega
  split
  · refine two ?_ ?_ <;> simp only [IsTail, UInt8.toNat_ofNat'] <;> omega
  split
  · refine three ?_ ?_ ?_ ?_ ?_ <;> simp only [IsTail, UInt8.toNat_ofNat'] <;> omega
  · refine four ?_ ?_ ?_ ?_ ?_ ?_ <;> simp only [IsTail, UInt8.toNat_ofNat'] <;> omega

/-- The number that the bits of the sequence make is that of a character. -/
theorem exists_char {l : List UInt8} (h : IsSequence l) : ∃ c, String.utf8EncodeChar c = l := by
  cases h with
  | @one b hb =>
      refine ⟨Char.ofNat b.toNat, ?_⟩
      rw [String.utf8EncodeChar, toNat_ofNat (.inl (by omega)), if_pos hb, UInt8.ofNat_toNat]
  | @two b b₁ hb h₁ =>
      unfold IsTail at h₁
      refine ⟨Char.ofNat ((b.toNat - 0xc0) * 64 + (b₁.toNat - 0x80)), ?_⟩
      rw [String.utf8EncodeChar, toNat_ofNat (.inl (by omega)), if_neg (by omega), if_pos (by omega)]
      simp only [List.cons.injEq, ← UInt8.toNat_inj, UInt8.toNat_ofNat', and_true]
      omega
  | @three b b₁ b₂ hb h₁ h₂ hlow hhigh =>
      unfold IsTail at h₁ h₂
      refine ⟨Char.ofNat ((b.toNat - 0xe0) * 4096 + (b₁.toNat - 0x80) * 64 + (b₂.toNat - 0x80)), ?_⟩
      rw [String.utf8EncodeChar, toNat_ofNat (by unfold Nat.isValidChar; omega), if_neg (by omega),
        if_neg (by omega), if_pos (by omega)]
      simp only [List.cons.injEq, ← UInt8.toNat_inj, UInt8.toNat_ofNat', and_true]
      omega
  | @four b b₁ b₂ b₃ hb h₁ h₂ h₃ hlow hhigh =>
      unfold IsTail at h₁ h₂ h₃
      refine ⟨Char.ofNat ((b.toNat - 0xf0) * 262144 + (b₁.toNat - 0x80) * 4096 + (b₂.toNat - 0x80) * 64 +
        (b₃.toNat - 0x80)), ?_⟩
      rw [String.utf8EncodeChar, toNat_ofNat (by unfold Nat.isValidChar; omega), if_neg (by omega),
        if_neg (by omega), if_neg (by omega)]
      simp only [List.cons.injEq, ← UInt8.toNat_inj, UInt8.toNat_ofNat', and_true]
      omega

end IsSequence

/-! ## One byte -/

namespace Utf8Check

variable {s t : Utf8Check} {b : UInt8} {l : List UInt8}

theorem step_tail (h : 0 < s.pending) (hb : s.lower.toNat ≤ b.toNat ∧ b.toNat ≤ s.upper.toNat) :
    s.step b = some (s.expect (s.pending - 1) 0x80 0xbf) := by
  rw [step, if_pos h, if_neg (by simp only [UInt8.lt_iff_toNat_lt]; omega)]

theorem of_step_tail (h : 0 < s.pending) (hstep : s.step b = some t) :
    (s.lower.toNat ≤ b.toNat ∧ b.toNat ≤ s.upper.toNat) ∧ t = s.expect (s.pending - 1) 0x80 0xbf := by
  rw [step, if_pos h] at hstep
  split at hstep
  · cases hstep
  · next hb =>
      simp only [UInt8.lt_iff_toNat_lt] at hb
      exact ⟨by omega, (Option.some.inj hstep).symm⟩

theorem step_one (h : s.pending = 0) (hb : b.toNat ≤ 0x7f) :
    s.step b = some { s with offset := s.offset + 1 } := by
  rw [step, if_neg (by omega), if_pos (UInt8.le_iff_toNat_le.2 hb)]

theorem step_two (h : s.pending = 0) (hb : 0xc2 ≤ b.toNat ∧ b.toNat ≤ 0xdf) :
    s.step b = some (s.expect 1 0x80 0xbf) := by
  grind [step, UInt8.le_iff_toNat_le, UInt8.lt_iff_toNat_lt]

theorem step_three (h : s.pending = 0) (hb : 0xe0 ≤ b.toNat ∧ b.toNat ≤ 0xef) :
    ∃ lower upper : UInt8, s.step b = some (s.expect 2 lower upper) ∧ ∀ b₁ : UInt8,
      (lower.toNat ≤ b₁.toNat ∧ b₁.toNat ≤ upper.toNat) ↔
        IsTail b₁ ∧ (b.toNat = 0xe0 → 0xa0 ≤ b₁.toNat) ∧ (b.toNat = 0xed → b₁.toNat ≤ 0x9f) := by
  refine ⟨if b.toNat = 0xe0 then 0xa0 else 0x80, if b.toNat = 0xed then 0x9f else 0xbf, ?_, fun b₁ => ?_⟩
  · simp only [step, UInt8.le_iff_toNat_le, UInt8.lt_iff_toNat_lt, ← UInt8.toNat_inj, UInt8.reduceToNat]
    grind
  · unfold IsTail
    split <;> split <;> simp only [UInt8.reduceToNat] <;> omega

theorem step_four (h : s.pending = 0) (hb : 0xf0 ≤ b.toNat ∧ b.toNat ≤ 0xf4) :
    ∃ lower upper : UInt8, s.step b = some (s.expect 3 lower upper) ∧ ∀ b₁ : UInt8,
      (lower.toNat ≤ b₁.toNat ∧ b₁.toNat ≤ upper.toNat) ↔
        IsTail b₁ ∧ (b.toNat = 0xf0 → 0x90 ≤ b₁.toNat) ∧ (b.toNat = 0xf4 → b₁.toNat ≤ 0x8f) := by
  refine ⟨if b.toNat = 0xf0 then 0x90 else 0x80, if b.toNat = 0xf4 then 0x8f else 0xbf, ?_, fun b₁ => ?_⟩
  · simp only [step, UInt8.le_iff_toNat_le, UInt8.lt_iff_toNat_lt, ← UInt8.toNat_inj, UInt8.reduceToNat]
    grind
  · unfold IsTail
    split <;> split <;> simp only [UInt8.reduceToNat] <;> omega

theorem step_none (h : s.pending = 0) (hb : (0x80 ≤ b.toNat ∧ b.toNat ≤ 0xc1) ∨ 0xf5 ≤ b.toNat) :
    s.step b = none := by
  simp only [step, UInt8.le_iff_toNat_le, UInt8.lt_iff_toNat_lt, ← UInt8.toNat_inj, UInt8.reduceToNat]
  grind

theorem run_cons (h : s.step b = some t) (l : List UInt8) : s.run (b :: l) = t.run l := by
  rw [run, h]

theorem exists_step_of_run (h : s.run (b :: l) = .ok t) : ∃ u, s.step b = some u ∧ u.run l = .ok t := by
  rw [run] at h
  cases hstep : s.step b with
  | none =>
      rw [hstep] at h
      cases h
  | some u =>
      rw [hstep] at h
      exact ⟨u, rfl, h⟩

/-! ## Characters one after the other -/

def Accepts (s : Utf8Check) (l : List UInt8) : Prop := ∃ t, s.run l = .ok t ∧ t.pending = 0

theorem accepts_nil : s.Accepts [] ↔ s.pending = 0 :=
  ⟨fun ⟨_, hrun, ht⟩ => Except.ok.inj hrun ▸ ht, fun h => ⟨s, rfl, h⟩⟩

theorem accepts_cons (h : s.step b = some t) : s.Accepts (b :: l) ↔ t.Accepts l := by
  rw [Accepts, Accepts, run_cons h]

theorem Accepts.exists_step (h : s.Accepts (b :: l)) : ∃ t, s.step b = some t ∧ t.Accepts l := by
  obtain ⟨u, hrun, hu⟩ := h
  obtain ⟨t, hstep, hrun⟩ := exists_step_of_run hrun
  exact ⟨t, hstep, u, hrun, hu⟩

theorem Accepts.exists_tail (h : s.Accepts l) (hs : 0 < s.pending) :
    ∃ b rest, l = b :: rest ∧ (s.lower.toNat ≤ b.toNat ∧ b.toNat ≤ s.upper.toNat) ∧
      (s.expect (s.pending - 1) 0x80 0xbf).Accepts rest := by
  cases l with
  | nil => exact absurd (accepts_nil.1 h) (Nat.ne_of_gt hs)
  | cons b rest =>
      obtain ⟨t, hstep, hrest⟩ := h.exists_step
      obtain ⟨hb, rfl⟩ := of_step_tail hs hstep
      exact ⟨b, rest, rfl, hb, hrest⟩

theorem accepts_tail {n : Nat} (h : IsTail b) :
    (s.expect (n + 1) 0x80 0xbf).Accepts (b :: l) ↔
      ((s.expect (n + 1) 0x80 0xbf).expect n 0x80 0xbf).Accepts l :=
  accepts_cons (step_tail (Nat.succ_pos n) h)

/-- A sequence leads from one character to the next. -/
theorem accepts_sequence {seq : List UInt8} (h : IsSequence seq) (hs : s.pending = 0) :
    ∃ t : Utf8Check, t.pending = 0 ∧ ∀ l, s.Accepts (seq ++ l) ↔ t.Accepts l := by
  cases h with
  | one hb => exact ⟨{ s with offset := s.offset + 1 }, hs, fun l => accepts_cons (step_one hs hb)⟩
  | two hb h₁ =>
      refine ⟨(s.expect 1 0x80 0xbf).expect 0 0x80 0xbf, rfl, fun l => ?_⟩
      refine (accepts_cons (step_two hs hb)).trans ?_
      exact accepts_tail h₁
  | @three b b₁ b₂ hb h₁ h₂ hlow hhigh =>
      obtain ⟨lower, upper, hstep, hrange⟩ := step_three hs hb
      refine ⟨((s.expect 2 lower upper).expect 1 0x80 0xbf).expect 0 0x80 0xbf, rfl, fun l => ?_⟩
      refine (accepts_cons hstep).trans ?_
      refine (accepts_cons (step_tail (Nat.succ_pos _) ((hrange b₁).2 ⟨h₁, hlow, hhigh⟩))).trans ?_
      exact accepts_tail h₂
  | @four b b₁ b₂ b₃ hb h₁ h₂ h₃ hlow hhigh =>
      obtain ⟨lower, upper, hstep, hrange⟩ := step_four hs hb
      refine ⟨(((s.expect 3 lower upper).expect 2 0x80 0xbf).expect 1 0x80 0xbf).expect 0 0x80 0xbf, rfl,
        fun l => ?_⟩
      refine (accepts_cons hstep).trans ?_
      refine (accepts_cons (step_tail (Nat.succ_pos _) ((hrange b₁).2 ⟨h₁, hlow, hhigh⟩))).trans ?_
      refine (accepts_tail h₂).trans ?_
      exact accepts_tail h₃

/-- What is accepted after a character begins with a sequence. -/
theorem Accepts.exists_sequence (h : s.Accepts (b :: l)) (hs : s.pending = 0) :
    ∃ (seq rest : List UInt8) (t : Utf8Check), b :: l = seq ++ rest ∧ IsSequence seq ∧
      t.Accepts rest ∧ t.pending = 0 := by
  obtain ⟨t, hstep, hl⟩ := h.exists_step
  by_cases hnone : (0x80 ≤ b.toNat ∧ b.toNat ≤ 0xc1) ∨ 0xf5 ≤ b.toNat
  · rw [step_none hs hnone] at hstep
    cases hstep
  by_cases hone : b.toNat ≤ 0x7f
  · obtain rfl := Option.some.inj ((step_one hs hone).symm.trans hstep)
    exact ⟨[b], l, _, rfl, .one hone, hl, hs⟩
  by_cases htwo : b.toNat ≤ 0xdf
  · have hb : 0xc2 ≤ b.toNat ∧ b.toNat ≤ 0xdf := by omega
    obtain rfl := Option.some.inj ((step_two hs hb).symm.trans hstep)
    obtain ⟨b₁, l, rfl, h₁, hl⟩ := hl.exists_tail (Nat.succ_pos _)
    exact ⟨[b, b₁], l, _, rfl, .two hb h₁, hl, rfl⟩
  by_cases hthree : b.toNat ≤ 0xef
  · have hb : 0xe0 ≤ b.toNat ∧ b.toNat ≤ 0xef := by omega
    obtain ⟨lower, upper, hstep', hrange⟩ := step_three hs hb
    obtain rfl := Option.some.inj (hstep'.symm.trans hstep)
    obtain ⟨b₁, l, rfl, h₁, hl⟩ := hl.exists_tail (Nat.succ_pos _)
    obtain ⟨b₂, l, rfl, h₂, hl⟩ := hl.exists_tail (Nat.succ_pos _)
    obtain ⟨h₁, hlow, hhigh⟩ := (hrange b₁).1 h₁
    exact ⟨[b, b₁, b₂], l, _, rfl, .three hb h₁ h₂ hlow hhigh, hl, rfl⟩
  · have hb : 0xf0 ≤ b.toNat ∧ b.toNat ≤ 0xf4 := by omega
    obtain ⟨lower, upper, hstep', hrange⟩ := step_four hs hb
    obtain rfl := Option.some.inj (hstep'.symm.trans hstep)
    obtain ⟨b₁, l, rfl, h₁, hl⟩ := hl.exists_tail (Nat.succ_pos _)
    obtain ⟨b₂, l, rfl, h₂, hl⟩ := hl.exists_tail (Nat.succ_pos _)
    obtain ⟨b₃, l, rfl, h₃, hl⟩ := hl.exists_tail (Nat.succ_pos _)
    obtain ⟨h₁, hlow, hhigh⟩ := (hrange b₁).1 h₁
    exact ⟨[b, b₁, b₂, b₃], l, _, rfl, .four hb h₁ h₂ h₃ hlow hhigh, hl, rfl⟩

/-- Between two characters the checker takes a text and nothing else. -/
theorem accepts_iff (hs : s.pending = 0) : s.Accepts l ↔ IsUtf8 l := by
  constructor
  · intro h
    induction hlen : l.length using Nat.strong_induction_on generalizing s l with
    | _ len ih =>
        cases l with
        | nil => exact ⟨[], rfl⟩
        | cons b l =>
            obtain ⟨seq, rest, t, hsplit, hseq, hrest, ht⟩ := h.exists_sequence hs
            have hless : rest.length < len := by
              have := congrArg List.length hsplit
              rw [List.length_append] at this
              have := hseq.length_pos
              omega
            obtain ⟨c, rfl⟩ := hseq.exists_char
            obtain ⟨cs, rfl⟩ := ih rest.length hless ht hrest rfl
            exact ⟨c :: cs, hsplit⟩
  · rintro ⟨cs, rfl⟩
    induction cs generalizing s with
    | nil => exact accepts_nil.2 hs
    | cons c cs ih =>
        obtain ⟨t, ht, haccepts⟩ := accepts_sequence (.encode c) hs
        exact (haccepts _).2 (ih ht)

/-! ## The outcome on a content -/

def Open (s : Utf8Check) : Prop := 0 < s.pending → s.lower.toNat ≤ s.upper.toNat

/-- After a byte the state is open, and one byte further. -/
theorem open_of_step (hs : s.Open) (h : s.step b = some t) : t.Open ∧ t.offset = s.offset + 1 := by
  have hexpect {n : Nat} {lower upper : UInt8} (hle : lower.toNat ≤ upper.toNat)
      (ht : some (s.expect n lower upper) = some t) : t.Open ∧ t.offset = s.offset + 1 :=
    Option.some.inj ht ▸ ⟨fun _ => hle, rfl⟩
  unfold step at h
  split at h
  · split at h
    · cases h
    · exact hexpect (by decide) h
  split at h
  · exact Option.some.inj h ▸ ⟨hs, rfl⟩
  repeat' split at h
  all_goals
    first
    | exact hexpect (by decide) h
    | cases h

theorem Open.exists_accepts (h : s.Open) : ∃ l, s.Accepts l := by
  induction hn : s.pending generalizing s with
  | zero => exact ⟨[], accepts_nil.2 hn⟩
  | succ n ih =>
      have hpending : 0 < s.pending := hn ▸ Nat.succ_pos n
      have hstep := step_tail hpending ⟨Nat.le_refl _, h hpending⟩
      rw [hn, Nat.add_sub_cancel] at hstep
      have hopen : (s.expect n 0x80 0xbf).Open := fun _ => show (0x80 : UInt8).toNat ≤ 0xbf by decide
      obtain ⟨l, hl⟩ := ih hopen rfl
      exact ⟨s.lower :: l, (accepts_cons hstep).2 hl⟩

theorem open_of_run (hs : s.Open) (h : s.run l = .ok t) : t.Open ∧ t.offset = s.offset + l.length := by
  induction l generalizing s with
  | nil =>
      obtain rfl := Except.ok.inj h
      exact ⟨hs, rfl⟩
  | cons b l ih =>
      obtain ⟨u, hstep, hrun⟩ := exists_step_of_run h
      obtain ⟨hu, hoffset⟩ := open_of_step hs hstep
      obtain ⟨ht, hoffset'⟩ := ih hu hrun
      rw [List.length_cons]
      exact ⟨ht, by omega⟩

theorem exists_of_run_error (h : s.run l = .error t) :
    ∃ xs b ys, l = xs ++ b :: ys ∧ s.run xs = .ok t ∧ t.step b = none := by
  induction l generalizing s with
  | nil => cases h
  | cons b l ih =>
      cases hstep : s.step b with
      | none =>
          rw [run, hstep] at h
          obtain rfl := Except.error.inj h
          exact ⟨[], b, l, rfl, rfl, hstep⟩
      | some u =>
          rw [run_cons hstep] at h
          obtain ⟨xs, b', ys, rfl, hrun, hnone⟩ := ih h
          exact ⟨b :: xs, b', ys, rfl, by rw [run_cons hstep, hrun], hnone⟩

theorem accepts_append {xs ys : List UInt8} (h : s.run xs = .ok t) : s.Accepts (xs ++ ys) ↔ t.Accepts ys := by
  rw [Accepts, Accepts, run_append, h]
  rfl

/-- A text is left as it is, and nothing else is. -/
theorem outcome_eq_ok_iff {content out : List UInt8} :
    ({} : Utf8Check).outcome content = .ok out ↔ IsUtf8 content ∧ out = content := by
  rw [← accepts_iff (s := {}) rfl, outcome, Accepts]
  cases hrun : ({} : Utf8Check).run content with
  | error t => simp
  | ok t =>
      rcases Nat.eq_zero_or_pos t.pending with hzero | hpos
      · simp [hzero, eq_comm]
      · simp [hpos, Nat.ne_of_gt hpos]

/-- Otherwise the place is where the content ceases to be the beginning of a text. -/
theorem keepsTo_of_outcome {content : List UInt8} {place : Nat}
    (h : ({} : Utf8Check).outcome content = .error place) : KeepsTo IsUtf8 content place := by
  have hopen : ({} : Utf8Check).Open := fun hpos => absurd hpos (Nat.lt_irrefl 0)
  have htext {xs ys : List UInt8} {t : Utf8Check} (hrun : ({} : Utf8Check).run xs = .ok t) :
      IsUtf8 (xs ++ ys) ↔ t.Accepts ys := (accepts_iff rfl).symm.trans (accepts_append hrun)
  rw [outcome] at h
  cases hrun : ({} : Utf8Check).run content with
  | ok t =>
      obtain ⟨ht, hoffset⟩ := open_of_run hopen hrun
      obtain ⟨rest, hrest⟩ := ht.exists_accepts
      have hplace : place = content.length := by
        simp only [hrun] at h
        split at h
        · rw [← Except.error.inj h, hoffset]
          exact Nat.zero_add _
        · cases h
      rw [hplace]
      exact .of_continues ((htext hrun).2 hrest)
  | error t =>
      obtain ⟨xs, b, ys, rfl, hxs, hnone⟩ := exists_of_run_error hrun
      obtain ⟨ht, hoffset⟩ := open_of_run hopen hxs
      obtain ⟨rest, hrest⟩ := ht.exists_accepts
      have hplace : place = xs.length := by
        simp only [hrun] at h
        rw [← Except.error.inj h, hoffset]
        exact Nat.zero_add _
      rw [hplace]
      refine .of_stop ((htext hxs).2 hrest) fun more hmore => ?_
      obtain ⟨u, hstep, -⟩ := ((htext hxs).1 hmore).exists_step
      rw [hnone] at hstep
      cases hstep

end Utf8Check

/-! ## Reading -/

/-- What a checked reader hands out are bytes of the content from the front on, also before a fault. -/
theorem Reader.isFront_of_readOut {check : Utf8Check} {feed : Feed} {content out : List UInt8}
    {sizes : List Nat} {fault? : Option ReadFault} (h : feed.Carries content) (hsizes : ∀ n ∈ sizes, 0 < n)
    (hreads : Reader.readOut sizes ⟨feed, .utf8 check⟩ = some (out, fault?)) : out <+: content := by
  induction sizes generalizing check feed content out with
  | nil => cases hreads
  | cons n sizes ih =>
      obtain ⟨hn, hrest⟩ := List.forall_mem_cons.1 hsizes
      rw [readOut] at hreads
      rcases h.read hn with ⟨rest, hread, hcarries⟩ | ⟨data, left, rest, hread, hcarries, rfl, -, -⟩
      · simp only [Reader.read, readChecked, hread] at hreads
        exact ih hcarries hrest hreads
      · cases data with
        | nil =>
            have hnil : out = [] := by
              by_cases hpending : 0 < check.pending
              · simp only [Reader.read, readChecked, hread, if_pos (And.intro hpending hn)] at hreads
                exact (Prod.mk.inj (Option.some.inj hreads)).1.symm
              · simp only [Reader.read, readChecked, hread, if_neg fun h => hpending (And.left h)] at hreads
                exact (Prod.mk.inj (Option.some.inj hreads)).1.symm
            exact hnil ▸ List.nil_prefix
        | cons b data =>
            simp only [Reader.read, readChecked, hread] at hreads
            cases hrun : check.run (b :: data) with
            | error check' =>
                simp only [hrun, Option.some.injEq, Prod.mk.injEq] at hreads
                exact hreads.1 ▸ List.nil_prefix
            | ok check' =>
                simp only [hrun, Option.map_eq_some_iff, Prod.mk.injEq, Prod.exists] at hreads
                obtain ⟨more, fault?', hmore, rfl, rfl⟩ := hreads
                exact (List.prefix_append_right_inj (b :: data)).2 (ih hcarries hrest hmore)

/-- Whatever the pieces of a content and whatever the sizes of the reads, a checked reader comes to an end. It
hands out the content if that is a text in UTF-8. If it is not, the fault is where the content ceases to be the
beginning of a text, and what has been handed out before is its front. -/
theorem utf8_reading_exact {feed : Feed} {content : List UInt8} (h : feed.Carries content) :
    ∃ bound, ∀ sizes : List Nat, (∀ n ∈ sizes, 0 < n) → bound ≤ sizes.length →
      ∃ out fault?, (Reader.ofFeed .utf8 feed).readOut sizes = some (out, fault?) ∧
        (fault? = none ↔ IsUtf8 content) ∧
        (fault? = none → out = content) ∧
        (fault? ≠ none → ∃ place, fault? = some (.malformed .utf8 place) ∧ KeepsTo IsUtf8 content place ∧
          out <+: content) := by
  refine ⟨(Reader.ofFeed .utf8 feed).supply + 1, fun sizes hsizes hcount => ?_⟩
  have hexpects : (Reader.ofFeed .utf8 feed).Expects .utf8 (({} : Utf8Check).outcome content) :=
    h.expects .utf8
  obtain ⟨out, fault?, hreads, hend⟩ := hexpects.exists_readOut hsizes hcount
  refine ⟨out, fault?, hreads, ?_⟩
  rcases hend with ⟨rfl, hout⟩ | ⟨place, rfl, hout⟩
  · obtain ⟨htext, rfl⟩ := Utf8Check.outcome_eq_ok_iff.1 hout
    exact ⟨iff_of_true rfl htext, fun _ => rfl, fun hne => absurd rfl hne⟩
  · have htext : ¬ IsUtf8 content := fun htext => by
      rw [Utf8Check.outcome_eq_ok_iff.2 ⟨htext, rfl⟩] at hout
      cases hout
    refine ⟨iff_of_false (Option.some_ne_none _) htext, fun hnone => absurd hnone (Option.some_ne_none _),
      fun _ => ?_⟩
    exact ⟨place, rfl, Utf8Check.keepsTo_of_outcome hout, Reader.isFront_of_readOut h hsizes hreads⟩

/-- A character of three bytes that comes in two pieces, and half of a surrogate pair, which the byte after its
lead byte gives away. -/
theorem utf8_reading_exact_of_pieces :
    Feed.Carries [.bytes [0xe2], .interrupted, .bytes [0x82, 0xac]] [0xe2, 0x82, 0xac] ∧
    Feed.Carries [.bytes [0x41, 0xed], .interrupted, .bytes [0xa0, 0x80]] [0x41, 0xed, 0xa0, 0x80] ∧
    (∃ k, (Reader.ofFeed .utf8 [.bytes [0xe2], .interrupted, .bytes [0x82, 0xac]]).readOut
      (List.replicate k 2) = some ([0xe2, 0x82, 0xac], none)) ∧
    ∃ k out, (Reader.ofFeed .utf8 [.bytes [0x41, 0xed], .interrupted, .bytes [0xa0, 0x80]]).readOut
      (List.replicate k 1) = some (out, some (.malformed .utf8 2)) ∧ out <+: [0x41, 0xed, 0xa0, 0x80] := by
  have hgood : Feed.Carries [.bytes [0xe2], .interrupted, .bytes [0x82, 0xac]] [0xe2, 0x82, 0xac] :=
    .bytes (by decide) (.interrupted (.bytes (by decide) .nil))
  have hbad : Feed.Carries [.bytes [0x41, 0xed], .interrupted, .bytes [0xa0, 0x80]]
      [0x41, 0xed, 0xa0, 0x80] := .bytes (by decide) (.interrupted (.bytes (by decide) .nil))
  have hsizes (k n : Nat) : ∀ m ∈ List.replicate k (n + 1), 0 < m := fun m hm =>
    (List.eq_of_mem_replicate hm).symm ▸ Nat.succ_pos n
  have htext : IsUtf8 [0xe2, 0x82, 0xac] := ⟨[Char.ofNat 0x20ac], by decide⟩
  have hplace : KeepsTo IsUtf8 [0x41, 0xed, 0xa0, 0x80] 2 := Utf8Check.keepsTo_of_outcome rfl
  obtain ⟨k, hk⟩ := utf8_reading_exact hgood
  obtain ⟨l, hl⟩ := utf8_reading_exact hbad
  obtain ⟨out, fault?, hreads, hfault, hsame, -⟩ := hk (List.replicate k 2) (hsizes k 1) (by simp)
  obtain ⟨out', fault?', hreads', hfault', -, hfront⟩ := hl (List.replicate l 1) (hsizes l 0) (by simp)
  refine ⟨hgood, hbad, ⟨k, ?_⟩, l, out', ?_⟩
  · rw [hreads, hfault.2 htext, hsame (hfault.2 htext)]
  · have htext' : ¬ IsUtf8 [0x41, 0xed, 0xa0, 0x80] := fun h =>
      hplace.stops 4 (by decide) (by decide) ⟨[], by simpa using h⟩
    obtain ⟨place, rfl, hkeeps, hout⟩ := hfront fun h => htext' (hfault'.1 h)
    rw [hreads', hkeeps.unique hplace]
    exact ⟨rfl, hout⟩

end TokenDiff
