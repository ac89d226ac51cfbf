import TokenDiff.Proofs.Token.Sequence
import TokenDiff.Proofs.Window.Decoding

/-!
# Where tokens end

The tokens of a text, said without the text being cut: their offsets partition the text
(`Table.Partitions`), and between two neighbouring bytes a token ends just if the policy asks for it
(`Policy.EndsBetween`). A pass over a stream yields a table of this kind, however the stream is buffered
(`tokens_partition`).

That the places of the table are those where the policy cuts holds in both directions for one reason each:
there is a cut between two tokens (`Policy.cuts_of_place`), and a text can be cut in two where there is a cut
(`Policy.exists_place_of_cuts`).
-/

namespace TokenDiff

/-! ## The rule of a policy -/

/-- Bytes of words: the ASCII letters and the bytes beyond ASCII. -/
def IsLetter (b : UInt8) : Prop := (65 ≤ b ∧ b ≤ 90) ∨ (97 ≤ b ∧ b ≤ 122) ∨ 128 ≤ b

/-- Two bytes are of one class: carriage return, line feed, letter, space, or anything else. -/
def Alike (b c : UInt8) : Prop :=
  (b = 13 ↔ c = 13) ∧ (b = 10 ↔ c = 10) ∧ (IsLetter b ↔ IsLetter c) ∧ (b = 32 ↔ c = 32)

/-- A token ends after the byte `b` if `c` follows. -/
def Policy.EndsBetween : Policy → UInt8 → UInt8 → Prop
  | .line, b, _ => b = 10
  | .word, b, _ => b = 32
  | .wordClass, b, c => b = 10 ∨ (¬ Alike b c ∧ ¬ (b = 13 ∧ c = 10))
  | .lineEnding, b, c | .ignoreBlanks, b, c | .ignoreWhitespace, b, c => b = 10 ∨ (b = 13 ∧ c ≠ 10)

instance (b : UInt8) : Decidable (IsLetter b) :=
  inferInstanceAs (Decidable ((65 ≤ b ∧ b ≤ 90) ∨ (97 ≤ b ∧ b ≤ 122) ∨ 128 ≤ b))

theorem IsLetter.not_special {b : UInt8} (h : IsLetter b) : b ≠ 13 ∧ b ≠ 10 ∧ b ≠ 32 := by
  have hnone : ¬ IsLetter 13 ∧ ¬ IsLetter 10 ∧ ¬ IsLetter 32 := by decide
  refine ⟨?_, ?_, ?_⟩ <;> rintro rfl
  · exact hnone.1 h
  · exact hnone.2.1 h
  · exact hnone.2.2 h

namespace ByteClass

theorem ofByte_eq_carriageReturn {b : UInt8} : ofByte b = .carriageReturn ↔ b = 13 := by
  unfold ofByte
  split_ifs <;> simp_all

theorem ofByte_eq_lineFeed {b : UInt8} : ofByte b = .lineFeed ↔ b = 10 := by
  unfold ofByte
  split_ifs <;> simp_all

theorem ofByte_eq_letter {b : UInt8} : ofByte b = .letter ↔ IsLetter b := by
  have hspecial (h : IsLetter b) := h.not_special
  unfold ofByte IsLetter at *
  split_ifs <;> simp_all

theorem ofByte_eq_space {b : UInt8} : ofByte b = .space ↔ b = 32 := by
  have hletter (h : IsLetter b) := h.not_special.2.2
  unfold ofByte IsLetter at *
  split_ifs <;> simp_all

theorem ofByte_eq_ofByte {b c : UInt8} : ofByte b = ofByte c ↔ Alike b c := by
  have hclasses (x y : ByteClass) : x = y ↔ (x = .carriageReturn ↔ y = .carriageReturn) ∧
      (x = .lineFeed ↔ y = .lineFeed) ∧ (x = .letter ↔ y = .letter) ∧ (x = .space ↔ y = .space) := by
    cases x <;> cases y <;> simp
  rw [hclasses, ofByte_eq_carriageReturn, ofByte_eq_carriageReturn, ofByte_eq_lineFeed,
    ofByte_eq_lineFeed, ofByte_eq_letter, ofByte_eq_letter, ofByte_eq_space, ofByte_eq_space]
  rfl

/-- Two neighbouring bytes belong to different tokens after a line feed, and where the class changes, but not
between a carriage return and its line feed. -/
theorem joins_eq_false_iff {x y : ByteClass} :
    x.joins y = false ↔ x = .lineFeed ∨ (x ≠ y ∧ ¬ (x = .carriageReturn ∧ y = .lineFeed)) := by
  cases x <;> cases y <;> simp [joins]

end ByteClass

theorem Policy.cuts_eq_true_iff {p : Policy} {b c : UInt8} : p.cuts b c = true ↔ p.EndsBetween b c := by
  cases p with
  | line => exact beq_iff_eq
  | word => exact beq_iff_eq
  | wordClass =>
      rw [cuts, Bool.not_eq_true', ByteClass.joins_eq_false_iff, ne_eq, ByteClass.ofByte_eq_lineFeed,
        ByteClass.ofByte_eq_ofByte, ByteClass.ofByte_eq_carriageReturn, ByteClass.ofByte_eq_lineFeed]
      rfl
  | lineEnding => simp [cuts, EndsBetween]
  | ignoreBlanks => simp [cuts, EndsBetween]
  | ignoreWhitespace => simp [cuts, EndsBetween]

instance (p : Policy) (b c : UInt8) : Decidable (p.EndsBetween b c) :=
  decidable_of_iff (p.cuts b c = true) Policy.cuts_eq_true_iff

example : [(13, 10), (97, 200), (97, 32), (9, 33), (13, 13)].map
    (fun (b, c) => decide (Policy.wordClass.EndsBetween b c)) = [false, false, true, false, false] := by
  decide

/-! ## The places of the tokens -/

namespace Policy

variable {p : Policy} {text : List UInt8}

theorem place_zero (p : Policy) (text : List UInt8) : p.place text 0 = 0 := rfl

theorem place_length (p : Policy) (text : List UInt8) : p.place text (p.tokens text).length = text.length := by
  rw [place, List.take_length, flatten_tokens]

theorem place_lt_place {i j : Nat} (hij : i < j) (hj : j ≤ (p.tokens text).length) :
    p.place text i < p.place text j := by
  obtain ⟨n, rfl⟩ := Nat.exists_eq_add_of_lt hij
  have hi : i < (p.tokens text).length := by omega
  have hne := ne_nil_of_mem_tokens (List.getElem_mem hi)
  have hlen := List.length_pos_iff.2 hne
  rw [Nat.add_assoc, place_add, List.drop_eq_getElem_cons hi, List.take_succ_cons, List.flatten_cons,
    List.length_append]
  omega

theorem extract_place {i : Nat} (h : i < (p.tokens text).length) :
    text.extract (p.place text i) (p.place text (i + 1)) = (p.tokens text)[i] := by
  rw [List.extract_eq_take_drop, take_drop_place, Nat.add_sub_cancel_left, List.drop_eq_getElem_cons h,
    List.take_succ_cons, List.take_zero, List.flatten_singleton]

/-- A text can be cut in two where a token ends, and so a token starts there. -/
theorem exists_place_of_cuts {k : Nat} {b c : UInt8} (hb : text[k]? = some b) (hc : text[k + 1]? = some c)
    (hcut : p.cuts b c = true) : ∃ i, i ≤ (p.tokens text).length ∧ p.place text i = k + 1 := by
  have hk := (List.getElem?_eq_some_iff.1 hc).1
  have hsplit : p.tokens text = p.tokens (text.take (k + 1)) ++ p.tokens (text.drop (k + 1)) := by
    conv_lhs => rw [← List.take_append_drop (k + 1) text]
    refine List.splitBy_append fun b' hb' c' hc' => ?_
    rw [List.getLast?_take, if_neg (Nat.succ_ne_zero k), Nat.add_sub_cancel, hb] at hb'
    rw [List.head?_drop, hc] at hc'
    rw [← Option.some.inj hb', ← Option.some.inj hc', hcut]
    rfl
  refine ⟨(p.tokens (text.take (k + 1))).length, ?_, ?_⟩
  · rw [hsplit, List.length_append]
    exact Nat.le_add_right _ _
  · rw [place, hsplit, List.take_left, flatten_tokens, List.length_take]
    omega

end Policy

/-! ## Tables -/

/-- The tokens of the table are the pieces of a text: the first one starts at zero and the last one ends
where the text does, each of them starts after those before it, and together they are the text. -/
structure Table.Partitions (t : Table) (text : List UInt8) : Prop where
  first : t.offset? 0 = some 0
  last : t.offset? t.count = some text.length
  increasing : ∀ i j, i < j → j ≤ t.count →
    ∃ k l, t.offset? i = some k ∧ t.offset? j = some l ∧ k < l
  spans : ((List.range t.count).flatMap fun i =>
    text.extract ((t.offset? i).getD 0) ((t.offset? (i + 1)).getD 0)) = text

theorem partitions_table (p : Policy) (text : List UInt8) : (p.table text).Partitions text := by
  constructor
  case first => rw [offset?_table p text (Nat.zero_le _), p.place_zero]
  case last => rw [count_table, offset?_table p text (Nat.le_refl _), p.place_length]
  case increasing =>
    intro i j hij hj
    rw [count_table] at hj
    exact ⟨_, _, offset?_table p text (by omega), offset?_table p text hj, Policy.place_lt_place hij hj⟩
  case spans =>
    have hmap : ((List.range (p.table text).count).map fun i =>
        text.extract (((p.table text).offset? i).getD 0) (((p.table text).offset? (i + 1)).getD 0)) =
          p.tokens text := by
      rw [count_table]
      refine List.ext_getElem (by rw [List.length_map, List.length_range]) fun i _ hi => ?_
      rw [List.getElem_map, List.getElem_range, offset?_table p text (Nat.le_of_lt hi),
        offset?_table p text hi, Option.getD_some, Option.getD_some, Policy.extract_place hi]
    rw [List.flatMap_def, hmap, p.flatten_tokens]

/-- A token of the table starts between two bytes just if a token ends there. -/
theorem exists_offset?_iff (p : Policy) {text : List UInt8} {k : Nat} {b c : UInt8}
    (hb : text[k]? = some b) (hc : text[k + 1]? = some c) :
    (∃ i, (p.table text).offset? i = some (k + 1)) ↔ p.EndsBetween b c := by
  rw [← Policy.cuts_eq_true_iff]
  constructor
  · rintro ⟨i, hi⟩
    have hle : i ≤ (p.tokens text).length := by
      obtain ⟨entry, hentry, -⟩ := Option.map_eq_some_iff.1 hi
      have hlt := (Array.getElem?_eq_some_iff.1 hentry).1
      have hcount := count_table p text
      rw [Table.count] at hcount
      omega
    rw [offset?_table p text hle, Option.some_inj] at hi
    refine p.cuts_of_place text i ?_ ?_
    · rw [← p.take_place, hi, List.getLast?_take, if_neg (Nat.succ_ne_zero k), Nat.add_sub_cancel, hb]
      rfl
    · rw [← p.drop_place, hi, List.head?_drop, hc]
  · intro hcut
    obtain ⟨i, hle, hi⟩ := Policy.exists_place_of_cuts hb hc hcut
    exact ⟨i, by rw [offset?_table p text hle, hi]⟩

/-- However a text is handed out and buffered, it is cut into tokens that partition it, and between two
neighbouring bytes a token ends just if the policy asks for it. -/
theorem tokens_partition {source : Source} {text : List UInt8} (h : source.Replays text) (p : Policy)
    (tuning : Tuning) : ∃ s, Sequence.ofSource source p tuning = .ok s ∧ s.table.Partitions text ∧
      ∀ k b c, text[k]? = some b → text[k + 1]? = some c →
        ((∃ i, s.table.offset? i = some (k + 1)) ↔ p.EndsBetween b c) := by
  obtain ⟨⟨table, w⟩, hs, rfl, -⟩ := Sequence.exists_ofSource h p tuning
  exact ⟨_, hs, partitions_table p text, fun k b c hb hc => exists_offset?_iff p hb hc⟩

/-- The text ends in a carriage return without a line feed, and the window holds one byte. -/
theorem tokens_partition_of_pieces : ∃ s, Sequence.ofSource
      (.ofFeed "text" .raw [.bytes [97, 13], .interrupted, .bytes [10, 32, 13]] none) .ignoreBlanks
      { windowSize := 0 } = .ok s ∧ s.table.Partitions [97, 13, 10, 32, 13] ∧
    (∃ i, s.table.offset? i = some 3) ∧ ¬ ∃ i, s.table.offset? i = some 2 := by
  have hsource : (Source.ofFeed "text" .raw [.bytes [97, 13], .interrupted, .bytes [10, 32, 13]]
      none).Carries [97, 13, 10, 32, 13] :=
    fun _ => ⟨_, rfl, .bytes (by decide) (.interrupted (.bytes (by decide) .nil))⟩
  obtain ⟨s, hs, hparts, hends⟩ := tokens_partition (hsource.replays rfl) .ignoreBlanks { windowSize := 0 }
  refine ⟨s, hs, hparts, (hends 2 10 32 rfl rfl).2 (by decide), fun hstart => ?_⟩
  have hcut := (hends 1 13 10 rfl rfl).1 hstart
  exact absurd hcut (by decide)

end TokenDiff
