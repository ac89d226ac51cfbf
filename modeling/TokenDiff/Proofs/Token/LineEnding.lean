import TokenDiff.Proofs.Token.Calls
import TokenDiff.Proofs.Token.LineText
import TokenDiff.Proofs.Window.Decoding

/-!
# Lines compared up to their line ends

Under the policy that ignores line ends, two lines are read side by side as long as their bytes are the same.
Lines with one text are the same from either side, whatever their line ends, if their lengths differ by at most
one (`lineEnding_ignores_lineEnds`).

Where the bytes differ, the walk answers that the lines are the same if one of the two bytes is a line end. It
does not ask whether the other line is at the end of its text as well, and leaves it to the hashes to tell
apart a line and the start of it. They do not always (`Confused`), and these are the only lines with different
texts that are taken for the same (`lineEnding_faithful_iff_not_confused`).
-/

namespace TokenDiff

/-! ## The walk through two lines -/

theorem agreeLine_comm (last : UInt8) (xs ys : List UInt8) :
    agreeLine last xs ys = agreeLine last ys xs := by
  induction xs generalizing last ys with
  | nil =>
      rcases ys with _ | ⟨y, _ | ⟨z, ys⟩⟩ <;> rfl
  | cons x xs ih =>
      cases ys with
      | nil => cases xs <;> rfl
      | cons y ys =>
          rw [agreeLine, agreeLine]
          by_cases h : x = y
          · rw [if_pos h, if_pos h.symm, h, ih]
          · rw [if_neg h, if_neg (Ne.symm h), Bool.or_comm]

section

variable {last : UInt8} {text text' ending ending' xs ys : List UInt8}

theorem agreeLine_of_lineEnds (last : UInt8) (h : ending ∈ lineEnds) (h' : ending' ∈ lineEnds)
    (hlen : ending.length ≤ ending'.length + 1 ∧ ending'.length ≤ ending.length + 1) :
    agreeLine last ending ending' = true := by
  simp only [lineEnds, List.mem_cons, List.not_mem_nil, or_false] at h h'
  rcases h with rfl | rfl | rfl | rfl <;> rcases h' with rfl | rfl | rfl | rfl <;>
    first
    | rfl
    | exact absurd hlen (by decide)

/-- Where one text is at its end and the other one is not, the lines agree just if there is a line end. -/
theorem agreeLine_cons_iff (hend : ending ∈ lineEnds) (hlast : isNewline last = false) {y : UInt8}
    (hy : isNewline y = false) (ys : List UInt8) :
    agreeLine last ending (y :: ys) = true ↔ ending ≠ [] := by
  cases hending : ending with
  | nil =>
      have hnone : agreeLine last [] (y :: ys) = false := by cases ys <;> simp [agreeLine, hlast, hy]
      simp [hnone]
  | cons c rest =>
      have hc : isNewline c = true :=
        (IsLineOf.nil hend).isNewline_of_mem c (by rw [hending]; exact List.mem_cons_self)
      have hne : c ≠ y := fun h => by
        rw [h, hy] at hc
        cases hc
      rw [agreeLine, if_neg hne, hc, Bool.true_or]
      simp

namespace IsLineOf

theorem tail {b : UInt8} (h : IsLineOf (b :: text) ending xs) : IsLineOf text ending (text ++ ending) :=
  ⟨rfl, (List.forall_mem_cons.1 h.free).2, h.ending_mem⟩

theorem ending_ne_nil_iff (h : IsLineOf text ending xs) : ending ≠ [] ↔ withoutLineEnd xs ≠ xs := by
  rw [h.withoutLineEnd_eq, h.bytes_eq, ne_eq, ne_eq, List.self_eq_append_right]

/-- Two lines whose lengths differ by at most one agree just if they have one text, or the text of one of them
is the start of the other and ends with a line end. -/
theorem agreeLine_iff (hx : IsLineOf text ending xs) (hy : IsLineOf text' ending' ys)
    (hlast : isNewline last = false) (hlen : xs.length ≤ ys.length + 1 ∧ ys.length ≤ xs.length + 1) :
    agreeLine last xs ys = true ↔
      text = text' ∨ (ending ≠ [] ∧ text <+: text') ∨ (ending' ≠ [] ∧ text' <+: text) := by
  induction text generalizing last text' xs ys with
  | nil =>
      obtain rfl : xs = ending := hx.bytes_eq
      cases text' with
      | nil =>
          obtain rfl : ys = ending' := hy.bytes_eq
          simp [agreeLine_of_lineEnds last hx.ending_mem hy.ending_mem hlen]
      | cons y text' =>
          rw [hy.bytes_eq, List.cons_append,
            agreeLine_cons_iff hx.ending_mem hlast (hy.free y List.mem_cons_self)]
          simp
  | cons x text ih =>
      have hxline := hx.free x List.mem_cons_self
      cases text' with
      | nil =>
          obtain rfl : ys = ending' := hy.bytes_eq
          rw [agreeLine_comm, hx.bytes_eq, List.cons_append,
            agreeLine_cons_iff hy.ending_mem hlast hxline]
          simp
      | cons y text' =>
          have hyline := hy.free y List.mem_cons_self
          rw [hx.bytes_eq, hy.bytes_eq, List.cons_append, List.cons_append] at hlen ⊢
          rw [agreeLine, List.cons.injEq, List.cons_prefix_cons, List.cons_prefix_cons]
          by_cases hxy : x = y
          · rw [if_pos hxy, ih hx.tail hy.tail hxline (by simpa using hlen)]
            simp [hxy]
          · rw [if_neg hxy, hxline, hyline]
            simp [hxy, Ne.symm hxy]

end IsLineOf

end

/-! ## Lines that are the same -/

/-- The first line has a line end, and its text is the start of the text of the second one. -/
def StopsIn (xs ys : List UInt8) : Prop := withoutLineEnd xs ≠ xs ∧ withoutLineEnd xs <+: withoutLineEnd ys

/-- The lines have different texts, but the hashes do not tell them apart, nor do their lengths, and one of them
has a line end where the text of the other one goes on. -/
structure Confused (xs ys : List UInt8) : Prop where
  text_ne : withoutLineEnd xs ≠ withoutLineEnd ys
  hash_eq : rollingHash (lineForm xs) = rollingHash (lineForm ys)
  length_le : xs.length ≤ ys.length + 1 ∧ ys.length ≤ xs.length + 1
  stops : StopsIn xs ys ∨ StopsIn ys xs

section

variable {S T xs ys : List UInt8}

/-- Lines are the same if they have one text and their lengths differ by at most one, and if they are confused,
but not otherwise. -/
theorem same_lineEnding_iff (hx : xs ∈ Policy.lineEnding.tokens S) (hy : ys ∈ Policy.lineEnding.tokens T) :
    Policy.lineEnding.same xs ys = true ↔
      (withoutLineEnd xs = withoutLineEnd ys ∧ xs.length ≤ ys.length + 1 ∧ ys.length ≤ xs.length + 1) ∨
        Confused xs ys := by
  have hp : Policy.lineEnding.Lines := fun _ _ => rfl
  obtain ⟨text, ending, hline⟩ := hp.exists_isLineOf hx
  obtain ⟨text', ending', hline'⟩ := hp.exists_isLineOf hy
  have hwalk (hlen : xs.length ≤ ys.length + 1 ∧ ys.length ≤ xs.length + 1) :
      agreeLine 0 xs ys = true ↔
        withoutLineEnd xs = withoutLineEnd ys ∨ StopsIn xs ys ∨ StopsIn ys xs := by
    rw [hline.agreeLine_iff hline' rfl hlen, hline.ending_ne_nil_iff, hline'.ending_ne_nil_iff, StopsIn, StopsIn,
      hline.withoutLineEnd_eq, hline'.withoutLineEnd_eq]
  rw [Policy.same, Policy.hash, Policy.hash, canonical_lineEnding hx, canonical_lineEnding hy, Policy.agrees,
    Bool.and_eq_true, Bool.and_eq_true, beq_iff_eq, decide_eq_true_iff]
  constructor
  · rintro ⟨hhash, hlen, hagree⟩
    rcases (hwalk hlen).1 hagree with htext | hstops
    · exact .inl ⟨htext, hlen⟩
    · by_cases htext : withoutLineEnd xs = withoutLineEnd ys
      · exact .inl ⟨htext, hlen⟩
      · exact .inr ⟨htext, rollingHash_eq_iff.2 hhash, hlen, hstops⟩
  · rintro (⟨htext, hlen⟩ | hconfused)
    · exact ⟨by rw [lineForm, htext, lineForm], hlen, (hwalk hlen).2 (.inl htext)⟩
    · exact ⟨rollingHash_eq_iff.1 hconfused.hash_eq, hconfused.length_le,
        (hwalk hconfused.length_le).2 (.inr hconfused.stops)⟩

theorem same_lineEnding_comm (xs ys : List UInt8) :
    Policy.lineEnding.same xs ys = Policy.lineEnding.same ys xs := by
  have hlen : decide (xs.length ≤ ys.length + 1 ∧ ys.length ≤ xs.length + 1) =
      decide (ys.length ≤ xs.length + 1 ∧ xs.length ≤ ys.length + 1) := decide_eq_decide.2 and_comm
  rw [Policy.same, Policy.same, Policy.agrees, Policy.agrees, agreeLine_comm, BEq.comm, hlen]

end

/-! ## Sequences -/

namespace Sequence.Of

variable {S T : List UInt8} {old new : Sequence} {i j : Nat}

theorem alwaysAnswers_lineEnding (hold : old.Of .lineEnding S) (hnew : new.Of .lineEnding T)
    (hi : i < old.table.count) (hj : j < new.table.count) :
    ∃ answer, old.AlwaysAnswers new i j answer ∧
      (answer = true ↔
        (withoutLineEnd (old.table.tokenText S i) = withoutLineEnd (new.table.tokenText T j) ∧
          (old.table.tokenText S i).length ≤ (new.table.tokenText T j).length + 1 ∧
          (new.table.tokenText T j).length ≤ (old.table.tokenText S i).length + 1) ∨
        Confused (old.table.tokenText S i) (new.table.tokenText T j)) := by
  rw [hold.count_eq] at hi
  rw [hnew.count_eq] at hj
  refine ⟨_, hold.alwaysAnswers hnew hi hj (same_lineEnding_comm _ _), ?_⟩
  rw [hold.tokenText_eq hi, hnew.tokenText_eq hj]
  exact same_lineEnding_iff (List.getElem_mem hi) (List.getElem_mem hj)

end Sequence.Of

section

variable {source source' : Source} {S T : List UInt8}

/-- The hash of a line is that of its text and a line feed. Lines with one text whose lengths differ by at
most one are the same, and the answer does not depend on the side from which two lines are compared. -/
theorem lineEnding_ignores_lineEnds (hS : source.Replays S) (hT : source'.Replays T)
    (tuning tuning' : Tuning) :
    ∃ old new, Sequence.ofSource source .lineEnding tuning = .ok old ∧
      Sequence.ofSource source' .lineEnding tuning' = .ok new ∧
      old.HashesBy lineForm S ∧ new.HashesBy lineForm T ∧
      ∀ i < old.table.count, ∀ j < new.table.count, ∃ answer, old.AlwaysAnswers new i j answer ∧
        (withoutLineEnd (old.table.tokenText S i) = withoutLineEnd (new.table.tokenText T j) →
          (old.table.tokenText S i).length ≤ (new.table.tokenText T j).length + 1 →
          (new.table.tokenText T j).length ≤ (old.table.tokenText S i).length + 1 → answer = true) := by
  obtain ⟨old, hopen, hold⟩ := Sequence.exists_ofSource hS .lineEnding tuning
  obtain ⟨new, hopen', hnew⟩ := Sequence.exists_ofSource hT .lineEnding tuning'
  refine ⟨old, new, hopen, hopen', hold.hashesBy fun _ => canonical_lineEnding,
    hnew.hashesBy fun _ => canonical_lineEnding, fun i hi j hj => ?_⟩
  obtain ⟨answer, hanswers, hiff⟩ := hold.alwaysAnswers_lineEnding hnew hi hj
  exact ⟨answer, hanswers, fun htext hlen hlen' => hiff.2 (.inl ⟨htext, hlen, hlen'⟩)⟩

/-- The line ends are those of two systems in the first lines, and one is missing in the second ones. -/
theorem lineEnding_ignores_lineEnds_of_pieces : ∃ old new,
    Sequence.ofSource (.ofFeed "old" .raw [.bytes [97, 13], .interrupted, .bytes [10, 98]] none) .lineEnding
      { windowSize := 0 } = .ok old ∧
    Sequence.ofSource (.ofBytes "new" .raw [97, 10, 98, 13]) .lineEnding { windowSize := 1 } = .ok new ∧
    (old.table.hash? 1).map UInt32.toNat = some (293 * 98 + 10) ∧
    (new.table.hash? 1).map UInt32.toNat = some (293 * 98 + 10) ∧
    old.AlwaysAnswers new 0 0 true ∧ old.AlwaysAnswers new 1 1 true := by
  have hsource : (Source.ofFeed "old" .raw [.bytes [97, 13], .interrupted, .bytes [10, 98]] none).Carries
      [97, 13, 10, 98] :=
    fun _ => ⟨_, rfl, .bytes (by decide) (.interrupted (.bytes (by decide) .nil))⟩
  have hS := hsource.replays rfl
  have hT := Source.replays_ofBytes "new" [97, 10, 98, 13]
  obtain ⟨old, new, hold, hnew, hhash, hhash', hanswers⟩ :=
    lineEnding_ignores_lineEnds hS hT { windowSize := 0 } { windowSize := 1 }
  have hcount : old.table.count = 2 := (Sequence.of_ofSource hS hold).count_eq
  have hcount' : new.table.count = 2 := (Sequence.of_ofSource hT hnew).count_eq
  have htext : old.table.tokenText [97, 13, 10, 98] 0 = [97, 13, 10] ∧
      old.table.tokenText [97, 13, 10, 98] 1 = [98] := by
    rw [(Sequence.of_ofSource hS hold).table]
    decide
  have htext' : new.table.tokenText [97, 10, 98, 13] 0 = [97, 10] ∧
      new.table.tokenText [97, 10, 98, 13] 1 = [98, 13] := by
    rw [(Sequence.of_ofSource hT hnew).table]
    decide
  obtain ⟨answer, hfirst, hsame⟩ := hanswers 0 (by omega) 0 (by omega)
  obtain ⟨answer', hsecond, hsame'⟩ := hanswers 1 (by omega) 1 (by omega)
  rw [htext.1, htext'.1] at hsame
  rw [htext.2, htext'.2] at hsame'
  obtain rfl : answer = true := hsame (by decide) (by decide) (by decide)
  obtain rfl : answer' = true := hsame' (by decide) (by decide) (by decide)
  refine ⟨old, new, hold, hnew, ?_, ?_, hfirst, hsecond⟩
  · rw [hhash 1 (by omega), htext.2]
    decide
  · rw [hhash' 1 (by omega), htext'.2]
    decide

/-- Two lines that are taken for the same have one text, unless they are confused. Lines that are confused have
different texts and are taken for the same. -/
theorem lineEnding_faithful_iff_not_confused (hS : source.Replays S) (hT : source'.Replays T)
    (tuning tuning' : Tuning) :
    ∃ old new, Sequence.ofSource source .lineEnding tuning = .ok old ∧
      Sequence.ofSource source' .lineEnding tuning' = .ok new ∧
      ∀ i < old.table.count, ∀ j < new.table.count, ∃ answer, old.AlwaysAnswers new i j answer ∧
        ((answer = true →
            withoutLineEnd (old.table.tokenText S i) = withoutLineEnd (new.table.tokenText T j)) ↔
          ¬ Confused (old.table.tokenText S i) (new.table.tokenText T j)) := by
  obtain ⟨old, hopen, hold⟩ := Sequence.exists_ofSource hS .lineEnding tuning
  obtain ⟨new, hopen', hnew⟩ := Sequence.exists_ofSource hT .lineEnding tuning'
  refine ⟨old, new, hopen, hopen', fun i hi j hj => ?_⟩
  obtain ⟨answer, hanswers, hiff⟩ := hold.alwaysAnswers_lineEnding hnew hi hj
  refine ⟨answer, hanswers, fun hfaithful hconfused => ?_, fun hnot hsame => ?_⟩
  · exact hconfused.text_ne (hfaithful (hiff.2 (.inr hconfused)))
  · exact ((hiff.1 hsame).resolve_right hnot).1

/-- A line that consists of the byte zero and a line feed is taken for an empty one, although the texts differ:
the byte leaves the hash as it is, and the walk stops at the line feed of the empty line. -/
theorem lineEnding_confuses_zero_line : ∃ old new,
    Sequence.ofSource (.ofBytes "old" .raw [0, 10]) .lineEnding { windowSize := 0 } = .ok old ∧
    Sequence.ofSource (.ofBytes "new" .raw [10]) .lineEnding { windowSize := 1 } = .ok new ∧
    old.table.tokenText [0, 10] 0 = [0, 10] ∧ new.table.tokenText [10] 0 = [10] ∧
    withoutLineEnd [0, 10] ≠ withoutLineEnd [10] ∧ old.AlwaysAnswers new 0 0 true := by
  have hS := Source.replays_ofBytes "old" [0, 10]
  have hT := Source.replays_ofBytes "new" [10]
  obtain ⟨old, new, hold, hnew, hanswers⟩ :=
    lineEnding_faithful_iff_not_confused hS hT { windowSize := 0 } { windowSize := 1 }
  have hcount : old.table.count = 1 := (Sequence.of_ofSource hS hold).count_eq
  have hcount' : new.table.count = 1 := (Sequence.of_ofSource hT hnew).count_eq
  have htext : old.table.tokenText [0, 10] 0 = [0, 10] := by
    rw [(Sequence.of_ofSource hS hold).table]
    decide
  have htext' : new.table.tokenText [10] 0 = [10] := by
    rw [(Sequence.of_ofSource hT hnew).table]
    decide
  have hconfused : Confused [0, 10] [10] :=
    ⟨by decide, by decide, by decide, .inr ⟨by decide, by decide⟩⟩
  obtain ⟨answer, hanswer, hiff⟩ := hanswers 0 (by omega) 0 (by omega)
  rw [htext, htext', iff_not_comm] at hiff
  obtain ⟨rfl, hne⟩ := Classical.not_imp.1 (hiff.1 hconfused)
  exact ⟨old, new, hold, hnew, htext, htext', hne, hanswer⟩

end

end TokenDiff
