import TokenDiff.Proofs.Token.Calls
import TokenDiff.Proofs.Token.LineText
import TokenDiff.Proofs.Window.Decoding

/-!
# Lines compared up to blank space

The two policies that ignore blank space compare lines by a form of their text (`ignoreBlanks_exact`,
`ignoreWhitespace_exact`). A pass makes the hash from the form, byte after byte, while the comparison walks
through two lines side by side and never makes a form of either.

What a walk does in one round is the same under both policies, but for the bytes that it passes over, so the
induction over the rounds is done once (`Walked.agreeWalk_iff`), for forms of which four things are known: which
lines they make nothing of, that other bytes count as they are, that what is passed over on both sides makes no
difference, and that a blank that is not passed over makes one. Nothing but line ends comes after a line end
(`OneLine`); without this a walk could stop at a line end and leave more of the line behind.
-/

namespace TokenDiff

/-! ## Bytes of one line -/

/-- Nothing but line ends comes after a line end. -/
def OneLine (bytes : List UInt8) : Prop :=
  bytes.Pairwise fun b c => isNewline b = true → isNewline c = true

theorem isBlankOrNewline_eq_false_iff {b : UInt8} :
    isBlankOrNewline b = false ↔ isBlank b = false ∧ isNewline b = false := Bool.or_eq_false_iff

theorem unterminated_cons {b : UInt8} (hb : isNewline b = false) (xs : List UInt8) :
    unterminated (b :: xs) = b :: unterminated xs :=
  unterminated_append (List.forall_mem_singleton.2 hb) xs

theorem IsLineOf.oneLine {text ending line : List UInt8} (h : IsLineOf text ending line) : OneLine line := by
  rw [h.bytes_eq]
  refine List.pairwise_append.2 ⟨?_, ?_, fun b hb c hc _ => h.isNewline_of_mem c hc⟩
  · refine List.pairwise_of_forall_mem_list fun b hb c _ hline => ?_
    rw [h.free b hb] at hline
    cases hline
  · exact List.pairwise_of_forall_mem_list fun b _ c hc _ => h.isNewline_of_mem c hc

theorem Policy.Lines.oneLine {p : Policy} {content line : List UInt8} (hp : p.Lines)
    (h : line ∈ p.tokens content) : OneLine line := by
  obtain ⟨text, ending, hline⟩ := hp.exists_isLineOf h
  exact hline.oneLine

namespace OneLine

variable {b : UInt8} {xs : List UInt8}

theorem tail (h : OneLine (b :: xs)) : OneLine xs := (List.pairwise_cons.1 h).2

theorem dropWhile (h : OneLine xs) (p : UInt8 → Bool) : OneLine (xs.dropWhile p) :=
  h.sublist (List.dropWhile_sublist p)

theorem blankOrNewline_of_newline (h : OneLine (b :: xs)) (hb : isNewline b = true) :
    ∀ c ∈ b :: xs, isBlankOrNewline c = true := by
  refine List.forall_mem_cons.2 ⟨?_, fun c hc => ?_⟩
  · rw [isBlankOrNewline, hb, Bool.or_true]
  · rw [isBlankOrNewline, (List.pairwise_cons.1 h).1 c hc hb, Bool.or_true]

theorem blank_iff (h : OneLine xs) :
    (∀ b ∈ unterminated xs, isBlank b = true) ↔ ∀ b ∈ xs, isBlankOrNewline b = true := by
  induction xs with
  | nil => simp [unterminated]
  | cons b xs ih =>
      cases hb : isNewline b with
      | true =>
          rw [unterminated_newline hb]
          exact ⟨fun _ => h.blankOrNewline_of_newline hb, fun _ => by simp⟩
      | false =>
          rw [unterminated_cons hb, List.forall_mem_cons, List.forall_mem_cons, ih h.tail, isBlankOrNewline, hb,
            Bool.or_false]

end OneLine

/-! ## Walks and the forms they decide -/

/-- What is needed of a form for the walk that passes over the bytes `skips` names to decide it. -/
structure Walked (skips : Bool → UInt8 → Bool) (form : List UInt8 → List UInt8) : Prop where
  nil_iff : ∀ {xs : List UInt8}, OneLine xs → (form xs = [] ↔ ∀ b ∈ xs, isBlankOrNewline b = true)
  cons : ∀ {b : UInt8} (xs : List UInt8), isBlankOrNewline b = false → form (b :: xs) = b :: form xs
  skip_iff : ∀ {xs ys : List UInt8}, OneLine xs → OneLine ys → ∀ {both : Bool},
    both = (xs.head?.any isBlankOrNewline && ys.head?.any isBlankOrNewline) →
    (form (xs.dropWhile (skips both)) = form (ys.dropWhile (skips both)) ↔ form xs = form ys)
  blank : ∀ {xs ys : List UInt8}, OneLine xs → ∀ {both : Bool},
    both = (xs.head?.any isBlankOrNewline && ys.head?.any isBlankOrNewline) →
    ∀ {x y : UInt8} {xs' ys' : List UInt8},
      xs.dropWhile (skips both) = x :: xs' → ys.dropWhile (skips both) = y :: ys' →
      isBlank x = true → x ≠ y ∧ form (x :: xs') ≠ form (y :: ys')

namespace Walked

variable {skips : Bool → UInt8 → Bool} {form : List UInt8 → List UInt8} {xs ys : List UInt8}

theorem stop_iff (h : Walked skips form) (hx : OneLine xs) (hy : OneLine ys)
    (hnil : form xs = form ys → form xs = []) :
    (xs.all isBlankOrNewline && ys.all isBlankOrNewline) = true ↔ form xs = form ys := by
  rw [Bool.and_eq_true, List.all_eq_true, List.all_eq_true, ← h.nil_iff hx, ← h.nil_iff hy]
  exact ⟨fun ⟨hxs, hys⟩ => hxs.trans hys.symm, fun hsame => ⟨hnil hsame, hsame ▸ hnil hsame⟩⟩

theorem same_iff (h : Walked skips form) {x : UInt8} (hx : OneLine (x :: xs)) (hy : OneLine (x :: ys))
    (hblank : isBlank x = false) : form (x :: xs) = form (x :: ys) ↔ form xs = form ys := by
  cases hline : isNewline x with
  | true =>
      have hnil {zs : List UInt8} (hz : OneLine (x :: zs)) : form (x :: zs) = [] ∧ form zs = [] := by
        have hall := hz.blankOrNewline_of_newline hline
        exact ⟨(h.nil_iff hz).2 hall, (h.nil_iff hz.tail).2 (List.forall_mem_cons.1 hall).2⟩
      rw [(hnil hx).1, (hnil hy).1, (hnil hx).2, (hnil hy).2]
  | false =>
      have hcounts := isBlankOrNewline_eq_false_iff.2 ⟨hblank, hline⟩
      rw [h.cons xs hcounts, h.cons ys hcounts, List.cons.injEq, eq_self_iff_true, true_and]

/-- Lines that go on with different bytes, none of them blank, are the same only if nothing counts of them. -/
theorem eq_nil_of_ne (h : Walked skips form) {x y : UInt8} (hx : OneLine (x :: xs)) (hy : OneLine (y :: ys))
    (hblank : isBlank x = false) (hblank' : isBlank y = false) (hne : x ≠ y)
    (hsame : form (x :: xs) = form (y :: ys)) : form (x :: xs) = [] := by
  cases hline : isNewline x with
  | true => exact (h.nil_iff hx).2 (hx.blankOrNewline_of_newline hline)
  | false =>
      cases hline' : isNewline y with
      | true => exact hsame.trans ((h.nil_iff hy).2 (hy.blankOrNewline_of_newline hline'))
      | false =>
          rw [h.cons xs (isBlankOrNewline_eq_false_iff.2 ⟨hblank, hline⟩),
            h.cons ys (isBlankOrNewline_eq_false_iff.2 ⟨hblank', hline'⟩)] at hsame
          exact absurd (List.cons.inj hsame).1 hne

/-- Two lines agree just if their forms are the same. -/
theorem agreeWalk_iff (h : Walked skips form) (hx : OneLine xs) (hy : OneLine ys) :
    agreeWalk skips xs ys = true ↔ form xs = form ys := by
  have hempty : form [] = [] := (h.nil_iff List.Pairwise.nil).2 (by simp)
  fun_induction agreeWalk skips xs ys with
  | case1 xs ys hnil =>
      refine h.stop_iff hx hy fun hsame => ?_
      rcases hnil with rfl | rfl
      · exact hempty
      · exact hsame.trans hempty
  | case2 xs ys hsome both xs' y ys' hright hleft ih =>
      have hx' := hx.dropWhile (skips both)
      have hy' := hy.dropWhile (skips both)
      rw [hleft] at hx'
      rw [hright] at hy'
      have hblank : isBlank y = false :=
        Bool.eq_false_iff.2 fun hy => (h.blank hx rfl hleft hright hy).1 rfl
      refine (ih hx'.tail hy'.tail).trans ?_
      rw [← h.skip_iff hx hy rfl, hleft, hright, h.same_iff hx' hy' hblank]
  | case3 xs ys hsome both x xs' y ys' hleft hright hne =>
      have hx' := hx.dropWhile (skips both)
      have hy' := hy.dropWhile (skips both)
      rw [← h.skip_iff hx hy rfl, hleft, hright]
      rw [hleft] at hx'
      rw [hright] at hy'
      refine h.stop_iff hx' hy' fun hsame => ?_
      have hblank : isBlank x = false :=
        Bool.eq_false_iff.2 fun hx'' => (h.blank hx rfl hleft hright hx'').2 hsame
      have hblank' : isBlank y = false := Bool.eq_false_iff.2 fun hy'' =>
        (h.blank hy (Bool.and_comm _ _) hright hleft hy'').2 hsame.symm
      exact h.eq_nil_of_ne hx' hy' hblank hblank' hne hsame
  | case4 xs ys hsome both hnone =>
      rw [← h.skip_iff hx hy rfl]
      refine h.stop_iff (hx.dropWhile _) (hy.dropWhile _) fun hsame => ?_
      cases hleft : xs.dropWhile (skips both) with
      | nil => exact hempty
      | cons x xs' =>
          cases hright : ys.dropWhile (skips both) with
          | nil => rw [← hleft, hsame, hright, hempty]
          | cons y ys' => exact (hnone x xs' y ys' hleft hright).elim

end Walked

/-! ## Up to all blank space -/

theorem not_of_dropWhile_eq_cons {p : UInt8 → Bool} {xs xs' : List UInt8} {x : UInt8}
    (h : xs.dropWhile p = x :: xs') : p x = false := by
  have hhead := List.head?_dropWhile_not p xs
  rw [h] at hhead
  exact hhead

theorem unterminated_blanks {blanks : List UInt8} (h : ∀ b ∈ blanks, isBlank b = true) (xs : List UInt8) :
    unterminated (blanks ++ xs) = blanks ++ unterminated xs :=
  unterminated_append (fun b hb => not_newline_of_blank (h b hb)) xs

theorem solid_unterminated_dropWhile (xs : List UInt8) :
    solid (unterminated (xs.dropWhile isBlank)) = solid (unterminated xs) := by
  have hblanks : ∀ b ∈ xs.takeWhile isBlank, isBlank b = true := fun b hb => List.mem_takeWhile_imp hb
  conv_rhs => rw [← List.takeWhile_append_dropWhile (p := isBlank) (l := xs)]
  rw [unterminated_blanks hblanks, solid_append, solid_blanks hblanks, List.nil_append]

theorem walked_whitespace : Walked (fun _ => isBlank) Policy.ignoreWhitespace.canonical where
  nil_iff hx := by
    rw [← hx.blank_iff, Policy.canonical, solid, List.filter_eq_nil_iff]
    simp
  cons {b} xs hb := by
    obtain ⟨hblank, hline⟩ := isBlankOrNewline_eq_false_iff.1 hb
    rw [Policy.canonical, Policy.canonical, unterminated_cons hline, solid,
      List.filter_cons_of_pos (by simp [hblank]), solid]
  skip_iff {xs ys} _ _ _ _ := by
    change solid (unterminated (xs.dropWhile isBlank)) = solid (unterminated (ys.dropWhile isBlank)) ↔ _
    rw [solid_unterminated_dropWhile, solid_unterminated_dropWhile]
    rfl
  blank _ _ _ _ _ _ _ hleft _ hblank := by
    rw [not_of_dropWhile_eq_cons hleft] at hblank
    cases hblank

/-! ## Up to the amount of blank space -/

theorem squeeze_eq_nil_iff {bytes : List UInt8} : squeeze bytes = [] ↔ ∀ b ∈ bytes, isBlank b = true := by
  refine ⟨fun h => ?_, squeeze_blanks⟩
  rcases exists_blanks bytes with hall | ⟨more, f, text, rfl, hmore, hf⟩
  · exact hall
  · by_cases hne : more = []
    · rw [hne, List.nil_append, squeeze_cons_of_not_blank hf] at h
      cases h
    · rw [squeeze_blanks_append hne hmore hf] at h
      cases h

def indent (form : List UInt8) : List UInt8 := if form = [] then [] else 32 :: form

theorem indent_inj {xs ys : List UInt8} : indent xs = indent ys ↔ xs = ys := by
  refine ⟨fun h => ?_, congrArg indent⟩
  unfold indent at h
  split_ifs at h with hx hy
  · rw [hx, hy]
  · exact (List.cons.inj h).2

/-- Blanks at the start of a line count as one space, unless nothing counts of the line. -/
theorem squeeze_unterminated_of_blank {b : UInt8} {xs : List UInt8} (hb : isBlank b = true) :
    squeeze (unterminated (b :: xs)) = indent (squeeze (unterminated ((b :: xs).dropWhile isBlank))) := by
  rcases exists_blanks (b :: xs) with hall | ⟨more, f, text, hbytes, hmore, hf⟩
  · have hnil : (b :: xs).dropWhile isBlank = [] := List.dropWhile_eq_nil_iff.2 hall
    have hself := unterminated_blanks hall []
    rw [List.append_nil] at hself
    rw [hnil, hself, squeeze_blanks (List.forall_mem_append.2 ⟨hall, by simp [unterminated]⟩)]
    rfl
  · have hne : more ≠ [] := by
      rintro rfl
      rw [(List.cons.inj hbytes).1, hf] at hb
      cases hb
    have hdrop : (more ++ f :: text).dropWhile isBlank = f :: text := by
      rw [List.dropWhile_append_of_pos hmore, List.dropWhile_cons_of_neg (by simp [hf])]
    rw [hbytes, hdrop, unterminated_blanks hmore]
    cases hline : isNewline f with
    | true =>
        rw [unterminated_newline hline, List.append_nil, squeeze_blanks hmore]
        rfl
    | false =>
        rw [unterminated_cons hline, squeeze_blanks_append hne hmore hf, squeeze_cons_of_not_blank hf]
        rfl

/-- A line that starts with a blank or a line end has the form of what comes after its blanks, indented. -/
theorem squeeze_unterminated_indent {xs : List UInt8} (hx : OneLine xs)
    (hhead : xs.head?.any isBlankOrNewline = true) :
    squeeze (unterminated xs) = indent (squeeze (unterminated (xs.dropWhile isBlank))) := by
  cases xs with
  | nil => rfl
  | cons b xs =>
      cases hb : isBlank b with
      | true => exact squeeze_unterminated_of_blank hb
      | false =>
          have hline : isNewline b = true := by simpa [isBlankOrNewline, hb] using hhead
          rw [List.dropWhile_cons_of_neg (by simp [hb]), unterminated_newline hline]
          rfl

theorem dropWhile_none (p : UInt8 → Bool) (xs : List UInt8) : xs.dropWhile (fun b => false && p b) = xs :=
  List.dropWhile_eq_self_iff.2 fun _ h => Bool.false_ne_true h

theorem walked_blanks : Walked (fun both b => both && isBlank b) Policy.ignoreBlanks.canonical where
  nil_iff hx := by
    rw [← hx.blank_iff, Policy.canonical, squeeze_eq_nil_iff]
  cons {b} xs hb := by
    obtain ⟨hblank, hline⟩ := isBlankOrNewline_eq_false_iff.1 hb
    rw [Policy.canonical, Policy.canonical, unterminated_cons hline, squeeze_cons_of_not_blank hblank]
  skip_iff {xs ys} hx hy both hboth := by
    cases both with
    | false => rw [dropWhile_none, dropWhile_none]
    | true =>
        obtain ⟨hleft, hright⟩ := Bool.and_eq_true_iff.1 hboth.symm
        simp only [Bool.true_and, Policy.canonical]
        rw [squeeze_unterminated_indent hx hleft, squeeze_unterminated_indent hy hright, indent_inj]
  blank {xs ys} hx both hboth x y xs' ys' hleft hright hblank := by
    cases both with
    | true =>
        have hnot := not_of_dropWhile_eq_cons hleft
        rw [Bool.true_and, hblank] at hnot
        cases hnot
    | false =>
        -- nothing has been passed over, so the other side starts with a byte that counts as it is
        rw [dropWhile_none] at hleft hright
        have hcounts : isBlankOrNewline y = false := by
          rw [hleft, hright] at hboth
          simpa [isBlankOrNewline, hblank] using hboth
        obtain ⟨hblank', hline'⟩ := isBlankOrNewline_eq_false_iff.1 hcounts
        have hne : y ≠ 32 := fun h => by
          rw [h] at hblank'
          cases hblank'
        refine ⟨fun h => ?_, ?_⟩
        · rw [h, hblank'] at hblank
          cases hblank
        · rw [Policy.canonical, Policy.canonical, squeeze_unterminated_of_blank hblank,
            unterminated_cons hline', squeeze_cons_of_not_blank hblank', indent]
          split_ifs with hnil
          · exact (List.cons_ne_nil _ _).symm
          · exact fun h => hne (List.cons.inj h).1.symm

/-! ## Sequences -/

/-- A policy on lines whose walk decides what counts of a line compares by the form that counts. -/
theorem Walked.comparesBy {p : Policy} {skips : Bool → UInt8 → Bool} {form : List UInt8 → List UInt8}
    (h : Walked skips p.canonical) (hp : p.Lines) (hwalk : ∀ xs ys, p.agrees xs ys = agreeWalk skips xs ys)
    (hform : ∀ {content line : List UInt8}, line ∈ p.tokens content → p.canonical line = form line) :
    p.ComparesBy form where
  canonical_eq := hform
  agrees_iff hxs hys := by
    rw [hwalk, h.agreeWalk_iff (hp.oneLine hxs) (hp.oneLine hys), hform hxs, hform hys]

theorem comparesBy_ignoreBlanks : Policy.ignoreBlanks.ComparesBy blankForm :=
  walked_blanks.comparesBy (fun _ _ => rfl) (fun _ _ => rfl) canonical_ignoreBlanks

theorem comparesBy_ignoreWhitespace : Policy.ignoreWhitespace.ComparesBy solidForm :=
  walked_whitespace.comparesBy (fun _ _ => rfl) (fun _ _ => rfl) canonical_ignoreWhitespace

section

variable {source source' : Source} {S T : List UInt8}

/-- Lines compared up to the amount of blank space are the same just if their texts are, once the blanks at
their ends are dropped and each other run of them is one space. -/
theorem ignoreBlanks_exact (hS : source.Replays S) (hT : source'.Replays T) (tuning tuning' : Tuning) :
    ∃ old new, Sequence.ofSource source .ignoreBlanks tuning = .ok old ∧
      Sequence.ofSource source' .ignoreBlanks tuning' = .ok new ∧ old.ComparesBy blankForm S T new :=
  comparesBy_ignoreBlanks.exists_comparesBy hS hT tuning tuning'

/-- The first lines differ in their blanks and line ends alone. The second ones have the same hash, which the
byte zero at the start of a line leaves as it is. -/
theorem ignoreBlanks_exact_of_pieces : ∃ old new,
    Sequence.ofSource (.ofFeed "old" .raw [.bytes [97, 32], .interrupted, .bytes [9, 98, 32, 13, 10, 0, 99]]
      none) .ignoreBlanks { windowSize := 0 } = .ok old ∧
    Sequence.ofSource (.ofBytes "new" .raw [97, 32, 98, 10, 99, 9]) .ignoreBlanks { windowSize := 1 } =
      .ok new ∧
    old.AlwaysAnswers new 0 0 true ∧ (old.table.hash? 1).map UInt32.toNat = some 99 ∧
    (new.table.hash? 1).map UInt32.toNat = some 99 ∧ old.AlwaysAnswers new 1 1 false := by
  have hsource : (Source.ofFeed "old" .raw [.bytes [97, 32], .interrupted,
      .bytes [9, 98, 32, 13, 10, 0, 99]] none).Carries [97, 32, 9, 98, 32, 13, 10, 0, 99] :=
    fun _ => ⟨_, rfl, .bytes (by decide) (.interrupted (.bytes (by decide) .nil))⟩
  have hS := hsource.replays rfl
  have hT := Source.replays_ofBytes "new" [97, 32, 98, 10, 99, 9]
  obtain ⟨old, new, hold, hnew, hcompares⟩ := ignoreBlanks_exact hS hT { windowSize := 0 } { windowSize := 1 }
  have hcount : old.table.count = 2 := (Sequence.of_ofSource hS hold).count_eq
  have hcount' : new.table.count = 2 := (Sequence.of_ofSource hT hnew).count_eq
  have htext : old.table.tokenText [97, 32, 9, 98, 32, 13, 10, 0, 99] 0 = [97, 32, 9, 98, 32, 13, 10] ∧
      old.table.tokenText [97, 32, 9, 98, 32, 13, 10, 0, 99] 1 = [0, 99] := by
    rw [(Sequence.of_ofSource hS hold).table]
    decide
  have htext' : new.table.tokenText [97, 32, 98, 10, 99, 9] 0 = [97, 32, 98, 10] ∧
      new.table.tokenText [97, 32, 98, 10, 99, 9] 1 = [99, 9] := by
    rw [(Sequence.of_ofSource hT hnew).table]
    decide
  have hfirst := hcompares.equal 0 (by omega) 0 (by omega)
  have hsecond := hcompares.equal 1 (by omega) 1 (by omega)
  rw [htext.1, htext'.1] at hfirst
  rw [htext.2, htext'.2] at hsecond
  refine ⟨old, new, hold, hnew, hfirst, ?_, ?_, hsecond⟩
  · rw [hcompares.hash_old 1 (by omega), htext.2]
    decide
  · rw [hcompares.hash_new 1 (by omega), htext'.2]
    decide

/-- Lines compared up to all blank space are the same just if their texts are, once the blanks are dropped. -/
theorem ignoreWhitespace_exact (hS : source.Replays S) (hT : source'.Replays T) (tuning tuning' : Tuning) :
    ∃ old new, Sequence.ofSource source .ignoreWhitespace tuning = .ok old ∧
      Sequence.ofSource source' .ignoreWhitespace tuning' = .ok new ∧ old.ComparesBy solidForm S T new :=
  comparesBy_ignoreWhitespace.exists_comparesBy hS hT tuning tuning'

/-- The first lines differ in their blanks and line ends alone. The second ones have the same hash, and there is
a blank at the end of the text. -/
theorem ignoreWhitespace_exact_of_pieces : ∃ old new,
    Sequence.ofSource (.ofFeed "old" .raw [.bytes [9, 97], .bytes [32, 98, 13, 0, 99, 32]] none)
      .ignoreWhitespace { windowSize := 1 } = .ok old ∧
    Sequence.ofSource (.ofBytes "new" .raw [97, 98, 13, 10, 99]) .ignoreWhitespace { windowSize := 0 } =
      .ok new ∧
    old.AlwaysAnswers new 0 0 true ∧ (old.table.hash? 1).map UInt32.toNat = some 99 ∧
    (new.table.hash? 1).map UInt32.toNat = some 99 ∧ old.AlwaysAnswers new 1 1 false := by
  have hsource : (Source.ofFeed "old" .raw [.bytes [9, 97], .bytes [32, 98, 13, 0, 99, 32]] none).Carries
      [9, 97, 32, 98, 13, 0, 99, 32] :=
    fun _ => ⟨_, rfl, .bytes (by decide) (.bytes (by decide) .nil)⟩
  have hS := hsource.replays rfl
  have hT := Source.replays_ofBytes "new" [97, 98, 13, 10, 99]
  obtain ⟨old, new, hold, hnew, hcompares⟩ :=
    ignoreWhitespace_exact hS hT { windowSize := 1 } { windowSize := 0 }
  have hcount : old.table.count = 2 := (Sequence.of_ofSource hS hold).count_eq
  have hcount' : new.table.count = 2 := (Sequence.of_ofSource hT hnew).count_eq
  have htext : old.table.tokenText [9, 97, 32, 98, 13, 0, 99, 32] 0 = [9, 97, 32, 98, 13] ∧
      old.table.tokenText [9, 97, 32, 98, 13, 0, 99, 32] 1 = [0, 99, 32] := by
    rw [(Sequence.of_ofSource hS hold).table]
    decide
  have htext' : new.table.tokenText [97, 98, 13, 10, 99] 0 = [97, 98, 13, 10] ∧
      new.table.tokenText [97, 98, 13, 10, 99] 1 = [99] := by
    rw [(Sequence.of_ofSource hT hnew).table]
    decide
  have hfirst := hcompares.equal 0 (by omega) 0 (by omega)
  have hsecond := hcompares.equal 1 (by omega) 1 (by omega)
  rw [htext.1, htext'.1] at hfirst
  rw [htext.2, htext'.2] at hsecond
  refine ⟨old, new, hold, hnew, hfirst, ?_, ?_, hsecond⟩
  · rw [hcompares.hash_old 1 (by omega), htext.2]
    decide
  · rw [hcompares.hash_new 1 (by omega), htext'.2]
    decide

end

end TokenDiff
