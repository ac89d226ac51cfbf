import Mathlib.Data.List.DropRight
import TokenDiff.Proofs.Token.Blanks

/-!
# The text of a line

What counts of a line, said of its bytes alone: its text (`withoutLineEnd`) with one line feed (`lineForm`), the
text with its blank space made alike (`blankForm`), and the text without blank space (`solidForm`). A pass takes
the hash of a line from `unterminated` and `squeeze`, which look at one byte after the other; that these come
to the same (`withoutLineEnd_eq_unterminated`, `squeeze_eq_spaced`) holds because a line of a text has its line
end, if any, at its end (`IsLineOf`).
-/

namespace TokenDiff

/-! ## Line ends -/

def lineEnds : List (List UInt8) := [[], [13], [10], [13, 10]]

/-- The line consists of a text and a line end, which may be missing. -/
structure IsLineOf (text ending line : List UInt8) : Prop where
  bytes_eq : line = text ++ ending
  free : ∀ b ∈ text, isNewline b = false
  ending_mem : ending ∈ lineEnds

/-- A line without the carriage return, the line feed, or the pair of them that it ends with. -/
def withoutLineEnd (line : List UInt8) : List UInt8 :=
  if [13, 10] <:+ line then line.take (line.length - 2)
  else if line.getLast?.any isNewline then line.dropLast
  else line

/-- The text of a line with one line feed, whatever the line ends with. -/
def lineForm (line : List UInt8) : List UInt8 := withoutLineEnd line ++ [10]

namespace IsLineOf

variable {text ending line : List UInt8}

theorem nil (h : ending ∈ lineEnds) : IsLineOf [] ending ending := ⟨rfl, by simp, h⟩

theorem cons {b : UInt8} (hb : isNewline b = false) (h : IsLineOf text ending line) :
    IsLineOf (b :: text) ending (b :: line) :=
  ⟨by rw [h.bytes_eq, List.cons_append], List.forall_mem_cons.2 ⟨hb, h.free⟩, h.ending_mem⟩

theorem isNewline_of_mem (h : IsLineOf text ending line) : ∀ b ∈ ending, isNewline b = true := by
  have hends : lineEnds.all (fun ending => ending.all isNewline) = true := by decide
  exact List.all_eq_true.1 (List.all_eq_true.1 hends ending h.ending_mem)

/-- A line ends with its line end, and with the whole of it. -/
theorem withoutLineEnd_eq (h : IsLineOf text ending line) : withoutLineEnd line = text := by
  obtain ⟨rfl, hfree, hend⟩ := h
  have hnot {b : UInt8} (hb : isNewline b = true) : b ∉ text := fun hmem => by
    rw [hfree b hmem] at hb
    cases hb
  simp only [lineEnds, List.mem_cons, List.not_mem_nil, or_false] at hend
  rw [withoutLineEnd]
  rcases hend with rfl | rfl | rfl | rfl
  · rw [List.append_nil]
    have hpair : ¬ [13, 10] <:+ text := fun hsuffix => hnot rfl (hsuffix.subset List.mem_cons_self)
    have hlast : ¬ text.getLast?.any isNewline = true := fun hany => by
      obtain ⟨b, hb, hline⟩ := (Option.any_eq_true _ _).1 hany
      exact hnot hline (List.mem_of_getLast? hb)
    rw [if_neg hpair, if_neg hlast]
  · have hpair : ¬ [13, 10] <:+ text ++ [13] := fun ⟨pre, hpre⟩ => by
      rw [List.append_cons] at hpre
      exact absurd (List.append_inj_right' hpre rfl) (by decide)
    have hline : (some (13 : UInt8)).any isNewline = true := rfl
    rw [if_neg hpair, List.getLast?_concat, if_pos hline, List.dropLast_concat]
  · have hpair : ¬ [13, 10] <:+ text ++ [10] := fun ⟨pre, hpre⟩ => by
      rw [List.append_cons] at hpre
      have htext := List.append_inj_left' hpre rfl
      exact hnot (b := 13) rfl (by rw [← htext]; simp)
    have hline : (some (10 : UInt8)).any isNewline = true := rfl
    rw [if_neg hpair, List.getLast?_concat, if_pos hline, List.dropLast_concat]
  · rw [if_pos (List.suffix_append text [13, 10]), List.length_append]
    exact List.take_left

theorem unterminated_eq (h : IsLineOf text ending line) : unterminated line = text := by
  rw [h.bytes_eq, unterminated_append h.free]
  cases hend : ending with
  | nil => exact List.append_nil text
  | cons b rest =>
      have hb := h.isNewline_of_mem b (by rw [hend]; exact List.mem_cons_self)
      rw [unterminated_newline hb, List.append_nil]

end IsLineOf

section

variable {p : Policy} {content line : List UInt8}

/-- Bytes between which no line ends are a text and a line end. -/
theorem exists_isLineOf_of_isChain
    (h : line.IsChain fun b c => (b == 10 || (b == 13 && c != 10)) = false) :
    ∃ text ending, IsLineOf text ending line := by
  induction line with
  | nil => exact ⟨[], [], .nil (by decide)⟩
  | cons b rest ih =>
      obtain ⟨text, ending, hrest⟩ := ih h.tail
      cases hb : isNewline b with
      | false => exact ⟨b :: text, ending, hrest.cons hb⟩
      | true =>
          -- after a line feed nothing comes, after a carriage return at most a line feed
          rw [isNewline, Bool.or_eq_true, beq_iff_eq, beq_iff_eq] at hb
          rcases hb with rfl | rfl
          · cases rest with
            | nil => exact ⟨[], [13], .nil (by decide)⟩
            | cons c rest =>
                obtain rfl : c = 10 := by simpa using (List.isChain_cons_cons.1 h).1
                cases rest with
                | nil => exact ⟨[], [13, 10], .nil (by decide)⟩
                | cons d rest => exact absurd (List.isChain_cons_cons.1 h.tail).1 (by simp)
          · cases rest with
            | nil => exact ⟨[], [10], .nil (by decide)⟩
            | cons c rest => exact absurd (List.isChain_cons_cons.1 h).1 (by simp)

theorem Policy.Lines.exists_isLineOf (hp : p.Lines) (h : line ∈ p.tokens content) :
    ∃ text ending, IsLineOf text ending line :=
  exists_isLineOf_of_isChain <| (List.isChain_of_mem_splitBy h).imp fun b c hbc => by
    rwa [Bool.not_eq_true', hp b c] at hbc

theorem Policy.Lines.withoutLineEnd_eq_unterminated (hp : p.Lines) (h : line ∈ p.tokens content) :
    withoutLineEnd line = unterminated line := by
  obtain ⟨text, ending, hline⟩ := hp.exists_isLineOf h
  rw [hline.withoutLineEnd_eq, hline.unterminated_eq]

end

/-! ## Blank space -/

/-- The bytes with each maximal run of blanks made one space. -/
def spaced (bytes : List UInt8) : List UInt8 :=
  (bytes.splitBy fun b c => isBlank b && isBlank c).flatMap fun run =>
    if run.all isBlank then [32] else run

/-- The text of a line without the blanks at its end, and with one space for each other run of them. -/
def blankForm (line : List UInt8) : List UInt8 := spaced ((withoutLineEnd line).rdropWhile isBlank)

/-- The text of a line without its blanks. -/
def solidForm (line : List UInt8) : List UInt8 := (withoutLineEnd line).filter fun b => !isBlank b

example : (blankForm [32, 97, 9, 32, 98, 32, 13, 10], solidForm [32, 97, 9, 32, 98, 32, 13, 10]) =
    ([32, 97, 32, 98], [97, 98]) := by decide

theorem spaced_cons_of_not_blank {b : UInt8} (h : isBlank b = false) (bytes : List UInt8) :
    spaced (b :: bytes) = b :: spaced bytes := by
  have hsplit : (b :: bytes).splitBy (fun b c => isBlank b && isBlank c) =
      [b] :: bytes.splitBy fun b c => isBlank b && isBlank c := by
    refine List.splitBy_append (l := [b]) fun x hx y _ => ?_
    rw [List.getLast?_singleton, Option.mem_some_iff] at hx
    rw [← hx, h, Bool.false_and]
  rw [spaced, hsplit, List.flatMap_cons]
  simp [h, spaced]

theorem spaced_blanks_append {blanks : List UInt8} (hne : blanks ≠ []) (h : ∀ b ∈ blanks, isBlank b = true)
    {b : UInt8} (hb : isBlank b = false) (bytes : List UInt8) :
    spaced (blanks ++ b :: bytes) = 32 :: spaced (b :: bytes) := by
  have hchain : blanks.IsChain fun b c => (isBlank b && isBlank c) = true := by
    refine (List.pairwise_of_forall_mem_list fun x hx y hy => ?_).isChain
    rw [h x hx, h y hy, Bool.true_and]
  have hsplit := List.splitBy_append_cons (r := fun b c => isBlank b && isBlank c) (l := blanks) bytes
    fun x _ => by rw [hb, Bool.and_false]
  rw [spaced, hsplit, List.splitBy_of_isChain hne hchain, List.singleton_append, List.flatMap_cons,
    if_pos (List.all_eq_true.2 h)]
  rfl

/-- Bytes that do not end in a blank are squeezed by making each run of blanks one space. -/
theorem squeeze_eq_spaced_of_getLast? {bytes : List UInt8} (h : ∀ b ∈ bytes.getLast?, isBlank b = false) :
    squeeze bytes = spaced bytes := by
  induction hlen : bytes.length using Nat.strong_induction_on generalizing bytes with
  | _ len ih =>
      rcases exists_blanks bytes with hall | ⟨more, f, text, rfl, hmore, hf⟩
      · have hnil : bytes = [] := by
          by_contra hne
          have hlast := h _ (List.getLast?_eq_some_getLast hne)
          rw [hall _ (List.getLast_mem hne)] at hlast
          cases hlast
        rw [hnil]
        rfl
      · have htext : squeeze text = spaced text := by
          refine ih _ ?_ (fun b hb => ?_) rfl
          · rw [← hlen, List.length_append, List.length_cons]
            omega
          · have hne : text ≠ [] := fun hnil => by
              rw [hnil] at hb
              cases hb
            refine h b ?_
            rwa [List.append_cons, List.getLast?_append_of_ne_nil _ hne]
        by_cases hne : more = []
        · rw [hne, List.nil_append, squeeze_cons_of_not_blank hf, spaced_cons_of_not_blank hf, htext]
        · rw [squeeze_blanks_append hne hmore hf, spaced_blanks_append hne hmore hf,
            spaced_cons_of_not_blank hf, htext]

theorem squeeze_eq_spaced (bytes : List UInt8) : squeeze bytes = spaced (bytes.rdropWhile isBlank) := by
  have hlast : ∀ b ∈ (bytes.rdropWhile isBlank).getLast?, isBlank b = false := by
    intro b hb
    obtain ⟨hne, rfl⟩ := List.mem_getLast?_eq_getLast hb
    exact Bool.eq_false_iff.2 (List.rdropWhile_last_not isBlank bytes hne)
  conv_lhs => rw [← List.rdropWhile_append_rtakeWhile (p := isBlank) (l := bytes)]
  rw [squeeze_append hlast, squeeze_blanks fun b hb => List.mem_rtakeWhile_imp hb, List.append_nil,
    squeeze_eq_spaced_of_getLast? hlast]

/-! ## What counts of a token -/

section

variable {content line : List UInt8}

theorem canonical_lineEnding (h : line ∈ Policy.lineEnding.tokens content) :
    Policy.lineEnding.canonical line = lineForm line := by
  have hp : Policy.lineEnding.Lines := fun _ _ => rfl
  rw [lineForm, hp.withoutLineEnd_eq_unterminated h]
  rfl

theorem canonical_ignoreBlanks (h : line ∈ Policy.ignoreBlanks.tokens content) :
    Policy.ignoreBlanks.canonical line = blankForm line := by
  have hp : Policy.ignoreBlanks.Lines := fun _ _ => rfl
  rw [blankForm, hp.withoutLineEnd_eq_unterminated h, ← squeeze_eq_spaced]
  rfl

theorem canonical_ignoreWhitespace (h : line ∈ Policy.ignoreWhitespace.tokens content) :
    Policy.ignoreWhitespace.canonical line = solidForm line := by
  have hp : Policy.ignoreWhitespace.Lines := fun _ _ => rfl
  rw [solidForm, hp.withoutLineEnd_eq_unterminated h]
  rfl

end

end TokenDiff
