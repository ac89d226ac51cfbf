import Mathlib.Data.List.DropRight
import TokenDiff.Flags

/-!
# What a compact string asks for

A compact string is read from the left, one character at a time, and a letter of the grid is taken for what
the letters before it have made of the grid. What the whole string asks for can be said without that order
(`Flags.asked`): the last letter of its kind decides on the style and on the policy, the digits spell the width
of the context wherever they stand, and of the letters of the grid only those after the last two-way letter
count, each kind of them once. That the reader comes to the same settings is shown for one more character at the
end (`Flags.asked_concat`), setting by setting.
-/

namespace TokenDiff

/-! ## The characters with a meaning -/

def Format.letters : List Char := ['c', 'C', 'u', 'U', 'n', 's', 'h', 'H', 'v']

def Policy.letters : List Char := ['l', 'b', 'w', 'h', 'H', 'v']

namespace Grid

def guardLetters : List Char := ['g', 'G']

def threeWayLetters : List Char := ['x', 'X']

def twoWayLetters : List Char := ['t', 'T']

end Grid

/-- The character is one of those that set something. -/
def IsSetting (c : Char) : Prop :=
  c.isDigit = true ∨ c ∈ Format.letters ++ Policy.letters ++ Grid.guardLetters ++ Grid.threeWayLetters ++
    Grid.twoWayLetters

instance (c : Char) : Decidable (IsSetting c) := inferInstanceAs (Decidable (_ ∨ _))

theorem Format.ofLetter?_eq_none_iff {c : Char} : ofLetter? c = none ↔ c ∉ letters := by
  unfold ofLetter? letters
  split <;> simp_all

theorem Policy.ofLetter?_eq_none_iff {c : Char} : ofLetter? c = none ↔ c ∉ letters := by
  unfold ofLetter? letters
  split <;> simp_all

/-! ## What a text asks for -/

/-- The last of some letters in a text. -/
def lastAmong (letters text : List Char) : Option Char := (text.filter (· ∈ letters)).getLast?

/-- The grid for the kinds of letters that count. Without any there is what the last two-way letter asks for, or
the default. -/
def Grid.ofLetters (guarded threeWay twoWay : Bool) : Grid :=
  match guarded, threeWay with
  | true, true => .guardedDiff3
  | true, false => .guarded
  | false, true => .diff3
  | false, false => if twoWay then .twoWay else .optimal

/-- The part of a text after its last two-way letter, which is the whole text if there is none. -/
def Grid.counted (text : List Char) : List Char := text.rtakeWhile (· ∉ twoWayLetters)

/-- The number that the digits of a text spell, in the order they stand in. -/
def spelledNumber (text : List Char) : Nat := Nat.ofDigitChars 10 (text.filter Char.isDigit) 0

/-- The settings that a text asks for. -/
def Flags.asked (text : List Char) : Flags where
  format := ((lastAmong Format.letters text).bind Format.ofLetter?).getD .normal
  policy := ((lastAmong Policy.letters text).bind Policy.ofLetter?).getD .line
  grid := .ofLetters ((Grid.counted text).any (· ∈ Grid.guardLetters))
    ((Grid.counted text).any (· ∈ Grid.threeWayLetters)) (text.any (· ∈ Grid.twoWayLetters))
  context := if text.any Char.isDigit then some (min (spelledNumber text) (Word.modulus - 1)) else none

/-! ## One more character -/

theorem lastAmong_concat (letters text : List Char) (c : Char) :
    lastAmong letters (text ++ [c]) = if c ∈ letters then some c else lastAmong letters text := by
  rw [lastAmong, List.filter_append, List.filter_singleton]
  by_cases hc : c ∈ letters
  · rw [if_pos hc, decide_eq_true hc, cond_true, List.getLast?_concat]
  · rw [if_neg hc, decide_eq_false hc, cond_false, List.append_nil, lastAmong]

/-- A letter of its kind replaces the one before, and any other character leaves it. -/
theorem getD_lastAmong_concat {α : Type} {letters : List Char} {ofLetter? : Char → Option α}
    (h : ∀ {c}, ofLetter? c = none ↔ c ∉ letters) (a : α) (text : List Char) (c : Char) :
    ((lastAmong letters (text ++ [c])).bind ofLetter?).getD a =
      (ofLetter? c).getD (((lastAmong letters text).bind ofLetter?).getD a) := by
  rw [lastAmong_concat]
  by_cases hc : c ∈ letters
  · obtain ⟨b, hb⟩ := Option.ne_none_iff_exists'.1 fun hnone => h.1 hnone hc
    rw [if_pos hc, Option.bind_some, hb]
    rfl
  · rw [if_neg hc, h.2 hc, Option.getD_none]

namespace Grid

theorem counted_concat (text : List Char) (c : Char) :
    counted (text ++ [c]) = if c ∈ twoWayLetters then [] else counted text ++ [c] := by
  rw [counted, List.rtakeWhile_concat]
  by_cases hc : c ∈ twoWayLetters
  · rw [if_pos hc, if_neg (by simpa using hc)]
  · rw [if_neg hc, if_pos (by simpa using hc), counted]

theorem read_of_not_mem {c : Char} (hguard : c ∉ guardLetters) (hthree : c ∉ threeWayLetters)
    (htwo : c ∉ twoWayLetters) (grid : Grid) : grid.read c = grid := by
  unfold read
  split <;> simp_all [guardLetters, threeWayLetters, twoWayLetters]

/-- A letter of the grid counts besides those that count before it, except for a two-way letter, after which
none of them count. -/
theorem ofLetters_read (guarded threeWay twoWay : Bool) (c : Char) :
    (ofLetters guarded threeWay twoWay).read c =
      if c ∈ twoWayLetters then .twoWay
      else ofLetters (guarded || c ∈ guardLetters) (threeWay || c ∈ threeWayLetters) twoWay := by
  by_cases htwo : c ∈ twoWayLetters
  · rw [if_pos htwo]
    simp only [twoWayLetters, List.mem_cons, List.not_mem_nil, or_false] at htwo
    rcases htwo with rfl | rfl <;> cases guarded <;> cases threeWay <;> cases twoWay <;> rfl
  rw [if_neg htwo]
  by_cases hguard : c ∈ guardLetters
  · simp only [guardLetters, List.mem_cons, List.not_mem_nil, or_false] at hguard
    rcases hguard with rfl | rfl <;> cases guarded <;> cases threeWay <;> cases twoWay <;> rfl
  by_cases hthree : c ∈ threeWayLetters
  · simp only [threeWayLetters, List.mem_cons, List.not_mem_nil, or_false] at hthree
    rcases hthree with rfl | rfl <;> cases guarded <;> cases threeWay <;> cases twoWay <;> rfl
  rw [read_of_not_mem hguard hthree htwo, decide_eq_false hguard, decide_eq_false hthree, Bool.or_false,
    Bool.or_false]

end Grid

theorem spelledNumber_concat (text : List Char) (c : Char) :
    spelledNumber (text ++ [c]) =
      if c.isDigit then 10 * spelledNumber text + (c.toNat - '0'.toNat) else spelledNumber text := by
  rw [spelledNumber, List.filter_append, List.filter_singleton, Nat.ofDigitChars_append]
  cases c.isDigit <;> rfl

theorem readWidth_of_clamp {width : Option Nat} {n : Nat} (h : width.getD 0 = Word.clamp n) {c : Char}
    (hc : c.isDigit = true) : readWidth width c = some (Word.clamp (10 * n + (c.toNat - '0'.toNat))) := by
  rw [readWidth, if_pos hc, h, Option.some_inj]
  unfold Word.clamp
  omega

namespace Flags

theorem asked_format_concat (text : List Char) (c : Char) :
    (asked (text ++ [c])).format = ((asked text).read c).format :=
  getD_lastAmong_concat Format.ofLetter?_eq_none_iff .normal text c

theorem asked_policy_concat (text : List Char) (c : Char) :
    (asked (text ++ [c])).policy = ((asked text).read c).policy :=
  getD_lastAmong_concat Policy.ofLetter?_eq_none_iff .line text c

theorem asked_grid_concat (text : List Char) (c : Char) :
    (asked (text ++ [c])).grid = ((asked text).read c).grid := by
  change _ = (Grid.ofLetters _ _ _).read c
  rw [Grid.ofLetters_read]
  simp only [asked, Grid.counted_concat, List.any_append, List.any_cons, List.any_nil, Bool.or_false]
  by_cases hc : c ∈ Grid.twoWayLetters
  · rw [if_pos hc, if_pos hc, decide_eq_true hc, Bool.or_true]
    rfl
  · rw [if_neg hc, if_neg hc, decide_eq_false hc, Bool.or_false, List.any_append]
    simp

theorem asked_context_concat (text : List Char) (c : Char) :
    (asked (text ++ [c])).context = ((asked text).read c).context := by
  change _ = readWidth (asked text).context c
  simp only [asked, spelledNumber_concat, List.any_append, List.any_cons, List.any_nil, Bool.or_false]
  cases hc : c.isDigit with
  | true =>
      rw [Bool.or_true, if_pos rfl, if_pos rfl]
      refine (readWidth_of_clamp ?_ hc).symm
      cases hdigits : text.any Char.isDigit with
      | true => rfl
      | false =>
          -- where no digit is there yet, none of them spell zero
          rw [spelledNumber, List.filter_eq_nil_iff.2 (List.any_eq_false.1 hdigits)]
          rfl
  | false =>
      rw [Bool.or_false, readWidth, hc]
      rfl

/-- One more character is read into what the text before it asks for. -/
theorem asked_concat (text : List Char) (c : Char) : asked (text ++ [c]) = (asked text).read c := by
  have hformat := asked_format_concat text c
  have hpolicy := asked_policy_concat text c
  have hgrid := asked_grid_concat text c
  have hcontext := asked_context_concat text c
  rcases hasked : asked (text ++ [c]) with ⟨format, policy, grid, context⟩
  rw [hasked] at hformat hpolicy hgrid hcontext
  rw [mk.injEq]
  exact ⟨hformat, hpolicy, hgrid, hcontext⟩

theorem foldl_read (text : List Char) : text.foldl read {} = asked text := by
  induction text using List.reverseRecOn with
  | nil => rfl
  | append_singleton text c ih => rw [List.foldl_concat, ih, asked_concat]

theorem read_of_not_isSetting {c : Char} (h : ¬ IsSetting c) (flags : Flags) : flags.read c = flags := by
  simp only [IsSetting, List.mem_append, not_or] at h
  obtain ⟨hdigit, ⟨⟨⟨hformat, hpolicy⟩, hguard⟩, hthree⟩, htwo⟩ := h
  rw [read, Format.ofLetter?_eq_none_iff.2 hformat, Policy.ofLetter?_eq_none_iff.2 hpolicy,
    Grid.read_of_not_mem hguard hthree htwo, readWidth, if_neg hdigit]
  rfl

theorem foldl_read_of_not_isSetting {other : List Char} (h : ∀ c ∈ other, ¬ IsSetting c) (flags : Flags) :
    other.foldl read flags = flags := by
  induction other with
  | nil => rfl
  | cons c other ih =>
      obtain ⟨hc, hrest⟩ := List.forall_mem_cons.1 h
      rw [List.foldl_cons, read_of_not_isSetting hc, ih hrest]

example : (parse "u9g99999999999999999999").context = some 18446744073709551615 := by decide +kernel

end Flags

end TokenDiff
