import TokenDiff.Proofs.Window.Tape

/-!
# Copying from a tape

A copy takes bytes from the cursor on and translates their line ends, which makes of a list of bytes what
`LineType.translate` says. How many it uses up depends on the type of the line ends, on the room there is for
what is written and on the number of bytes that may be read. `LineType.used` says which bytes these are: they
are cut into the pieces that become one byte each, and as many pieces are taken as there is room for. What a
copy answers is then the translation of the bytes it has used (`answers_copy`).
-/

namespace TokenDiff

namespace LineType

/-- The bytes with each carriage return dropped that a line feed follows. -/
def collapse : List UInt8 → List UInt8
  | [] => []
  | [b] => [b]
  | b :: c :: bytes => if b = 13 ∧ c = 10 then collapse (c :: bytes) else b :: collapse (c :: bytes)

/-- What becomes of a list of bytes. -/
def translate : LineType → List UInt8 → List UInt8
  | .raw, bytes => bytes
  | .cr, bytes => bytes.map fun b => if b = 13 then 10 else b
  | .crLf, bytes | .lfCrLf, bytes => collapse bytes

@[simp] theorem translate_nil (type : LineType) : type.translate [] = [] := by
  cases type <;> rfl

def collapses : LineType → Bool
  | .raw | .cr => false
  | .crLf | .lfCrLf => true

/-- The bytes one by one, but a carriage return together with the line feed that follows it. -/
def pairs : List UInt8 → List (List UInt8)
  | [] => []
  | [b] => [[b]]
  | b :: c :: bytes => if b = 13 ∧ c = 10 then [b, c] :: pairs bytes else [b] :: pairs (c :: bytes)

def pieces (type : LineType) (bytes : List UInt8) : List (List UInt8) :=
  if type.collapses then pairs bytes else bytes.map ([·])

/-- The number of bytes that are looked at where `length` may be: one more if a carriage return would be
separated from its line feed. -/
def reach (type : LineType) (length : Nat) (bytes : List UInt8) : Nat :=
  if type.collapses ∧ 0 < length ∧ bytes[length - 1]? = some 13 ∧ bytes[length]? = some 10 then length + 1
  else length

/-- The bytes that are used up where `room` bytes may be written and `length` bytes may be read. -/
def used (type : LineType) (room length : Nat) (bytes : List UInt8) : List UInt8 :=
  ((type.pieces (bytes.take (type.reach length bytes))).take room).flatten

theorem flatten_pairs (bytes : List UInt8) : (pairs bytes).flatten = bytes := by
  fun_induction pairs bytes with
  | case1 => rfl
  | case2 b => rfl
  | case3 b c bytes h ih => rw [List.flatten_cons, ih]; rfl
  | case4 b c bytes h ih => rw [List.flatten_cons, ih]; rfl

theorem flatten_singletons (bytes : List UInt8) : (bytes.map ([·])).flatten = bytes := by
  rw [← List.flatMap_def]
  exact List.flatMap_singleton' bytes

theorem flatten_pieces (type : LineType) (bytes : List UInt8) : (type.pieces bytes).flatten = bytes := by
  unfold pieces
  split
  · exact flatten_pairs bytes
  · exact flatten_singletons bytes

theorem used_isPrefix (type : LineType) (room length : Nat) (bytes : List UInt8) :
    type.used room length bytes <+: bytes := by
  have hpieces : type.used room length bytes <+: bytes.take (type.reach length bytes) := by
    obtain ⟨left, hleft⟩ := List.take_prefix room (type.pieces (bytes.take (type.reach length bytes)))
    refine ⟨left.flatten, ?_⟩
    rw [used, ← List.flatten_append, hleft, flatten_pieces]
  exact List.IsPrefix.trans hpieces (List.take_prefix _ _)

theorem used_head? {type : LineType} {room length : Nat} {bytes : List UInt8} {b : UInt8}
    (h : (type.used room length bytes).head? = some b) : bytes.head? = some b := by
  obtain ⟨left, hleft⟩ := used_isPrefix type room length bytes
  rw [← hleft, List.head?_append, h]
  rfl

theorem pairs_cons_of_not {b : UInt8} {bytes : List UInt8} (h : ¬(b = 13 ∧ bytes.head? = some 10)) :
    pairs (b :: bytes) = [b] :: pairs bytes := by
  cases bytes with
  | nil => rfl
  | cons c bytes => rw [pairs, if_neg (by simpa using h)]

theorem collapse_cons_of_not {b : UInt8} {bytes : List UInt8} (h : ¬(b = 13 ∧ bytes.head? = some 10)) :
    collapse (b :: bytes) = b :: collapse bytes := by
  cases bytes with
  | nil => rfl
  | cons c bytes => rw [collapse, if_neg (by simpa using h)]

theorem collapse_pair (bytes : List UInt8) : collapse (13 :: 10 :: bytes) = 10 :: collapse bytes := by
  rw [collapse, if_pos ⟨rfl, rfl⟩, collapse_cons_of_not (by simp)]

section

variable {type : LineType} {room length : Nat} {b : UInt8} {bytes : List UInt8}

theorem used_of_not_collapses (h : type.collapses = false) (room length : Nat) (bytes : List UInt8) :
    type.used room length bytes = bytes.take (min room length) := by
  rw [used, reach, if_neg (by simp [h]), pieces, if_neg (by simp [h]), ← List.map_take,
    flatten_singletons, List.take_take]

theorem used_zero_left : type.used 0 length bytes = [] := by
  rw [used, List.take_zero, List.flatten_nil]

theorem used_zero_right : type.used room 0 bytes = [] := by
  have hnone : type.pieces [] = [] := by
    unfold pieces
    split <;> rfl
  rw [used, reach, if_neg (by simp), List.take_zero, hnone, List.take_nil, List.flatten_nil]

theorem used_nil : type.used room length [] = [] :=
  List.prefix_nil.1 (used_isPrefix type room length [])

/-- A carriage return and its line feed are used up together, also where only one more byte may be
read. -/
theorem used_pair (h : type.collapses = true) :
    type.used (room + 1) (length + 1) (13 :: 10 :: bytes) =
      13 :: 10 :: type.used room (length - 1) bytes := by
  have hreach : type.reach (length + 1) (13 :: 10 :: bytes) = type.reach (length - 1) bytes + 2 := by
    match length with
    | 0 => simp [reach, h]
    | 1 => simp [reach]
    | length + 2 =>
        simp only [reach, Nat.add_sub_cancel, List.getElem?_cons_succ, Nat.zero_lt_succ, true_and,
          Nat.add_succ_sub_one]
        split <;> rfl
  rw [used, hreach, List.take_succ_cons, List.take_succ_cons, pieces, if_pos h, pairs,
    if_pos ⟨rfl, rfl⟩, List.take_succ_cons, List.flatten_cons, used, pieces, if_pos h]
  rfl

theorem used_cons (h : type.collapses = true) (hb : ¬(b = 13 ∧ bytes.head? = some 10)) :
    type.used (room + 1) (length + 1) (b :: bytes) = b :: type.used room length bytes := by
  have hreach : type.reach (length + 1) (b :: bytes) = type.reach length bytes + 1 := by
    cases length with
    | zero =>
        rw [List.head?_eq_getElem?] at hb
        simp [reach, hb]
    | succ length =>
        simp only [reach, Nat.add_sub_cancel, List.getElem?_cons_succ, Nat.zero_lt_succ, true_and]
        split <;> rfl
  have htake : ¬(b = 13 ∧ (bytes.take (type.reach length bytes)).head? = some 10) := by
    rintro ⟨hcr, hlf⟩
    refine hb ⟨hcr, ?_⟩
    rw [List.head?_take] at hlf
    split at hlf
    · cases hlf
    · exact hlf
  rw [used, hreach, List.take_succ_cons, pieces, if_pos h, pairs_cons_of_not htake,
    List.take_succ_cons, List.flatten_cons, used, pieces, if_pos h]
  rfl

end

end LineType

theorem Tape.forward_length_take (t : Tape) (n : Nat) :
    t.forward (t.rest.take n).length = t.forward n := by
  have := t.cursor_le
  ext1
  · rfl
  · rw [forward_cursor, forward_cursor, List.length_take, length_rest]
    omega

namespace Window

/-- Taking bytes from the buffer, which is filled again as often as it takes. -/
theorem answers_take (t : Tape) (n : Nat) :
    Answers (Shows t) (take n) (t.rest.take n) (Shows (t.forward n)) := by
  induction n using Nat.strong_induction_on generalizing t with
  | _ n ih =>
      intro w h
      rw [take]
      by_cases hn : n = 0
      · rw [if_pos hn, hn, Tape.forward_zero]
        exact ⟨w, rfl, h⟩
      · rw [if_neg hn]
        obtain ⟨w₁, hready, h₁⟩ := h.ready
        change ∃ next, EStateM.bind ready _ w = .ok (t.rest.take n) next ∧ _
        rw [EStateM.bind, hready]
        dsimp only
        by_cases hzero : w₁.available = 0
        · rw [if_pos hzero, h₁.rest_nil hzero, List.take_nil,
            t.forward_of_rest_nil (h₁.rest_nil hzero)]
          exact ⟨w₁, rfl, h₁.toShows⟩
        · rw [if_neg hzero]
          have hspan : min w₁.available n ≤ w₁.available := Nat.min_le_left _ _
          obtain ⟨w₂, hrest, h₂⟩ := ih (n - min w₁.available n) (by omega) _ _ (h₁.toShows.skip hspan)
          have hsplit : min w₁.available n + (n - min w₁.available n) = n := by omega
          rw [Tape.forward_forward, hsplit] at h₂
          refine ⟨w₂, ?_, h₂⟩
          change EStateM.bind (take (n - min w₁.available n)) _ _ = _
          rw [EStateM.bind, hrest]
          change EStateM.Result.ok (_ ++ _) w₂ = _
          rw [h₁.toShows.span hspan, Tape.rest_forward, ← List.take_add, hsplit]

theorem answers_takeCollapsed {type : LineType} (htype : type.collapses = true) (t : Tape)
    (room length : Nat) :
    Answers (Shows t) (takeCollapsed room length) (LineType.collapse (type.used room length t.rest))
      (Shows (t.forward (type.used room length t.rest).length)) := by
  induction room generalizing t length with
  | zero =>
      rw [LineType.used_zero_left, List.length_nil, Tape.forward_zero, takeCollapsed]
      exact Answers.pure []
  | succ room ih =>
      cases length with
      | zero =>
          rw [LineType.used_zero_right, List.length_nil, Tape.forward_zero]
          exact Answers.pure []
      | succ length =>
          rw [takeCollapsed]
          refine (answers_next? t).bind ?_
          cases hpeek : t.peek? with
          | none =>
              have hrest := t.peek?_eq_none.1 hpeek
              rw [hrest, LineType.used_nil, List.length_nil, t.forward_of_rest_nil hrest,
                t.forward_of_rest_nil hrest]
              exact Answers.pure []
          | some b =>
              have hrest := t.peek?_eq_some.1 hpeek
              dsimp only
              by_cases hpair : b = 13 ∧ (t.forward 1).peek? = some 10
              · obtain ⟨rfl, hlf⟩ := hpair
                have hrest' := (t.forward 1).peek?_eq_some.1 hlf
                have hlen : (t.forward 1).forward 1 = t.forward 2 := t.forward_forward 1 1
                rw [hlen] at hrest'
                have hcopy := ih (t.forward 2) (length - 1)
                rw [hrest, hrest', LineType.used_pair htype, LineType.collapse_pair, List.length_cons,
                  List.length_cons, Nat.add_assoc, Nat.add_comm, ← Tape.forward_forward, if_pos rfl]
                refine (answers_peek? _).bind ?_
                rw [if_pos hlf]
                refine Answers.bind ((answers_advance _).mono (fun w h => h.toShows) fun w h => h) ?_
                rw [hlen]
                exact hcopy.bind (Answers.pure _)
              · have hone : Answers (Shows (t.forward 1))
                    (do return b :: (← takeCollapsed room length))
                    (b :: LineType.collapse (type.used room length (t.forward 1).rest))
                    (Shows (t.forward (type.used (room + 1) (length + 1) t.rest).length)) := by
                  rw [hrest, LineType.used_cons htype hpair, List.length_cons, Nat.add_comm,
                    ← Tape.forward_forward]
                  exact (ih (t.forward 1) length).bind (Answers.pure _)
                have hcollapse : LineType.collapse (type.used (room + 1) (length + 1) t.rest) =
                    b :: LineType.collapse (type.used room length (t.forward 1).rest) := by
                  rw [hrest, LineType.used_cons htype hpair, LineType.collapse_cons_of_not]
                  rintro ⟨hcr, hlf⟩
                  exact hpair ⟨hcr, LineType.used_head? hlf⟩
                rw [hcollapse]
                by_cases hcr : b = 13
                · rw [if_pos hcr]
                  refine (answers_peek? _).bind ?_
                  rw [if_neg fun hlf => hpair ⟨hcr, hlf⟩]
                  exact hone.mono (fun w h => h.toShows) fun w h => h
                · rw [if_neg hcr]
                  exact hone

/-- A copy answers the translation of the bytes it uses up. -/
theorem answers_copy (t : Tape) (room length : Nat) (type : LineType) :
    Answers (Shows t) (copy room length type) (type.translate (type.used room length t.rest))
      (Shows (t.forward (type.used room length t.rest).length)) := by
  have hplain (h : type.collapses = false) :
      Answers (Shows t) (take (min room length)) (type.used room length t.rest)
        (Shows (t.forward (type.used room length t.rest).length)) := by
    rw [LineType.used_of_not_collapses h, t.forward_length_take]
    exact answers_take t _
  cases type with
  | raw => exact hplain rfl
  | cr => exact (hplain rfl).bind (Answers.pure _)
  | crLf => exact answers_takeCollapsed rfl t room length
  | lfCrLf => exact answers_takeCollapsed rfl t room length

end Window

end TokenDiff
