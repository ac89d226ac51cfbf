import TokenDiff.Proofs.Token.Reference
import TokenDiff.Token.Sequence

/-!
# Looking tokens up

What the table of a text says of its tokens. The entries lie one after the other: token `i` starts where
the tokens before it end (`Policy.place`), so the text from there on is made up of the tokens from `i` on.
A token never ends between a carriage return and its line feed, whatever the policy.
-/

namespace TokenDiff

namespace Policy

variable {p : Policy} {text : List UInt8} {i : Nat}

theorem length_entriesFrom (p : Policy) (start : Nat) (tokens : List (List UInt8)) :
    (p.entriesFrom start tokens).length = tokens.length + 1 := by
  induction tokens generalizing start with
  | nil => rfl
  | cons token tokens ih => rw [entriesFrom, List.length_cons, List.length_cons, ih]

/-- The entry of a token, and after the last one that of the end. -/
theorem getElem?_entriesFrom (start : Nat) {tokens : List (List UInt8)} (h : i ≤ tokens.length) :
    (p.entriesFrom start tokens)[i]? =
      some ⟨(tokens[i]?.map p.hash).getD 0, start + (tokens.take i).flatten.length⟩ := by
  induction tokens generalizing start i with
  | nil =>
      obtain rfl := Nat.le_zero.1 h
      rfl
  | cons token tokens ih =>
      cases i with
      | zero => rfl
      | succ i =>
          rw [entriesFrom, List.getElem?_cons_succ, ih _ (Nat.le_of_succ_le_succ h),
            List.getElem?_cons_succ, List.take_succ_cons, List.flatten_cons, List.length_append,
            Nat.add_assoc]

/-- The place where a token starts. -/
def place (p : Policy) (text : List UInt8) (i : Nat) : Nat := ((p.tokens text).take i).flatten.length

theorem split_place (p : Policy) (text : List UInt8) (i : Nat) :
    text.take (p.place text i) = ((p.tokens text).take i).flatten ∧
      text.drop (p.place text i) = ((p.tokens text).drop i).flatten := by
  have hsplit : text = ((p.tokens text).take i).flatten ++ ((p.tokens text).drop i).flatten := by
    rw [← List.flatten_append, List.take_append_drop, p.flatten_tokens]
  constructor
  · conv_lhs => arg 2; rw [hsplit]
    exact List.take_left
  · conv_lhs => arg 2; rw [hsplit]
    exact List.drop_left

theorem take_place (p : Policy) (text : List UInt8) (i : Nat) :
    text.take (p.place text i) = ((p.tokens text).take i).flatten := (p.split_place text i).1

theorem drop_place (p : Policy) (text : List UInt8) (i : Nat) :
    text.drop (p.place text i) = ((p.tokens text).drop i).flatten := (p.split_place text i).2

theorem place_add (p : Policy) (text : List UInt8) (i n : Nat) :
    p.place text (i + n) = p.place text i + (((p.tokens text).drop i).take n).flatten.length := by
  rw [place, List.take_add, List.flatten_append, List.length_append]
  rfl

theorem place_le (p : Policy) (text : List UInt8) (i : Nat) : p.place text i ≤ text.length := by
  conv_rhs => rw [← p.flatten_tokens text, ← List.take_append_drop i (p.tokens text), List.flatten_append,
    List.length_append]
  exact Nat.le_add_right _ _

theorem place_min_length (p : Policy) (text : List UInt8) (i : Nat) :
    p.place text (min i (p.tokens text).length) = p.place text i := by
  rw [place, place, ← List.take_eq_take_min]

/-- No policy ends a token between a carriage return and its line feed. -/
theorem cuts_return_feed (p : Policy) : p.cuts 13 10 = false := by
  cases p <;> rfl

/-- Where one token ends and another begins there is a cut. -/
theorem cuts_of_place (p : Policy) (text : List UInt8) (i : Nat) {b c : UInt8}
    (hb : ((p.tokens text).take i).flatten.getLast? = some b)
    (hc : ((p.tokens text).drop i).flatten.head? = some c) : p.cuts b c = true := by
  have hchain := List.isChain_getLast_head_splitBy (fun b c => !p.cuts b c) text
  have hsplit := List.take_append_drop i (p.tokens text)
  change (p.tokens text).IsChain _ at hchain
  rw [← hsplit, List.isChain_append] at hchain
  have hbetween := hchain.2.2
  rcases List.eq_nil_or_concat' ((p.tokens text).take i) with hnil | ⟨init, token, htake⟩
  · rw [hnil] at hb
    cases hb
  · cases hdrop : (p.tokens text).drop i with
    | nil =>
        rw [hdrop] at hc
        cases hc
    | cons next rest =>
        obtain ⟨hne, hne', hcut⟩ := hbetween token (by rw [htake, List.getLast?_concat]; rfl) next
          (by rw [hdrop]; rfl)
        rw [htake, List.flatten_concat, List.getLast?_append_of_ne_nil _ hne,
          List.getLast?_eq_some_getLast hne] at hb
        rw [hdrop, List.flatten_cons, List.head?_append_of_ne_nil _ hne',
          List.head?_eq_some_head hne'] at hc
        rw [Option.some.inj hb, Option.some.inj hc] at hcut
        simpa using hcut

end Policy

/-! ## The table of a text -/

section

variable (p : Policy) (text : List UInt8)

@[simp] theorem policy_table : (p.table text).policy = p := rfl

theorem getElem?_table {i : Nat} (h : i ≤ (p.tokens text).length) :
    (p.table text).entries[i]? =
      some ⟨((p.tokens text)[i]?.map p.hash).getD 0, p.place text i⟩ := by
  rw [Policy.table, List.getElem?_toArray, Policy.getElem?_entriesFrom 0 h, Nat.zero_add]
  rfl

@[simp] theorem count_table : (p.table text).count = (p.tokens text).length := by
  rw [Table.count, Policy.table, List.size_toArray, Policy.length_entriesFrom, Nat.add_sub_cancel]

theorem offset?_table {i : Nat} (h : i ≤ (p.tokens text).length) :
    (p.table text).offset? i = some (p.place text i) := by
  rw [Table.offset?, getElem?_table p text h]
  rfl

theorem hash?_table {i : Nat} (h : i < (p.tokens text).length) :
    (p.table text).hash? i = some (p.hash (p.tokens text)[i]) := by
  rw [Table.hash?, getElem?_table p text (Nat.le_of_lt h), List.getElem?_eq_getElem h]
  rfl

theorem length?_table {i : Nat} (h : i < (p.tokens text).length) :
    (p.table text).length? i = some (p.tokens text)[i].length := by
  have hnext : p.place text (i + 1) = p.place text i + (p.tokens text)[i].length := by
    rw [p.place_add, List.drop_eq_getElem_cons h, List.take_succ_cons, List.take_zero,
      List.flatten_cons, List.flatten_nil, List.append_nil]
  rw [Table.length?, offset?_table p text (Nat.le_of_lt h), offset?_table p text h, hnext]
  simp

theorem limit_table (stop : Nat) : (p.table text).limit stop = p.place text stop := by
  rw [Table.limit, count_table, offset?_table p text (Nat.min_le_right _ _), Option.getD_some,
    p.place_min_length]

end

end TokenDiff
