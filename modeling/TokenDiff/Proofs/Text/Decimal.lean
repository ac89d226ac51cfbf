import Mathlib.Data.List.TakeWhile
import TokenDiff.Charset.Text

/-!
# Decimal numbers in bytes

Numbers are printed in decimal digits, and `readNumber` reads them back from the start of a text. It takes
all digits there are, so what follows a number must not begin with one (`readNumber_append`).
-/

namespace TokenDiff

def isDigitByte (b : UInt8) : Bool := 48 ≤ b && b ≤ 57

def readNumber (text : List UInt8) : Option (Nat × List UInt8) :=
  if text.takeWhile isDigitByte = [] then none
  else
    some ((text.takeWhile isDigitByte).foldl (fun n b => 10 * n + (b.toNat - 48)) 0,
      text.dropWhile isDigitByte)

theorem utf8Bytes_append (s t : String) : utf8Bytes (s ++ t) = utf8Bytes s ++ utf8Bytes t := by
  rw [utf8Bytes, String.toList_append, List.flatMap_append]
  rfl

theorem utf8EncodeChar_digit {c : Char} (h : c.isDigit = true) :
    String.utf8EncodeChar c = [UInt8.ofNat c.toNat] ∧ 48 ≤ c.toNat ∧ c.toNat ≤ 57 := by
  rw [Char.isDigit, Bool.and_eq_true, decide_eq_true_eq, decide_eq_true_eq] at h
  have hge : 48 ≤ c.toNat := h.1
  have hle : c.toNat ≤ 57 := h.2
  have hsize : c.utf8Size = 1 := by
    rw [Char.utf8Size, if_pos]
    exact Nat.le_trans hle (by decide)
  rw [String.utf8EncodeChar_eq_singleton hsize]
  exact ⟨rfl, hge, hle⟩

theorem digit_of_mem_toDigits {n : Nat} {c : Char} (h : c ∈ Nat.toDigits 10 n) : c.isDigit = true :=
  Nat.isDigit_of_mem_toDigits (by decide) (by decide) h

theorem utf8Bytes_toString (n : Nat) :
    utf8Bytes (toString n) = (Nat.toDigits 10 n).map fun c => UInt8.ofNat c.toNat := by
  have hdigits : ∀ cs : List Char, (∀ c ∈ cs, c.isDigit = true) →
      cs.flatMap String.utf8EncodeChar = cs.map fun c => UInt8.ofNat c.toNat := by
    intro cs hcs
    induction cs with
    | nil => rfl
    | cons c cs ih =>
        obtain ⟨hc, hrest⟩ := List.forall_mem_cons.1 hcs
        rw [List.flatMap_cons, (utf8EncodeChar_digit hc).1, ih hrest]
        rfl
  rw [utf8Bytes, Nat.toString_eq_ofList_toDigits, String.toList_ofList]
  exact hdigits _ fun c => digit_of_mem_toDigits

theorem toNat_digit {c : Char} (h : c.isDigit = true) : (UInt8.ofNat c.toNat).toNat = c.toNat := by
  obtain ⟨-, -, hle⟩ := utf8EncodeChar_digit h
  rw [UInt8.toNat_ofNat']
  exact Nat.mod_eq_of_lt (by omega)

theorem isDigitByte_of_mem {n : Nat} {b : UInt8} (h : b ∈ utf8Bytes (toString n)) :
    isDigitByte b = true := by
  rw [utf8Bytes_toString] at h
  obtain ⟨c, hc, rfl⟩ := List.mem_map.1 h
  have hdigit := digit_of_mem_toDigits hc
  obtain ⟨-, hge, hle⟩ := utf8EncodeChar_digit hdigit
  rw [isDigitByte, Bool.and_eq_true, decide_eq_true_eq, decide_eq_true_eq, UInt8.le_iff_toNat_le,
    UInt8.le_iff_toNat_le, toNat_digit hdigit]
  exact ⟨hge, hle⟩

theorem lineFeed_not_mem_toString (n : Nat) : (10 : UInt8) ∉ utf8Bytes (toString n) := by
  intro h
  have hdigit := isDigitByte_of_mem h
  cases hdigit

/-- A number is read back from its digits. -/
theorem readNumber_append (n : Nat) {text : List UInt8} (h : ∀ b ∈ text.head?, isDigitByte b = false) :
    readNumber (utf8Bytes (toString n) ++ text) = some (n, text) := by
  have hstop : text.takeWhile isDigitByte = [] ∧ text.dropWhile isDigitByte = text := by
    cases text with
    | nil => exact ⟨rfl, rfl⟩
    | cons b text =>
        have hb := h b rfl
        exact ⟨List.takeWhile_cons_of_neg (by simp [hb]), List.dropWhile_cons_of_neg (by simp [hb])⟩
  have hvalue : ∀ (cs : List Char) (k : Nat), (∀ c ∈ cs, c.isDigit = true) →
      (cs.map fun c => UInt8.ofNat c.toNat).foldl (fun n b => 10 * n + (b.toNat - 48)) k =
        Nat.ofDigitChars 10 cs k := by
    intro cs k hcs
    induction cs generalizing k with
    | nil => rfl
    | cons c cs ih =>
        obtain ⟨hc, hrest⟩ := List.forall_mem_cons.1 hcs
        rw [List.map_cons, List.foldl_cons, ih _ hrest, toNat_digit hc, Nat.ofDigitChars_cons]
        rfl
  rw [readNumber, List.takeWhile_append_of_pos fun b => isDigitByte_of_mem,
    List.dropWhile_append_of_pos fun b => isDigitByte_of_mem, hstop.1, hstop.2, List.append_nil,
    utf8Bytes_toString, if_neg, hvalue _ 0 fun c => digit_of_mem_toDigits,
    Nat.ofDigitChars_toDigits (by decide) (by decide)]
  rw [List.map_eq_nil_iff]
  exact Nat.toDigits_ne_nil

end TokenDiff
