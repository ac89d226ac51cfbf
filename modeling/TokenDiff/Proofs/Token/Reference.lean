import Mathlib.Data.List.SplitBy
import TokenDiff.Token.Cut

/-!
# What the tokens of a text are

The reference that a pass over a stream is held to. A policy says between which neighbouring bytes a token
ends (`Policy.cuts`), which makes the tokens of a text the runs of `List.splitBy`, and what of a token
counts (`Policy.canonical`), whose rolling hash is the hash of the token. `Policy.table` is the table that
these two make of a text.

A pass closes one token after the other. That closing them in this way is right is `Policy.tokens_append`:
bytes without a cut inside, and with one after them, are the first token of the text they begin.
-/

namespace TokenDiff

namespace Policy

/-- Whether a token ends between two neighbouring bytes. -/
def cuts : Policy → UInt8 → UInt8 → Bool
  | .line, b, _ => b == 10
  | .word, b, _ => b == 32
  | .wordClass, b, c => !(ByteClass.ofByte b).joins (ByteClass.ofByte c)
  | .lineEnding, b, c | .ignoreBlanks, b, c | .ignoreWhitespace, b, c =>
    b == 10 || (b == 13 && c != 10)

def tokens (p : Policy) (text : List UInt8) : List (List UInt8) :=
  text.splitBy fun b c => !p.cuts b c

end Policy

def unterminated (line : List UInt8) : List UInt8 := line.takeWhile fun b => !isNewline b

/-- The bytes with each run of blanks made one space, and without the blanks at their end. -/
def squeeze : List UInt8 → List UInt8
  | [] => []
  | [b] => if isBlank b then [] else [b]
  | b :: c :: bytes =>
    if isBlank b then if isBlank c then squeeze (c :: bytes) else 32 :: squeeze (c :: bytes)
    else b :: squeeze (c :: bytes)

def solid (bytes : List UInt8) : List UInt8 := bytes.filter fun b => !isBlank b

namespace Policy

/-- What of a token counts. -/
def canonical : Policy → List UInt8 → List UInt8
  | .line, token | .word, token | .wordClass, token => token
  | .lineEnding, token => unterminated token ++ [10]
  | .ignoreBlanks, token => squeeze (unterminated token)
  | .ignoreWhitespace, token => solid (unterminated token)

def hash (p : Policy) (token : List UInt8) : UInt32 := hashBytes (p.canonical token)

def entriesFrom (p : Policy) (start : Nat) : List (List UInt8) → List Entry
  | [] => [⟨0, start⟩]
  | token :: tokens => ⟨p.hash token, start⟩ :: p.entriesFrom (start + token.length) tokens

def table (p : Policy) (text : List UInt8) : Table := ⟨p, (p.entriesFrom 0 (p.tokens text)).toArray⟩

/-! ## Closing tokens one after the other -/

variable {p : Policy} {token text : List UInt8}

@[simp] theorem tokens_nil : p.tokens [] = [] := rfl

/-- The tokens make up the text. -/
@[simp] theorem flatten_tokens (p : Policy) (text : List UInt8) : (p.tokens text).flatten = text :=
  List.flatten_splitBy _ text

theorem ne_nil_of_mem_tokens (h : token ∈ p.tokens text) : token ≠ [] := List.ne_nil_of_mem_splitBy h

theorem tokens_append (text : List UInt8) (hne : token ≠ [])
    (hinside : token.IsChain fun b c => p.cuts b c = false)
    (hafter : ∀ b ∈ token.getLast?, ∀ c ∈ text.head?, p.cuts b c = true) :
    p.tokens (token ++ text) = token :: p.tokens text := by
  rw [tokens, List.splitBy_append fun b hb c hc => by rw [hafter b hb c hc]; rfl,
    List.splitBy_of_isChain hne (hinside.imp fun b c h => by rw [h]; rfl)]
  rfl

theorem isChain_concat {held : List UInt8} (h : ∀ b ∈ held, ∀ c, p.cuts b c = false) (b : UInt8) :
    (held ++ [b]).IsChain fun b c => p.cuts b c = false := by
  induction held with
  | nil => exact List.isChain_singleton b
  | cons a held ih =>
      refine List.isChain_cons.2 ⟨fun c _ => h a List.mem_cons_self c, ?_⟩
      exact ih fun b hb => h b (List.mem_cons_of_mem a hb)

theorem tokens_of_free {held : List UInt8} (hne : held ≠ [])
    (h : ∀ b ∈ held, ∀ c, p.cuts b c = false) : p.tokens held = [held] := by
  have hlast := List.dropLast_append_getLast hne
  have hchain := isChain_concat (p := p) (fun b hb => h b (List.dropLast_subset held hb))
    (held.getLast hne)
  rw [hlast] at hchain
  have happend := tokens_append [] hne hchain (by simp)
  rwa [List.append_nil, tokens_nil] at happend

theorem tokens_close {held : List UInt8} {b : UInt8} (h : ∀ b ∈ held, ∀ c, p.cuts b c = false)
    (hb : ∀ c ∈ text.head?, p.cuts b c = true) :
    p.tokens (held ++ b :: text) = (held ++ [b]) :: p.tokens text := by
  rw [List.append_cons, tokens_append text (by simp) (isChain_concat h b)]
  intro b' hb' c hc
  rw [List.getLast?_append_of_ne_nil _ (by simp), List.getLast?_singleton, Option.mem_some_iff] at hb'
  exact hb' ▸ hb c hc

end Policy

/-! ## What counts of a line -/

theorem unterminated_append {held : List UInt8} (h : ∀ b ∈ held, isNewline b = false)
    (text : List UInt8) : unterminated (held ++ text) = held ++ unterminated text :=
  List.takeWhile_append_of_pos fun b hb => by rw [h b hb]; rfl

theorem unterminated_newline {b : UInt8} (h : isNewline b = true) (text : List UInt8) :
    unterminated (b :: text) = [] :=
  List.takeWhile_cons_of_neg (by simp [h])

theorem unterminated_of_free {held : List UInt8} (h : ∀ b ∈ held, isNewline b = false) :
    unterminated held = held := by
  have happend := unterminated_append h []
  have hnone : unterminated [] = [] := rfl
  rwa [hnone, List.append_nil] at happend

theorem hashBytes_concat (bytes : List UInt8) (b : UInt8) :
    hashBytes (bytes ++ [b]) = hashByte (hashBytes bytes) b := by
  rw [hashBytes, List.foldl_concat]
  rfl

theorem solid_append (xs ys : List UInt8) : solid (xs ++ ys) = solid xs ++ solid ys :=
  List.filter_append xs ys

theorem solid_blanks {blanks : List UInt8} (h : ∀ b ∈ blanks, isBlank b = true) : solid blanks = [] :=
  List.filter_eq_nil_iff.2 fun b hb => by simp [h b hb]

theorem squeeze_cons_of_not_blank {b : UInt8} (h : isBlank b = false) (bytes : List UInt8) :
    squeeze (b :: bytes) = b :: squeeze bytes := by
  cases bytes with
  | nil => simp [squeeze, h]
  | cons c bytes => rw [squeeze, if_neg (by simp [h])]

theorem squeeze_blanks {blanks : List UInt8} (h : ∀ b ∈ blanks, isBlank b = true) :
    squeeze blanks = [] := by
  fun_induction squeeze blanks with
  | case1 => rfl
  | case2 b hb => rfl
  | case3 b hb => exact absurd (h b List.mem_cons_self) hb
  | case4 b c bytes hb hc ih => exact ih fun b hb => h b (List.mem_cons_of_mem _ hb)
  | case5 b c bytes hb hc ih => exact absurd (h c (by simp)) hc
  | case6 b c bytes hb ih => exact absurd (h b List.mem_cons_self) hb

/-- Blanks before a byte that is not blank count as one space. -/
theorem squeeze_blanks_append {blanks : List UInt8} (hne : blanks ≠ [])
    (h : ∀ b ∈ blanks, isBlank b = true) {b : UInt8} (hb : isBlank b = false) (bytes : List UInt8) :
    squeeze (blanks ++ b :: bytes) = 32 :: b :: squeeze bytes := by
  induction blanks with
  | nil => exact absurd rfl hne
  | cons a blanks ih =>
      have ha := h a List.mem_cons_self
      cases blanks with
      | nil =>
          rw [List.singleton_append, squeeze, if_pos ha, if_neg (by simp [hb]),
            squeeze_cons_of_not_blank hb]
      | cons c blanks =>
          have hc := h c (by simp)
          rw [List.cons_append, List.cons_append, squeeze, if_pos ha, if_pos hc]
          exact ih (List.cons_ne_nil c blanks) fun b hb => h b (List.mem_cons_of_mem a hb)

/-- Bytes that do not end in a blank are squeezed by themselves. -/
theorem squeeze_append {held : List UInt8} (h : ∀ b ∈ held.getLast?, isBlank b = false)
    (bytes : List UInt8) : squeeze (held ++ bytes) = squeeze held ++ squeeze bytes := by
  fun_induction squeeze held with
  | case1 => rfl
  | case2 b hb =>
      rw [h b rfl] at hb
      cases hb
  | case3 b hb => exact squeeze_cons_of_not_blank (h b rfl) bytes
  | case4 b c held hb hc ih =>
      rw [List.cons_append, List.cons_append, squeeze, if_pos hb, if_pos hc]
      exact ih h
  | case5 b c held hb hc ih =>
      rw [List.cons_append, List.cons_append, squeeze, if_pos hb, if_neg hc, List.cons_append]
      exact congrArg _ (ih h)
  | case6 b c held hb ih =>
      rw [List.cons_append, List.cons_append, squeeze, if_neg hb, List.cons_append]
      exact congrArg _ (ih h)

end TokenDiff
