import TokenDiff.Proofs.Token.Visits

/-!
# Tokens that end with a delimiter, and lines

The policies under which a byte alone tells whether a token ends with it (`finds_delimited`), and what the
policies on lines have in common: a line ends with a line feed, a carriage return, or both. Under the first
of them the line ends count as if they were alike (`finds_lineEnding`).
-/

namespace TokenDiff

open Window

/-! ## Tokens that end with a delimiter -/

/-- A policy whose tokens end with a delimiter and count as they are. -/
structure Policy.Delimited (p : Policy) (delimiter : UInt8) : Prop where
  cuts_eq : ∀ b c, p.cuts b c = (b == delimiter)
  canonical_eq : ∀ token, p.canonical token = token

theorem answers_visitDelimited (t : Tape) (delimiter : UInt8) (d : Draft) (b : UInt8) :
    Answers (Shows t) (visitDelimited delimiter d b)
      (.more (if b = delimiter ∨ t.rest = [] then (d.add b).close t.cursor else d.add b)) (Shows t) := by
  unfold visitDelimited
  by_cases hb : b = delimiter
  · rw [if_pos hb, if_pos (.inl hb)]
    exact (answers_closeHere t _).bind (Answers.pure _)
  · rw [if_neg hb]
    refine (answers_atEnd_shows t).bind ((answers_closeIf t _ _).bind ?_)
    have hend : (t.rest.isEmpty = true) = (b = delimiter ∨ t.rest = []) := by
      rw [List.isEmpty_iff, or_iff_right hb]
    simp only [hend]
    exact Answers.pure _

theorem finds_delimited {p : Policy} {delimiter : UInt8} (hp : p.Delimited delimiter) (t : Tape)
    (d : Draft) (held : List UInt8) (hheld : ∀ b ∈ held, b ≠ delimiter)
    (hopen : t.rest = [] → held = []) (hstart : t.cursor = d.start + held.length)
    (hhash : d.hash = hashBytes held) :
    Finds p (fun _ => visitDelimited delimiter) t d held := by
  induction hlen : t.rest.length using Nat.strong_induction_on generalizing t d held with
  | _ len ih =>
      cases hb : t.peek? with
      | none =>
          have hrest := t.peek?_eq_none.1 hb
          rw [hopen hrest]
          exact .stop hrest
      | some b =>
          have hrest := t.peek?_eq_some.1 hb
          have hlt := t.length_rest_of_peek? hb
          have hone : t.rest.take 1 = [b] := by rw [hrest]; rfl
          have hadd : hashByte d.hash b = hashBytes (held ++ t.rest.take 1) := by
            rw [hone, hashBytes_concat, hhash]
          have hvisit := answers_visitDelimited (t.forward 1) delimiter d b
          by_cases hend : b = delimiter ∨ (t.forward 1).rest = []
          · rw [if_pos hend] at hvisit
            refine .close hb Nat.one_pos (by omega) (fun _ _ => hvisit) hstart ?_ ?_ fun u d hu hs hh => ?_
            · rw [hadd, Policy.hash, hp.canonical_eq]
            · rw [hone, hrest]
              refine Policy.tokens_close (fun c hc a => ?_) fun c hc => ?_
              · rw [hp.cuts_eq]
                exact beq_false_of_ne (hheld c hc)
              · rcases hend with rfl | hend
                · rw [hp.cuts_eq]
                  exact beq_self_eq_true b
                · rw [hend] at hc
                  cases hc
            · exact ih _ (hlen ▸ hu) u d [] (by simp) (fun _ => rfl) hs hh rfl
          · rw [if_neg hend] at hvisit
            rw [not_or] at hend
            refine .extend hb Nat.one_pos (fun _ _ => hvisit) ?_
            refine ih _ (by omega) _ _ _ ?_ (fun h => absurd h hend.2) ?_ hadd rfl
            · rw [hone]
              exact List.forall_mem_append.2 ⟨hheld, List.forall_mem_singleton.2 hend.1⟩
            · rw [t.forward_cursor_of_le (by omega), hstart, hone, List.length_append, Nat.add_assoc]
              rfl

/-! ## Lines -/

def Policy.Lines (p : Policy) : Prop := ∀ b c, p.cuts b c = (b == 10 || (b == 13 && c != 10))

/-- The number of line feeds that belong to the line end that begins with a byte, and follow it. -/
def absorbed (b : UInt8) (text : List UInt8) : Nat := if b = 13 ∧ text.head? = some 10 then 1 else 0

theorem absorbed_of_not_newline {b : UInt8} (h : isNewline b = false) (text : List UInt8) :
    absorbed b text = 0 := by
  refine if_neg fun hb => ?_
  rw [hb.1] at h
  cases h

theorem absorbed_le (b : UInt8) (text : List UInt8) : absorbed b text ≤ text.length := by
  unfold absorbed
  split
  · next h =>
      cases text with
      | nil => cases h.2
      | cons c text => exact Nat.succ_le_succ (Nat.zero_le _)
  · exact Nat.zero_le _

theorem answers_absorbLineFeed (t : Tape) (b : UInt8) :
    Answers (Shows t) (absorbLineFeed b) () (Shows (t.forward (absorbed b t.rest))) := by
  have hloaded : ∀ w : Window, w.Loaded t → w.Shows t := fun _ h => h.toShows
  unfold absorbLineFeed absorbed
  by_cases hb : b = 13
  · rw [if_pos hb]
    refine (answers_peek? t).bind ?_
    by_cases hpeek : t.peek? = some 10
    · rw [if_pos hpeek, if_pos ⟨hb, hpeek⟩]
      exact (answers_advance t).mono hloaded fun _ h => h
    · rw [if_neg hpeek, if_neg fun h => hpeek h.2, t.forward_zero]
      exact (Answers.pure ()).mono hloaded fun _ h => h
  · rw [if_neg hb, if_neg fun h => hb h.1, t.forward_zero]
    exact Answers.pure ()

namespace Policy.Lines

variable {p : Policy} {held text : List UInt8} {b : UInt8}

theorem cuts_of_not_newline (hp : p.Lines) (h : isNewline b = false) (c : UInt8) :
    p.cuts b c = false := by
  rw [isNewline, Bool.or_eq_false_iff] at h
  rw [hp, h.1, h.2]
  rfl

/-- A line end closes the token. -/
theorem tokens_newline (hp : p.Lines) (hheld : ∀ c ∈ held, isNewline c = false)
    (hb : isNewline b = true) :
    p.tokens (held ++ b :: text) =
      (held ++ b :: text.take (absorbed b text)) :: p.tokens (text.drop (absorbed b text)) := by
  have hfree : ∀ c ∈ held, ∀ a, p.cuts c a = false := fun c hc => hp.cuts_of_not_newline (hheld c hc)
  unfold absorbed
  split
  · next h =>
      obtain ⟨rfl, hlf⟩ := h
      cases text with
      | nil => cases hlf
      | cons c text =>
          obtain rfl : c = 10 := Option.some.inj hlf
          have hinside : (held ++ [13, 10]).IsChain fun b c => p.cuts b c = false := by
            rw [List.append_cons]
            refine List.isChain_append.2 ⟨isChain_concat hfree 13, List.isChain_singleton 10, ?_⟩
            intro b hb c hc
            rw [List.getLast?_concat, Option.mem_some_iff] at hb
            rw [List.head?_cons, Option.mem_some_iff] at hc
            rw [← hb, ← hc, hp]
            rfl
          have happend := tokens_append text (by simp) hinside fun b hb c _ => by
            rw [List.append_cons, List.getLast?_concat, Option.mem_some_iff] at hb
            rw [← hb, hp]
            rfl
          rw [List.append_assoc] at happend
          exact happend
  · next h =>
      refine tokens_close hfree fun c hc => ?_
      rw [hp]
      rw [isNewline, Bool.or_eq_true, beq_iff_eq, beq_iff_eq] at hb
      rcases hb with rfl | rfl
      · have hne : c ≠ 10 := fun hlf => h ⟨rfl, hlf ▸ hc⟩
        simp [hne]
      · rfl

theorem tokens_last (hp : p.Lines) (hheld : ∀ c ∈ held, isNewline c = false) (hne : held ≠ []) :
    p.tokens held = [held] :=
  tokens_of_free hne fun c hc => hp.cuts_of_not_newline (hheld c hc)

end Policy.Lines

theorem take_run (xs ys : List UInt8) (c : UInt8) (n : Nat) :
    (xs ++ c :: ys).take (xs.length + 1 + n) = xs ++ c :: ys.take n := by
  rw [Nat.add_assoc, List.take_length_add_append, Nat.add_comm 1, List.take_succ_cons]

theorem drop_run (xs ys : List UInt8) (c : UInt8) (n : Nat) :
    (xs ++ c :: ys).drop (xs.length + 1 + n) = ys.drop n := by
  rw [Nat.add_assoc, List.drop_length_add_append, Nat.add_comm 1, List.drop_succ_cons]

namespace Finds

variable {p : Policy} {visit : Nat → Draft → UInt8 → WindowM (Visit Draft)} {t : Tape} {d : Draft}
  {held text : List UInt8} {b c : UInt8}

/-- A visit that takes some bytes and then one that ends the line, or the text. -/
theorem close_line (more : List UInt8) (hash : UInt32) (hp : p.Lines) (hb : t.peek? = some b)
    (hrest : t.rest = more ++ c :: text)
    (hfree : ∀ a ∈ held ++ more, isNewline a = false) (hend : isNewline c = true ∨ text = [])
    (hvisit : ∀ fuel, (t.forward 1).rest.length ≤ fuel → Answers (Shows (t.forward 1)) (visit fuel d b)
      (.more (Draft.close { d with hash } (t.forward (more.length + 1 + absorbed c text)).cursor))
      (Shows (t.forward (more.length + 1 + absorbed c text))))
    (hstart : t.cursor = d.start + held.length)
    (hhash : hash = p.hash (held ++ more ++ c :: text.take (absorbed c text)))
    (after : FindsAfter p visit t) : Finds p visit t d held := by
  have hle := absorbed_le c text
  have htake : t.rest.take (more.length + 1 + absorbed c text) =
      more ++ c :: text.take (absorbed c text) := by rw [hrest, take_run]
  refine close hb (by omega) ?_ hvisit hstart ?_ ?_ after
  · rw [hrest, List.length_append, List.length_cons]
    omega
  · rw [htake, ← List.append_assoc]
    exact hhash
  · rw [htake, t.rest_forward, hrest, drop_run, ← List.append_assoc, ← List.append_assoc]
    by_cases hc : isNewline c = true
    · exact hp.tokens_newline hfree hc
    · have hc := Bool.not_eq_true _ ▸ hc
      obtain rfl := hend.resolve_left (by simp [hc])
      rw [absorbed_of_not_newline hc, List.take_nil, List.drop_nil, Policy.tokens_nil]
      exact hp.tokens_last (List.forall_mem_append.2 ⟨hfree, List.forall_mem_singleton.2 hc⟩) (by simp)

/-- A visit that takes some bytes and then one that does not end the token. -/
theorem extend_line (more : List UInt8) (hash : UInt32) (hb : t.peek? = some b)
    (hrest : t.rest = more ++ c :: text)
    (hvisit : ∀ fuel, (t.forward 1).rest.length ≤ fuel → Answers (Shows (t.forward 1)) (visit fuel d b)
      (.more { d with hash }) (Shows (t.forward (more.length + 1))))
    (hstart : t.cursor = d.start + held.length)
    (rest : ∀ u : Tape, u.rest = text → u.cursor = d.start + (held ++ more ++ [c]).length →
      Finds p visit u { d with hash } (held ++ more ++ [c])) :
    Finds p visit t d held := by
  have htake : t.rest.take (more.length + 1) = more ++ [c] := by
    rw [hrest]
    exact take_run more text c 0
  have hnext : (t.forward (more.length + 1)).rest = text := by
    rw [t.rest_forward, hrest]
    exact drop_run more text c 0
  have hle : more.length + 1 ≤ t.rest.length := by
    rw [hrest, List.length_append, List.length_cons]
    omega
  refine extend hb (Nat.succ_pos _) hvisit ?_
  rw [htake, ← List.append_assoc]
  refine rest _ hnext ?_
  rw [t.forward_cursor_of_le hle, hstart, List.length_append, List.length_append, Nat.add_assoc,
    Nat.add_assoc]
  rfl

end Finds

/-! ### Lines with their line ends made alike -/

section

variable (t : Tape) (d : Draft) {b : UInt8}

theorem answers_visitLineEnding_newline (hb : isNewline b = true) :
    Answers (Shows t) (visitLineEnding d b)
      (.more ((d.add 10).close (t.forward (absorbed b t.rest)).cursor))
      (Shows (t.forward (absorbed b t.rest))) := by
  unfold visitLineEnding
  rw [if_pos hb]
  refine (answers_absorbLineFeed t b).bind ((answers_atEnd_shows _).bind ?_)
  exact (answers_closeHere _ _).bind (Answers.pure _)

theorem answers_visitLineEnding (hb : isNewline b = false) :
    Answers (Shows t) (visitLineEnding d b)
      (.more (if t.rest = [] then ((d.add b).add 10).close t.cursor else d.add b)) (Shows t) := by
  unfold visitLineEnding
  rw [if_neg (by simp [hb])]
  refine (answers_atEnd_shows t).bind ?_
  by_cases hend : t.rest = []
  · rw [if_pos (List.isEmpty_iff.2 hend), if_pos hend]
    exact (answers_closeHere _ _).bind (Answers.pure _)
  · rw [if_neg (by simpa using hend), if_neg hend]
    exact Answers.pure _

end

theorem finds_lineEnding (t : Tape) (d : Draft) (held : List UInt8)
    (hheld : ∀ b ∈ held, isNewline b = false) (hopen : t.rest = [] → held = [])
    (hstart : t.cursor = d.start + held.length) (hhash : d.hash = hashBytes held) :
    Finds .lineEnding (fun _ => visitLineEnding) t d held := by
  have hp : Policy.lineEnding.Lines := fun _ _ => rfl
  induction hlen : t.rest.length using Nat.strong_induction_on generalizing t d held with
  | _ len ih =>
      cases hb : t.peek? with
      | none =>
          have hrest := t.peek?_eq_none.1 hb
          rw [hopen hrest]
          exact .stop hrest
      | some b =>
          have hrest := t.peek?_eq_some.1 hb
          have hlt := t.length_rest_of_peek? hb
          have hfree : ∀ a ∈ held ++ [], isNewline a = false := by rwa [List.append_nil]
          have hafter : FindsAfter .lineEnding (fun _ => visitLineEnding) t := fun u d hu hs hh =>
            ih _ (hlen ▸ hu) u d [] (by simp) (fun _ => rfl) hs hh rfl
          cases hline : isNewline b with
          | true =>
              have hvisit := answers_visitLineEnding_newline (t.forward 1) d hline
              rw [t.forward_forward] at hvisit
              refine .close_line [] _ hp hb hrest hfree (.inl hline) (fun _ _ => hvisit) hstart ?_ hafter
              rw [List.append_nil, Policy.hash, Policy.canonical, unterminated_append hheld,
                unterminated_newline hline, List.append_nil, hashBytes_concat, hhash]
          | false =>
              have hvisit := answers_visitLineEnding (t.forward 1) d hline
              have hheld' : ∀ c ∈ held ++ [b], isNewline c = false :=
                List.forall_mem_append.2 ⟨hheld, List.forall_mem_singleton.2 hline⟩
              have hadd : hashByte d.hash b = hashBytes (held ++ [b]) := by
                rw [hashBytes_concat, hhash]
              by_cases hend : (t.forward 1).rest = []
              · rw [if_pos hend] at hvisit
                refine .close_line [] (hashByte (hashByte d.hash b) 10) hp hb hrest hfree (.inr hend)
                  (fun _ _ => ?_) hstart ?_ hafter
                · rw [absorbed_of_not_newline hline]
                  exact hvisit
                · rw [hend, List.take_nil, List.append_nil, Policy.hash, Policy.canonical,
                    unterminated_of_free hheld', hashBytes_concat, hadd]
              · rw [if_neg hend] at hvisit
                refine .extend_line [] _ hb hrest (fun _ _ => hvisit) hstart fun u hu hcursor => ?_
                rw [List.append_nil] at hcursor ⊢
                exact ih u.rest.length (by rw [hu]; omega) u _ _ hheld' (fun h => absurd (hu ▸ h) hend)
                  hcursor hadd rfl

end TokenDiff
