import TokenDiff.Proofs.Token.Blanks

/-!
# Cutting finds the tokens

A pass over a window that shows the start of a text answers the table of the text, whichever window that is
(`answers_cutEntries`). The passes that close a token with its last byte are dealt with by `Finds`. The one
that cuts where the class of the bytes changes closes a token when it has read the byte after it, so its
open token is never empty and its promise is another one (`visits_class`).
-/

namespace TokenDiff

open Window

/-! ## Runs of one class -/

theorem answers_visitClass (t : Tape) (last : Option ByteClass) (d : Draft) (b : UInt8) :
    Answers (Shows t) (visitClass (last, d) b)
      (.more (some (ByteClass.ofByte b), (match last with
        | some last => if last.joins (ByteClass.ofByte b) then d else d.close (t.cursor - 1)
        | none => d).add b)) (Shows t) :=
  Answers.bind_get fun w h => ⟨w, by rw [← h.tell_eq]; rfl, h⟩

/-- The open token has no cut inside and is closed when the byte after it has been read, or at the end. -/
theorem visits_class (t : Tape) (d : Draft) (held : List UInt8) (last : UInt8)
    (hheld : (held ++ [last]).IsChain fun b c => Policy.wordClass.cuts b c = false)
    (hstart : t.cursor = d.start + (held ++ [last]).length)
    (hhash : d.hash = Policy.wordClass.hash (held ++ [last])) :
    ∃ kind d', Visits (fun _ => visitClass) t (some (ByteClass.ofByte last), d) (some kind, d') ∧
      (d'.close t.toEnd.cursor).entries.toList =
        d.promise .wordClass (Policy.wordClass.tokens (held ++ [last] ++ t.rest)) := by
  induction hlen : t.rest.length using Nat.strong_induction_on generalizing t d held last with
  | _ len ih =>
      cases hb : t.peek? with
      | none =>
          have hrest := t.peek?_eq_none.1 hb
          have htokens : Policy.wordClass.tokens (held ++ [last] ++ t.rest) = [held ++ [last]] := by
            rw [hrest]
            exact Policy.tokens_append [] (by simp) hheld (by simp)
          refine ⟨_, d, .stop hrest, ?_⟩
          rw [t.toEnd_of_rest_nil hrest, ← Draft.promise_nil _ .wordClass, d.promise_close hhash hstart,
            htokens]
      | some b =>
          have hrest := t.peek?_eq_some.1 hb
          have hlt := t.length_rest_of_peek? hb
          have hvisit := answers_visitClass (t.forward 1) (some (ByteClass.ofByte last)) d b
          have hcursor : (t.forward 1).cursor = t.cursor + 1 := t.forward_cursor_of_le (by omega)
          have hcuts : Policy.wordClass.cuts last b =
              !(ByteClass.ofByte last).joins (ByteClass.ofByte b) := rfl
          cases hjoins : (ByteClass.ofByte last).joins (ByteClass.ofByte b) with
          | true =>
              simp only [hjoins, if_true] at hvisit
              have hchain : (held ++ [last] ++ [b]).IsChain fun b c => Policy.wordClass.cuts b c = false := by
                refine List.isChain_append.2 ⟨hheld, List.isChain_singleton b, fun x hx y hy => ?_⟩
                rw [List.getLast?_concat, Option.mem_some_iff] at hx
                rw [List.head?_cons, Option.mem_some_iff] at hy
                rw [← hx, ← hy, hcuts, hjoins]
                rfl
              have hlength : (held ++ [last] ++ [b]).length = (held ++ [last]).length + 1 :=
                List.length_append
              have hadd : (d.add b).hash = Policy.wordClass.hash (held ++ [last] ++ [b]) :=
                (congrArg (hashByte · b) hhash).trans (hashBytes_concat (held ++ [last]) b).symm
              obtain ⟨kind, d', hd', hout⟩ := ih _ (by omega) (t.forward 1) (d.add b) (held ++ [last]) b
                hchain (by rw [hcursor, hstart, hlength]; rfl) hadd rfl
              refine ⟨kind, d', .more hb Nat.one_pos (fun _ _ => hvisit) hd', ?_⟩
              rw [hrest, List.append_cons _ b]
              exact hout
          | false =>
              simp only [hjoins, Bool.false_eq_true, if_false, hcursor, Nat.add_sub_cancel] at hvisit
              obtain ⟨kind, d', hd', hout⟩ := ih _ (by omega) (t.forward 1) ((d.close t.cursor).add b) [] b
                (List.isChain_singleton b) hcursor rfl rfl
              refine ⟨kind, d', .more hb Nat.one_pos (fun _ _ => hvisit) hd', ?_⟩
              have htokens : Policy.wordClass.tokens (held ++ [last] ++ t.rest) =
                  (held ++ [last]) :: Policy.wordClass.tokens t.rest := by
                refine Policy.tokens_append _ (by simp) hheld fun x hx y hy => ?_
                rw [List.getLast?_concat, Option.mem_some_iff] at hx
                rw [hrest, List.head?_cons, Option.mem_some_iff] at hy
                rw [← hx, ← hy, hcuts, hjoins]
                rfl
              rw [htokens, ← d.promise_close hhash hstart, hrest]
              exact hout

/-! ## All policies -/

/-- A pass over a window at the start of a text answers the entries of its tokens. -/
theorem answers_cutEntries (p : Policy) (text : List UInt8) :
    Answers (Shows (.start text)) (cutEntries p) (p.table text).entries (Shows (Tape.start text).toEnd) := by
  have hfinish {visit : Nat → Draft → UInt8 → WindowM (Visit Draft)}
      (h : Finds p visit (.start text) {} []) :
      Answers (Shows (.start text)) (do return (← visitAll visit {}).entries) (p.table text).entries
        (Shows (Tape.start text).toEnd) := by
    obtain ⟨d, hd, hout⟩ := h
    have hentries : d.entries = (p.table text).entries := by
      apply Array.toList_inj.1
      rw [hout]
      rfl
    rw [← hentries]
    exact hd.answers.bind (Answers.pure _)
  cases p with
  | line =>
      exact hfinish (finds_delimited ⟨fun _ _ => rfl, fun _ => rfl⟩ _ _ [] (by simp) (fun _ => rfl) rfl rfl)
  | word =>
      exact hfinish (finds_delimited ⟨fun _ _ => rfl, fun _ => rfl⟩ _ _ [] (by simp) (fun _ => rfl) rfl rfl)
  | lineEnding => exact hfinish (finds_lineEnding _ _ [] (by simp) (fun _ => rfl) rfl rfl)
  | ignoreBlanks => exact hfinish (finds_blanks _ _ [] (by simp) (by simp) (fun _ => rfl) rfl rfl)
  | ignoreWhitespace => exact hfinish (finds_whitespace _ _ [] (by simp) (fun _ => rfl) rfl rfl)
  | wordClass =>
      cases text with
      | nil =>
          have hstop : Visits (fun _ => visitClass) (.start []) (none, {}) (none, {}) := .stop rfl
          exact hstop.answers.bind ((answers_closeIf _ _ _).bind (Answers.pure _))
      | cons b text =>
          have hvisit := answers_visitClass ((Tape.start (b :: text)).forward 1) none {} b
          obtain ⟨kind, d, hd, hout⟩ := visits_class ((Tape.start (b :: text)).forward 1)
            (Draft.add {} b) [] b (List.isChain_singleton b) rfl rfl
          have hvisits : Visits (fun _ => visitClass) (.start (b :: text)) (none, {}) (some kind, d) :=
            .more rfl Nat.one_pos (fun _ _ => hvisit) hd
          have hentries : (d.close (Tape.start (b :: text)).toEnd.cursor).entries =
              (Policy.wordClass.table (b :: text)).entries := by
            apply Array.toList_inj.1
            rw [← Tape.toEnd_forward _ 1, hout]
            rfl
          rw [← hentries]
          exact hvisits.answers.bind ((answers_closeIf _ _ _).bind (Answers.pure _))

end TokenDiff
