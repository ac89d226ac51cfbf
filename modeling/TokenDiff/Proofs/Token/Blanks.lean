import Mathlib.Data.List.TakeWhile
import TokenDiff.Proofs.Token.Lines

/-!
# Lines up to blank space

A run of blanks is passed over in one visit. If a byte of the line comes after it, the run counts as a single
space (`finds_blanks`) or not at all (`finds_whitespace`), and if the line or the text ends with it, it does
not count under either policy.
-/

namespace TokenDiff

open Window

/-! ## Lines up to the amount of blank space -/

theorem not_newline_of_blank {b : UInt8} (h : isBlank b = true) : isNewline b = false := by
  rw [isBlank, Bool.or_eq_true, beq_iff_eq, beq_iff_eq] at h
  rcases h with rfl | rfl <;> rfl

theorem exists_blanks (bytes : List UInt8) :
    (∀ b ∈ bytes, isBlank b = true) ∨
      ∃ more f text, bytes = more ++ f :: text ∧ (∀ b ∈ more, isBlank b = true) ∧ isBlank f = false := by
  induction bytes with
  | nil => exact .inl (by simp)
  | cons b bytes ih =>
      cases hb : isBlank b with
      | false => exact .inr ⟨[], b, bytes, rfl, by simp, hb⟩
      | true =>
          rcases ih with hall | ⟨more, f, text, rfl, hmore, hf⟩
          · exact .inl (List.forall_mem_cons.2 ⟨hb, hall⟩)
          · exact .inr ⟨b :: more, f, text, rfl, List.forall_mem_cons.2 ⟨hb, hmore⟩, hf⟩

def Draft.finish (d : Draft) (t : Tape) (b : UInt8) : Draft :=
  let d := if isNewline b then d else d.add b
  if isNewline b = true ∨ t.rest = [] then d.close (t.forward (absorbed b t.rest)).cursor else d

section

variable (d : Draft) (t : Tape) {b : UInt8}

theorem Draft.finish_newline (hb : isNewline b = true) :
    d.finish t b = d.close (t.forward (absorbed b t.rest)).cursor := by
  rw [finish, if_pos hb, if_pos (.inl hb)]

theorem Draft.finish_end (hb : isNewline b = false) (hrest : t.rest = []) :
    d.finish t b = (d.add b).close t.cursor := by
  have hnot : ¬ isNewline b = true := by simp [hb]
  rw [finish, if_neg hnot, if_pos (.inr hrest), absorbed_of_not_newline hb, t.forward_zero]

theorem Draft.finish_more (hb : isNewline b = false) (hrest : t.rest ≠ []) :
    d.finish t b = d.add b := by
  have hnot : ¬ isNewline b = true := by simp [hb]
  rw [finish, if_neg hnot, if_neg (not_or.2 ⟨hnot, hrest⟩)]

end

theorem answers_finishByte (t : Tape) (d : Draft) (b : UInt8) :
    Answers (Shows t) (finishByte d b) (d.finish t b) (Shows (t.forward (absorbed b t.rest))) := by
  unfold finishByte Draft.finish
  refine (answers_absorbLineFeed t b).bind ((answers_atEnd_shows _).bind ?_)
  have hend : ((t.forward (absorbed b t.rest)).rest.isEmpty || isNewline b) = true ↔
      isNewline b = true ∨ t.rest = [] := by
    cases hb : isNewline b with
    | true => simp
    | false => simp [absorbed_of_not_newline hb]
  have hclose := answers_closeIf (t.forward (absorbed b t.rest)) (if isNewline b then d else d.add b)
    ((t.forward (absorbed b t.rest)).rest.isEmpty || isNewline b)
  simp only [hend] at hclose
  exact hclose

/-- The draft with the space that stands for a run of blanks, if there is one before a byte that
counts. -/
def Draft.gap (d : Draft) (blanks : List UInt8) (f : UInt8) : Draft :=
  { d with hash := if blanks = [] ∨ isNewline f = true then d.hash else hashByte d.hash 32 }

section

variable {t : Tape} {d : Draft} {more text : List UInt8} {b f : UInt8} {fuel : Nat}

theorem answers_visitBlanks (hb : t.peek? = some b) (hrest : t.rest = more ++ f :: text)
    (hmore : ∀ b ∈ more, isBlank b = true) (hf : isBlank f = false)
    (hfuel : (t.forward 1).rest.length ≤ fuel) :
    Answers (Shows (t.forward 1)) (visitBlanks fuel d b)
      (.more ((d.gap more f).finish (t.forward (more.length + 1)) f))
      (Shows (t.forward (more.length + 1 + absorbed f text))) := by
  have hnext : (t.forward (more.length + 1)).rest = text := by
    rw [t.rest_forward, hrest]
    exact drop_run more text f 0
  have hfinish := answers_finishByte (t.forward (more.length + 1)) (d.gap more f) f
  rw [hnext, t.forward_forward] at hfinish
  unfold visitBlanks
  cases more with
  | nil =>
      obtain rfl : f = b := by
        rw [Tape.peek?, hrest] at hb
        exact Option.some.inj hb
      rw [if_neg (by simp [hf])]
      exact hfinish.bind (Answers.pure _)
  | cons a more =>
      obtain rfl : a = b := by
        rw [Tape.peek?, hrest] at hb
        exact Option.some.inj hb
      have hrun : (t.forward 1).rest = more ++ f :: text := by rw [t.rest_forward, hrest]; rfl
      have hblanks : ((t.forward 1).rest.takeWhile isBlank).length = more.length := by
        rw [hrun, List.takeWhile_append_of_pos fun b hb => hmore b (List.mem_cons_of_mem a hb),
          List.takeWhile_cons_of_neg (by simp [hf]), List.append_nil]
      have hskip := answers_skipWhile (t.forward 1) isBlank fuel hfuel
      rw [hblanks, t.forward_forward] at hskip
      have hpeek : (t.forward (1 + more.length)).peek? = some f := by
        rw [Tape.peek?, ← t.forward_forward, Tape.rest_forward, hrun, List.drop_left]
        rfl
      have hstep := answers_skip _ hpeek
      rw [t.forward_forward, Nat.add_comm 1 more.length] at hstep
      rw [if_pos (hmore a List.mem_cons_self)]
      refine hskip.bind ((answers_peek? _).bind ?_)
      rw [hpeek, Nat.add_comm 1 more.length]
      refine hstep.bind (Answers.bind ?_ (Answers.pure _))
      have hgap : (if isNewline f then d else d.add 32) = d.gap (a :: more) f := by
        simp only [Draft.gap, List.cons_ne_nil, false_or]
        split <;> rfl
      rw [hgap]
      exact hfinish

/-- Blanks that nothing follows end the pass. -/
theorem answers_visitBlanks_end (hb : t.peek? = some b) (hrest : ∀ b ∈ t.rest, isBlank b = true)
    (hfuel : (t.forward 1).rest.length ≤ fuel) :
    Answers (Shows (t.forward 1)) (visitBlanks fuel d b)
      (.done (d.close (t.forward (1 + (t.forward 1).rest.length)).cursor))
      (Shows (t.forward (1 + (t.forward 1).rest.length))) := by
  have hcons := t.peek?_eq_some.1 hb
  have hblank : isBlank b = true := hrest b (by rw [hcons]; exact List.mem_cons_self)
  have hall : (t.forward 1).rest.takeWhile isBlank = (t.forward 1).rest :=
    List.takeWhile_eq_self_iff.2 fun c hc => hrest c (by rw [hcons]; exact List.mem_cons_of_mem b hc)
  have hskip := answers_skipWhile (t.forward 1) isBlank fuel hfuel
  rw [hall, t.forward_forward] at hskip
  have hpeek : (t.forward (1 + (t.forward 1).rest.length)).peek? = none := by
    rw [Tape.peek?_eq_none, ← t.forward_forward, Tape.rest_forward, List.drop_length]
  unfold visitBlanks
  rw [if_pos hblank]
  refine hskip.bind ((answers_peek? _).bind ?_)
  rw [hpeek]
  exact ((answers_closeHere _ d).mono (fun _ h => h.toShows) fun _ h => h).bind (Answers.pure _)

end

/-- What a run of blanks and the byte after it add to the open token. -/
theorem hash_gap {d : Draft} {held more : List UInt8} {f : UInt8}
    (hhash : d.hash = hashBytes (squeeze held)) (hlast : ∀ b ∈ held.getLast?, isBlank b = false)
    (hmore : ∀ b ∈ more, isBlank b = true) (hf : isBlank f = false) (hline : isNewline f = false) :
    hashByte (d.gap more f).hash f = hashBytes (squeeze (held ++ more ++ [f])) := by
  have hone : squeeze [f] = [f] := squeeze_cons_of_not_blank hf []
  rw [List.append_assoc, squeeze_append hlast]
  cases more with
  | nil => rw [Draft.gap, if_pos (.inl rfl), List.nil_append, hone, hashBytes_concat, hhash]
  | cons a more =>
      have hgap : squeeze (a :: more ++ [f]) = [32] ++ [f] :=
        squeeze_blanks_append (List.cons_ne_nil a more) hmore hf []
      rw [Draft.gap, if_neg (by simp [hline]), hgap,
        ← List.append_assoc (squeeze held) [32], hashBytes_concat, hashBytes_concat, hhash]

theorem finds_blanks (t : Tape) (d : Draft) (held : List UInt8)
    (hheld : ∀ b ∈ held, isNewline b = false) (hlast : ∀ b ∈ held.getLast?, isBlank b = false)
    (hopen : t.rest = [] → held = []) (hstart : t.cursor = d.start + held.length)
    (hhash : d.hash = hashBytes (squeeze held)) : Finds .ignoreBlanks visitBlanks t d held := by
  have hp : Policy.ignoreBlanks.Lines := fun _ _ => rfl
  induction hlen : t.rest.length using Nat.strong_induction_on generalizing t d held with
  | _ len ih =>
      cases hb : t.peek? with
      | none =>
          have hrest := t.peek?_eq_none.1 hb
          rw [hopen hrest]
          exact .stop hrest
      | some b =>
          have hafter : FindsAfter .ignoreBlanks visitBlanks t := fun u d hu hs hh =>
            ih _ (hlen ▸ hu) u d [] (by simp) (by simp) (fun _ => rfl) hs hh rfl
          rcases exists_blanks t.rest with hall | ⟨more, f, text, hrest, hmore, hf⟩
          · have hfree : ∀ a ∈ held ++ t.rest, isNewline a = false :=
              List.forall_mem_append.2 ⟨hheld, fun a ha => not_newline_of_blank (hall a ha)⟩
            have hne : held ++ t.rest ≠ [] := by
              rw [t.peek?_eq_some.1 hb]
              simp
            refine .done hb (fun _ hfuel => answers_visitBlanks_end hb hall hfuel) ?_ hstart ?_
              (hp.tokens_last hfree hne)
            · rw [← t.forward_forward, Tape.rest_forward, List.drop_length]
            · rw [Policy.hash, Policy.canonical, unterminated_of_free hfree, squeeze_append hlast,
                squeeze_blanks hall, List.append_nil, hhash]
          · have hnext : (t.forward (more.length + 1)).rest = text := by
              rw [t.rest_forward, hrest]
              exact drop_run more text f 0
            have hfree : ∀ a ∈ held ++ more, isNewline a = false :=
              List.forall_mem_append.2 ⟨hheld, fun a ha => not_newline_of_blank (hmore a ha)⟩
            have hlt : text.length < len := by
              rw [← hlen, hrest, List.length_append, List.length_cons]
              omega
            have hvisit {fuel : Nat} (hfuel : (t.forward 1).rest.length ≤ fuel) :=
              answers_visitBlanks (d := d) hb hrest hmore hf hfuel
            cases hline : isNewline f with
            | true =>
                rw [Draft.finish_newline _ _ hline, hnext, t.forward_forward, Draft.gap,
                  if_pos (.inr hline)] at hvisit
                refine .close_line more d.hash hp hb hrest hfree (.inl hline) (fun _ => hvisit) hstart ?_
                  hafter
                rw [Policy.hash, Policy.canonical, unterminated_append hfree, unterminated_newline hline,
                  List.append_nil, squeeze_append hlast, squeeze_blanks hmore, List.append_nil, hhash]
            | false =>
                have hadd := hash_gap hhash hlast hmore hf hline
                have hfree' : ∀ a ∈ held ++ more ++ [f], isNewline a = false :=
                  List.forall_mem_append.2 ⟨hfree, List.forall_mem_singleton.2 hline⟩
                by_cases hend : text = []
                · rw [Draft.finish_end _ _ hline (hnext.trans hend)] at hvisit
                  refine .close_line more (hashByte (d.gap more f).hash f) hp hb hrest hfree (.inr hend)
                    (fun _ hfuel => ?_) hstart ?_ hafter
                  · have hnone := absorbed_of_not_newline hline text
                    rw [hnone] at hvisit ⊢
                    exact hvisit hfuel
                  · rw [hend, List.take_nil, Policy.hash, Policy.canonical, unterminated_of_free hfree',
                      hadd]
                · rw [Draft.finish_more _ _ hline (by rwa [hnext]), absorbed_of_not_newline hline] at hvisit
                  refine .extend_line more (hashByte (d.gap more f).hash f) hb hrest (fun _ => hvisit) hstart
                    fun u hu hcursor => ?_
                  have hlast' : ∀ b ∈ (held ++ more ++ [f]).getLast?, isBlank b = false := by
                    intro c hc
                    rw [List.getLast?_concat, Option.mem_some_iff] at hc
                    exact hc ▸ hf
                  exact ih u.rest.length (by rw [hu]; omega) u _ _ hfree' hlast'
                    (fun h => absurd (hu ▸ h) hend) hcursor hadd rfl

/-! ## Lines up to all blank space -/

/-- Blanks are passed over up to the first other byte, or up to the last blank of the text. -/
theorem answers_passBlanks (t : Tape) (b : UInt8) :
    ∃ more c text, b :: t.rest = more ++ c :: text ∧ (∀ a ∈ more, isBlank a = true) ∧
      (isBlank c = true → text = []) ∧
      ∀ fuel, t.rest.length ≤ fuel →
        Answers (Shows t) (passBlanks fuel b) c (Shows (t.forward more.length)) := by
  induction hlen : t.rest.length using Nat.strong_induction_on generalizing t b with
  | _ len ih =>
      cases hb : isBlank b with
      | false =>
          refine ⟨[], b, t.rest, rfl, by simp, fun h => ?_, fun fuel _ => ?_⟩
          · rw [hb] at h
            cases h
          · rw [List.length_nil, t.forward_zero]
            cases fuel with
            | zero => exact Answers.pure b
            | succ fuel =>
                rw [passBlanks, if_neg (by simp [hb])]
                exact Answers.pure b
      | true =>
          cases hpeek : t.peek? with
          | none =>
              have hrest := t.peek?_eq_none.1 hpeek
              refine ⟨[], b, [], by rw [hrest]; rfl, by simp, fun _ => rfl, fun fuel _ => ?_⟩
              rw [List.length_nil, t.forward_zero]
              cases fuel with
              | zero => exact Answers.pure b
              | succ fuel =>
                  have hnext := answers_next? t
                  rw [t.forward_of_rest_nil hrest] at hnext
                  rw [passBlanks, if_pos hb]
                  refine hnext.bind ?_
                  rw [hpeek]
                  exact Answers.pure b
          | some a =>
              have hrest := t.peek?_eq_some.1 hpeek
              have hlt := t.length_rest_of_peek? hpeek
              obtain ⟨more, c, text, htext, hmore, hc, hpass⟩ := ih _ (by omega) (t.forward 1) a rfl
              refine ⟨b :: more, c, text, ?_, List.forall_mem_cons.2 ⟨hb, hmore⟩, hc, fun fuel hfuel => ?_⟩
              · rw [hrest, htext]
                rfl
              · cases fuel with
                | zero => omega
                | succ fuel =>
                    have hpass := hpass fuel (by omega)
                    rw [t.forward_forward, Nat.add_comm] at hpass
                    rw [passBlanks, if_pos hb]
                    refine (answers_next? t).bind ?_
                    rw [hpeek]
                    exact hpass

def Draft.addUnlessBlank (d : Draft) (b : UInt8) : Draft :=
  { d with hash := if isBlankOrNewline b then d.hash else hashByte d.hash b }

theorem answers_visitWhitespace (t : Tape) (d : Draft) (b : UInt8) :
    ∃ more c text, b :: t.rest = more ++ c :: text ∧ (∀ a ∈ more, isBlank a = true) ∧
      (isBlank c = true → text = []) ∧
      ∀ fuel, t.rest.length ≤ fuel →
        Answers (Shows t) (visitWhitespace fuel d b)
          (.more (if isNewline c = true ∨ text = [] then
            (d.addUnlessBlank c).close (t.forward (more.length + absorbed c text)).cursor
            else d.addUnlessBlank c))
          (Shows (t.forward (more.length + absorbed c text))) := by
  obtain ⟨more, c, text, htext, hmore, hc, hpass⟩ := answers_passBlanks t b
  refine ⟨more, c, text, htext, hmore, hc, fun fuel hfuel => ?_⟩
  have hnext : (t.forward more.length).rest = text := by
    have hdrop := congrArg (List.drop (more.length + 1)) htext
    rw [List.drop_succ_cons] at hdrop
    rw [t.rest_forward, hdrop]
    exact drop_run more text c 0
  have habsorb := answers_absorbLineFeed (t.forward more.length) c
  rw [hnext, t.forward_forward] at habsorb
  unfold visitWhitespace
  refine (hpass fuel hfuel).bind (habsorb.bind ((answers_atEnd_shows _).bind ?_))
  have hend : ((t.forward (more.length + absorbed c text)).rest.isEmpty || isNewline c) = true ↔
      isNewline c = true ∨ text = [] := by
    rw [← t.forward_forward, Tape.rest_forward, hnext]
    cases hline : isNewline c with
    | true => simp
    | false => simp [absorbed_of_not_newline hline]
  have hadd : (if isBlankOrNewline c then d else d.add c) = d.addUnlessBlank c := by
    unfold Draft.addUnlessBlank
    split <;> rfl
  have hclose := answers_closeIf (t.forward (more.length + absorbed c text)) (d.addUnlessBlank c)
    ((t.forward (more.length + absorbed c text)).rest.isEmpty || isNewline c)
  simp only [hend] at hclose
  rw [hadd]
  exact hclose.bind (Answers.pure _)

theorem hash_addUnlessBlank {d : Draft} {held more : List UInt8} {c : UInt8}
    (hhash : d.hash = hashBytes (solid held)) (hmore : ∀ b ∈ more, isBlank b = true)
    (hline : isNewline c = false) :
    (d.addUnlessBlank c).hash = hashBytes (solid (held ++ more ++ [c])) := by
  rw [Draft.addUnlessBlank, solid_append, solid_append, solid_blanks hmore, List.append_nil, hhash,
    isBlankOrNewline, hline, Bool.or_false]
  cases hc : isBlank c with
  | true =>
      have hnone : solid [c] = [] := solid_blanks (List.forall_mem_singleton.2 hc)
      rw [hnone, List.append_nil]
      rfl
  | false =>
      have hone : solid [c] = [c] := by simp [solid, hc]
      rw [hone, hashBytes_concat]
      rfl

theorem finds_whitespace (t : Tape) (d : Draft) (held : List UInt8)
    (hheld : ∀ b ∈ held, isNewline b = false) (hopen : t.rest = [] → held = [])
    (hstart : t.cursor = d.start + held.length) (hhash : d.hash = hashBytes (solid held)) :
    Finds .ignoreWhitespace visitWhitespace t d held := by
  have hp : Policy.ignoreWhitespace.Lines := fun _ _ => rfl
  induction hlen : t.rest.length using Nat.strong_induction_on generalizing t d held with
  | _ len ih =>
      cases hb : t.peek? with
      | none =>
          have hrest := t.peek?_eq_none.1 hb
          rw [hopen hrest]
          exact .stop hrest
      | some b =>
          have hafter : FindsAfter .ignoreWhitespace visitWhitespace t := fun u d hu hs hh =>
            ih _ (hlen ▸ hu) u d [] (by simp) (fun _ => rfl) hs hh rfl
          obtain ⟨more, c, text, htext, hmore, hc, hvisit⟩ := answers_visitWhitespace (t.forward 1) d b
          have hrest : t.rest = more ++ c :: text := by rw [t.peek?_eq_some.1 hb, htext]
          have hmove : 1 + (more.length + absorbed c text) = more.length + 1 + absorbed c text := by
            omega
          have hfree : ∀ a ∈ held ++ more, isNewline a = false :=
            List.forall_mem_append.2 ⟨hheld, fun a ha => not_newline_of_blank (hmore a ha)⟩
          rw [t.forward_forward, hmove] at hvisit
          cases hline : isNewline c with
          | true =>
              have hadd : d.addUnlessBlank c = d := by simp [Draft.addUnlessBlank, isBlankOrNewline, hline]
              rw [if_pos (.inl hline), hadd] at hvisit
              refine .close_line more d.hash hp hb hrest hfree (.inl hline) hvisit hstart ?_ hafter
              rw [Policy.hash, Policy.canonical, unterminated_append hfree, unterminated_newline hline,
                List.append_nil, solid_append, solid_blanks hmore, List.append_nil, hhash]
          | false =>
              have hadd := hash_addUnlessBlank hhash hmore hline
              have hfree' : ∀ a ∈ held ++ more ++ [c], isNewline a = false :=
                List.forall_mem_append.2 ⟨hfree, List.forall_mem_singleton.2 hline⟩
              by_cases hend : text = []
              · rw [if_pos (.inr hend)] at hvisit
                refine .close_line more _ hp hb hrest hfree (.inr hend) hvisit hstart ?_ hafter
                rw [hend, List.take_nil, Policy.hash, Policy.canonical, unterminated_of_free hfree']
                exact hadd
              · rw [if_neg (not_or.2 ⟨by simp [hline], hend⟩), absorbed_of_not_newline hline] at hvisit
                refine .extend_line more _ hb hrest hvisit hstart fun u hu hcursor => ?_
                have hlt : text.length < len := by
                  rw [← hlen, hrest, List.length_append, List.length_cons]
                  omega
                exact ih u.rest.length (by rw [hu]; omega) u _ _ hfree' (fun h => absurd (hu ▸ h) hend)
                  hcursor hadd rfl

end TokenDiff
