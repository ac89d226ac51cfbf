import TokenDiff.Proofs.Answer
import TokenDiff.Proofs.Window.Breaking
import TokenDiff.Token.Sequence

/-!
# Content that cannot be read to its end

A reader that breaks hands out some bytes and then stops with a fault. However few bytes a pass over a window
reads at a time, it comes to the fault: at no place does the window seem to be at its end (`Fades`), each byte
that is visited uses up some of what the reader can still hand out, and there are more visits than that. So a
sequence cannot be built (`ofSource_breaks`). Where the content is not valid under its charset, the fault is
that of the content (`ofSource_malformed`).
-/

namespace TokenDiff

/-- The window has a fault ahead, and at most `k` bytes before it. -/
structure Window.Fades (fails : ReadFault → Prop) (k : Nat) (w : Window) : Prop where
  breaks : w.reader.Breaks fails
  capacity_pos : 0 < w.capacity
  position_le : w.position ≤ w.filled
  filled_le : w.filled ≤ w.buffer.size
  left_le : w.available + w.reader.supply ≤ k

/-- From a window with a fault ahead, `x` stops with such a fault or ends as `post` says. -/
def Outlasts {α : Type} (fails : ReadFault → Prop) (k : Nat) (x : WindowM α) (post : α → Window → Prop) :
    Prop :=
  Leads (Window.Fades fails k) (fun fault => ∃ cause, fault = .read cause ∧ fails cause) x post

open Window

section

variable {fails : ReadFault → Prop} {k : Nat}

/-- There are always bytes that can be taken. -/
theorem outlasts_ready :
    Outlasts fails k ready
      fun n w => n = w.available ∧ 0 < w.available ∧ w.Fades fails k := by
  intro w hw
  have hready : ready w = if w.available = 0 then fill w else .ok w.available w := by
    unfold ready
    change (if w.available = 0 then fill else pure w.available) w = _
    split <;> rfl
  rw [hready]
  by_cases hzero : w.available = 0
  · rw [if_pos hzero]
    have hleft := hw.left_le
    rcases hw.breaks.readSteady hw.capacity_pos with
      ⟨b, data, reader, hread, hbreaks⟩ | ⟨cause, spilled, reader, hread, hcause⟩
    · have hsupply := Reader.length_add_supply_read_le (r := w.reader.settled) hread
      have hsettled := w.reader.supply_settled_le
      simp only [fill, hread]
      refine ⟨rfl, Nat.succ_pos _, hbreaks, hw.capacity_pos, Nat.zero_le _, ?_, ?_⟩
      · simp [overwrite]
      · change (b :: data).length - 0 + reader.supply ≤ k
        omega
    · simp only [fill, hread]
      exact ⟨cause, rfl, hcause⟩
  · rw [if_neg hzero]
    exact ⟨rfl, Nat.pos_of_ne_zero hzero, hw⟩

theorem outlasts_atEnd :
    Outlasts fails k atEnd fun a w => a = false ∧ w.Fades fails k := by
  refine Leads.bind outlasts_ready fun n => Leads.pure ?_
  rintro w ⟨rfl, hpos, hw⟩
  exact ⟨decide_eq_false (Nat.ne_of_gt hpos), hw⟩

theorem outlasts_peek? :
    Outlasts fails k peek?
      fun a w => (∃ b, a = some b) ∧ 0 < w.available ∧ w.Fades fails k := by
  refine Leads.bind outlasts_ready fun n => ?_
  rintro w ⟨rfl, hpos, hw⟩
  rw [if_neg (Nat.ne_of_gt hpos)]
  have hin : w.position < w.buffer.size := by
    have := hw.filled_le
    rw [available] at hpos
    omega
  exact ⟨⟨w.buffer[w.position], Array.getElem?_eq_getElem hin⟩, hpos, hw⟩

theorem Window.Fades.skip {w : Window} (hw : w.Fades fails k) (hpos : 0 < w.available) :
    0 < k ∧ Fades fails (k - 1) { w with position := w.position + 1 } := by
  have hleft := hw.left_le
  rw [available] at hpos hleft
  refine ⟨by omega, hw.breaks, hw.capacity_pos, ?_, hw.filled_le, ?_⟩
  · change w.position + 1 ≤ w.filled
    omega
  · change w.filled - (w.position + 1) + w.reader.supply ≤ k - 1
    omega

theorem outlasts_next? :
    Outlasts fails k next?
      fun a w => (∃ b, a = some b) ∧ 0 < k ∧ w.Fades fails (k - 1) := by
  refine Leads.bind outlasts_peek? fun a => ?_
  rintro w ⟨⟨b, rfl⟩, hpos, hw⟩
  exact ⟨⟨b, rfl⟩, hw.skip hpos⟩

theorem Window.Fades.weaken {w : Window} (hw : w.Fades fails (k - 1)) :
    w.Fades fails k :=
  { hw with left_le := Nat.le_trans hw.left_le (Nat.sub_le k 1) }

theorem outlasts_skipWhile (p : UInt8 → Bool) (fuel : Nat) :
    Outlasts fails k (skipWhile p fuel) fun _ w => w.Fades fails k := by
  induction fuel generalizing k with
  | zero => exact Leads.pure fun w hw => hw
  | succ fuel ih =>
      refine Leads.bind outlasts_peek? fun a => ?_
      rintro w ⟨⟨b, rfl⟩, hpos, hw⟩
      dsimp only
      cases p b with
      | true =>
          have hrest := (ih (k := k - 1)).mono (fun w hw => hw) (fun _ w hw => hw.weaken)
          exact hrest _ (hw.skip hpos).2
      | false => exact hw

/-! ## Visits -/

/-- A visit goes on with the next byte, and uses up what it likes. -/
def Endures {α : Type} (fails : ReadFault → Prop) (x : WindowM (Visit α)) : Prop :=
  ∀ k, Outlasts fails k x fun out w => (∃ a, out = .more a) ∧ w.Fades fails k

theorem outlasts_absorbLineFeed (b : UInt8) :
    Outlasts fails k (absorbLineFeed b) fun _ w => w.Fades fails k := by
  unfold absorbLineFeed
  split
  · refine Leads.bind outlasts_peek? fun a => ?_
    split
    · refine Leads.bind (Leads.mono outlasts_next? (fun w hw => hw.2.2) fun _ _ hw => hw) fun _ => ?_
      exact Leads.pure fun w hw => hw.2.2.weaken
    · exact Leads.pure fun w hw => hw.2.2
  · exact Leads.pure fun w hw => hw

theorem outlasts_closeIf (d : Draft) (condition : Bool) :
    Outlasts fails k (d.closeIf condition) fun _ w => w.Fades fails k := by
  unfold Draft.closeIf
  split
  · exact fun w hw => hw
  · exact Leads.pure fun w hw => hw

theorem endures_more {α : Type} (a : α) : Endures fails (pure (.more a)) :=
  fun _ => Leads.pure fun _ hw => ⟨⟨a, rfl⟩, hw⟩

theorem endures_delimited (delimiter : UInt8) (d : Draft) (b : UInt8) :
    Endures fails (visitDelimited delimiter d b) := by
  intro k
  unfold visitDelimited
  split
  · exact (outlasts_closeIf (d.add b) true).bind fun d' => endures_more d' k
  · refine Leads.bind outlasts_atEnd fun ended => ?_
    refine Leads.bind ((outlasts_closeIf (d.add b) ended).mono (fun w hw => hw.2) fun _ _ hw => hw) ?_
    exact fun d' => endures_more d' k

theorem endures_class (s : Option ByteClass × Draft) (b : UInt8) :
    Endures fails (visitClass s b) :=
  fun _ _ hw => ⟨⟨_, rfl⟩, hw⟩

theorem endures_lineEnding (d : Draft) (b : UInt8) : Endures fails (visitLineEnding d b) := by
  intro k
  unfold visitLineEnding
  split
  · refine (outlasts_absorbLineFeed b).bind fun _ => Leads.bind outlasts_atEnd fun _ => ?_
    refine Leads.bind ((outlasts_closeIf (d.add 10) true).mono (fun w hw => hw.2) fun _ _ hw => hw) ?_
    exact fun d' => endures_more d' k
  · refine Leads.bind outlasts_atEnd fun ended => ?_
    rintro w ⟨rfl, hw⟩
    exact ⟨⟨d.add b, rfl⟩, hw⟩

theorem outlasts_finishByte (d : Draft) (b : UInt8) :
    Outlasts fails k (finishByte d b) fun _ w => w.Fades fails k :=
  (outlasts_absorbLineFeed b).bind fun _ => Leads.bind outlasts_atEnd fun _ =>
    (outlasts_closeIf _ _).mono (fun _ hw => hw.2) fun _ _ hw => hw

theorem endures_blanks (fuel : Nat) (d : Draft) (b : UInt8) :
    Endures fails (visitBlanks fuel d b) := by
  intro k
  unfold visitBlanks
  split
  · refine (outlasts_skipWhile isBlank fuel).bind fun _ => Leads.bind outlasts_peek? fun a => ?_
    rintro w ⟨⟨following, rfl⟩, hpos, hw⟩
    exact Leads.bind (outlasts_finishByte _ following) (fun d' => endures_more d' k) _
      (hw.skip hpos).2.weaken
  · exact (outlasts_finishByte d b).bind fun d' => endures_more d' k

theorem outlasts_passBlanks (fuel : Nat) (b : UInt8) :
    Outlasts fails k (passBlanks fuel b) fun _ w => w.Fades fails k := by
  induction fuel generalizing b k with
  | zero => exact Leads.pure fun w hw => hw
  | succ fuel ih =>
      rw [passBlanks]
      split
      · refine Leads.bind outlasts_next? fun a => ?_
        rintro w ⟨⟨next, rfl⟩, hpos, hw⟩
        exact (ih next).mono (fun w hw => hw) (fun _ w hw => hw.weaken) w hw
      · exact Leads.pure fun w hw => hw

theorem endures_whitespace (fuel : Nat) (d : Draft) (b : UInt8) :
    Endures fails (visitWhitespace fuel d b) := by
  intro k
  refine (outlasts_passBlanks fuel b).bind fun b' => (outlasts_absorbLineFeed b').bind fun _ =>
    Leads.bind outlasts_atEnd fun ended => ?_
  refine Leads.bind ((outlasts_closeIf _ _).mono (fun w hw => hw.2) fun _ _ hw => hw) ?_
  exact fun d' => endures_more d' k

/-- A pass whose visits all go on does not come to an end before the fault. -/
theorem outlasts_visitAll {α : Type} {visit : Nat → α → UInt8 → WindowM (Visit α)}
    (hvisit : ∀ fuel a b, Endures fails (visit fuel a b)) (a : α) :
    Outlasts fails k (visitAll visit a) fun _ _ => False := by
  have hbytes (fuel k : Nat) (a : α) (hfuel : k < fuel) :
      Outlasts fails k (visitBytes visit fuel a) fun _ _ => False := by
    induction fuel generalizing k a with
    | zero => exact absurd hfuel (Nat.not_lt_zero k)
    | succ fuel ih =>
        refine Leads.bind outlasts_next? fun a' => ?_
        rintro w ⟨⟨b, rfl⟩, hpos, hw⟩
        refine Leads.bind (hvisit fuel a b (k - 1)) (fun out => ?_) w hw
        rintro w' ⟨⟨a', rfl⟩, hw'⟩
        exact ih (k - 1) a' (by omega) w' hw'
  intro w hw
  have hbound := w.reader.supply_le_bound
  have hexact : w.Fades fails (w.available + w.reader.supply) :=
    { hw with left_le := Nat.le_refl _ }
  exact hbytes w.bound _ a (by rw [bound]; omega) w hexact

/-- No policy cuts such a content into tokens. -/
theorem outlasts_cutEntries (p : Policy) :
    Outlasts fails k (cutEntries p) fun _ _ => False := by
  have hnone {α β : Type} {x : WindowM α} {f : α → WindowM β}
      (hx : Outlasts fails k x fun _ _ => False) :
      Outlasts fails k (x >>= f) fun _ _ => False :=
    hx.bind fun a w h => h.elim
  cases p with
  | line => exact hnone (outlasts_visitAll (fun _ => endures_delimited 10) _)
  | word => exact hnone (outlasts_visitAll (fun _ => endures_delimited 32) _)
  | wordClass => exact hnone (outlasts_visitAll (fun _ => endures_class) _)
  | lineEnding => exact hnone (outlasts_visitAll (fun _ => endures_lineEnding) _)
  | ignoreBlanks => exact hnone (outlasts_visitAll endures_blanks _)
  | ignoreWhitespace => exact hnone (outlasts_visitAll endures_whitespace _)

end

/-- A sequence cannot be built from a source whose reader breaks. -/
theorem Sequence.ofSource_breaks {source : Source} {reader : Reader} (hreader : source.reader 0 = .ok reader)
    {fails : ReadFault → Prop} (h : reader.Breaks fails) (p : Policy) (tuning : Tuning) :
    ∃ cause, Sequence.ofSource source p tuning = .error (.read cause) ∧ fails cause := by
  obtain ⟨w, hopen, hw⟩ : ∃ w, Window.ofSource source tuning.windowSize = .ok w ∧
      w.Fades fails reader.supply := by
    refine ⟨_, by rw [Window.ofSource, hreader], h, ?_, Nat.le_refl 0, Nat.le_refl 0, ?_⟩
    · exact Nat.lt_of_lt_of_le Nat.one_pos (Nat.le_max_right _ 1)
    · exact Nat.le_of_eq (Nat.zero_add _)
  have hcut := outlasts_cutEntries p w hw
  simp only [ofSource, hopen, bind, Except.bind, EStateM.run]
  cases hres : cutEntries p w with
  | ok entries w' =>
      rw [hres] at hcut
      exact hcut.elim
  | error fault w' =>
      rw [hres] at hcut
      obtain ⟨cause, rfl, hcause⟩ := hcut
      exact ⟨cause, rfl, hcause⟩

/-- A sequence cannot be built of a content that is not valid under its charset, and the fault is that of
the content. -/
theorem Sequence.ofSource_malformed {source : Source} {content : List UInt8} {place : Nat}
    (h : source.Carries content) (hd : source.charset.decode content = .error place) (p : Policy)
    (tuning : Tuning) :
    Sequence.ofSource source p tuning = .error (.read (.malformed source.charset place)) := by
  obtain ⟨reader, hreader, hexpects⟩ := h.expects 0
  rw [hd] at hexpects
  obtain ⟨cause, hfault, rfl⟩ := ofSource_breaks hreader hexpects.breaks p tuning
  exact hfault

end TokenDiff
