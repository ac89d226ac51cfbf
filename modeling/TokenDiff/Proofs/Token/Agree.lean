import Mathlib.Data.List.TakeWhile
import TokenDiff.Proofs.Edit.Search
import TokenDiff.Proofs.Token.Dump
import TokenDiff.Proofs.Window.Compare
import TokenDiff.Token.Equal

/-!
# Which tokens are equal

What the exact comparison of two tokens answers is a function of their bytes, `Policy.agrees`: the walks
through the two windows are walks through two lists, and a token agrees with itself under every policy. A
comparison of two tables through windows over their texts is then one that decides which tokens are the same
(`comparison_decides`), wherever in the texts the windows are and whatever lies in their buffers.
-/

namespace TokenDiff

open Window PairM

/-! ## Agreement of two lists of bytes -/

/-- Whether two lines agree up to their line ends, `last` being the byte before them. -/
def agreeLine (last : UInt8) : List UInt8 → List UInt8 → Bool
  | x :: xs, y :: ys => if x = y then agreeLine x xs ys else isNewline x || isNewline y
  | [], [] => true
  | [], [b] | [b], [] => isNewline b || isNewline last
  | _, _ => isNewline last

/-- Whether two lines agree where, at each place, the bytes that `skips` names are passed over first. It is
told whether both sides are at a blank or a line end. -/
def agreeWalk (skips : Bool → UInt8 → Bool) (xs ys : List UInt8) : Bool :=
  if xs = [] ∨ ys = [] then xs.all isBlankOrNewline && ys.all isBlankOrNewline
  else
    let both := xs.head?.any isBlankOrNewline && ys.head?.any isBlankOrNewline
    match _h : xs.dropWhile (skips both), ys.dropWhile (skips both) with
    | x :: xs', y :: ys' =>
      if x = y then agreeWalk skips xs' ys'
      else (x :: xs').all isBlankOrNewline && (y :: ys').all isBlankOrNewline
    | xs', ys' => xs'.all isBlankOrNewline && ys'.all isBlankOrNewline
termination_by xs.length
decreasing_by
  have hle := (List.dropWhile_sublist (skips both) (l := xs)).length_le
  rw [_h, List.length_cons] at hle
  omega

/-- Whether two tokens agree. -/
def Policy.agrees : Policy → List UInt8 → List UInt8 → Bool
  | .line, xs, ys | .word, xs, ys | .wordClass, xs, ys => xs == ys
  | .lineEnding, xs, ys =>
    decide (xs.length ≤ ys.length + 1 ∧ ys.length ≤ xs.length + 1) && agreeLine 0 xs ys
  | .ignoreBlanks, xs, ys => agreeWalk (fun both b => both && isBlank b) xs ys
  | .ignoreWhitespace, xs, ys => agreeWalk (fun _ => isBlank) xs ys

def Policy.same (p : Policy) (xs ys : List UInt8) : Bool := p.hash xs == p.hash ys && p.agrees xs ys

/-- Whether tokens of two policies are the same: each is hashed under its own, and they agree under the
first one. -/
def Policy.sameAcross (p q : Policy) (xs ys : List UInt8) : Bool := p.hash xs == q.hash ys && p.agrees xs ys

theorem agreeLine_self (last : UInt8) (xs : List UInt8) : agreeLine last xs xs = true := by
  induction xs generalizing last with
  | nil => rfl
  | cons x xs ih => rw [agreeLine, if_pos rfl, ih]

theorem agreeWalk_self (skips : Bool → UInt8 → Bool) (xs : List UInt8) :
    agreeWalk skips xs xs = true := by
  suffices h : ∀ ys, ys = xs → agreeWalk skips xs ys = true from h xs rfl
  intro ys hys
  fun_induction agreeWalk skips xs ys with
  | case1 xs ys hnil =>
      rw [hys, or_self] at hnil
      rw [hys, hnil]
      rfl
  | case2 xs ys hsome both xs' y ys' hright hleft ih =>
      rw [hys, hleft] at hright
      exact ih (List.cons.inj hright).2.symm
  | case3 xs ys hsome both x xs' y ys' hleft hright hne =>
      rw [hys, hleft] at hright
      exact absurd (List.cons.inj hright).1 hne
  | case4 xs ys hsome both h =>
      rw [hys] at h ⊢
      cases hdrop : xs.dropWhile (skips both) with
      | nil => rfl
      | cons x rest => exact (h x rest x rest hdrop hdrop).elim

theorem Policy.same_self (p : Policy) (xs : List UInt8) : p.same xs xs = true := by
  have hagrees : p.agrees xs xs = true := by
    cases p with
    | line => exact beq_self_eq_true xs
    | word => exact beq_self_eq_true xs
    | wordClass => exact beq_self_eq_true xs
    | lineEnding =>
        rw [Policy.agrees, agreeLine_self, Bool.and_true, decide_eq_true_iff]
        exact ⟨Nat.le_succ _, Nat.le_succ _⟩
    | ignoreBlanks => exact agreeWalk_self _ xs
    | ignoreWhitespace => exact agreeWalk_self _ xs
  rw [Policy.same, hagrees, beq_self_eq_true]
  rfl

/-! ## Walks through two windows -/

namespace Leads

variable {α : Type} {pre other : Window → Prop} {fails : Fault → Prop} {x : WindowM α}
  {post : α → Window → Prop}

theorem onLeft (h : Leads pre fails x post) :
    Leads (fun s => pre s.1 ∧ other s.2) fails (onLeft x) (fun a s => post a s.1 ∧ other s.2) := by
  rintro ⟨l, r⟩ ⟨hl, hr⟩
  have hout := h l hl
  rw [PairM.onLeft]
  cases hres : x l with
  | ok a l' =>
      rw [hres] at hout
      exact ⟨hout, hr⟩
  | error e l' =>
      rw [hres] at hout
      exact hout

theorem onRight (h : Leads pre fails x post) :
    Leads (fun s => other s.1 ∧ pre s.2) fails (onRight x) (fun a s => other s.1 ∧ post a s.2) := by
  rintro ⟨l, r⟩ ⟨hl, hr⟩
  have hout := h r hr
  rw [PairM.onRight]
  cases hres : x r with
  | ok a r' =>
      rw [hres] at hout
      exact ⟨hl, hout⟩
  | error e r' =>
      rw [hres] at hout
      exact hout

/-- An operation on two windows, asked from the other side. -/
theorem exchanged {pre post : Window × Window → Prop} {x : PairM α} (h : Leads pre fails x fun _ => post) :
    Leads (fun s => pre s.swap) fails (exchanged x) fun _ s => post s.swap := by
  rintro ⟨l, r⟩ hs
  have hout := h (r, l) hs
  rw [PairM.exchanged]
  cases hres : x (r, l) with
  | ok a s' =>
      rw [hres] at hout
      exact hout
  | error e s' =>
      rw [hres] at hout
      exact hout

end Leads

def BothOver (S T : List UInt8) (s : Window × Window) : Prop := s.1.Over S ∧ s.2.Over T

/-- The walk is at the start of some bytes: it has read the first of them, and the others come next. -/
def Walk.Faces (text xs : List UInt8) (v : Walk) (w : Window) : Prop :=
  ∃ t : Tape, t.bytes = text ∧ w.Shows t ∧ v.left = xs.length ∧ (∀ b ∈ xs.head?, v.byte = b) ∧
    xs.tail <+: t.rest

section

variable {fails : Fault → Prop} {text xs : List UInt8} {v : Walk}

theorem Walk.Faces.over {w : Window} (h : v.Faces text xs w) : w.Over text := by
  obtain ⟨t, ht, hw, -⟩ := h
  exact ⟨t, ht, hw⟩

theorem Walk.Faces.left {w : Window} (h : v.Faces text xs w) : v.left = xs.length := by
  obtain ⟨t, -, -, hleft, -⟩ := h
  exact hleft

theorem Walk.Faces.byte {w : Window} (h : v.Faces text xs w) : ∀ b ∈ xs.head?, v.byte = b := by
  obtain ⟨t, -, -, -, hbyte, -⟩ := h
  exact hbyte

/-- A walk that has just read its byte. -/
theorem leads_next {t : Tape} {x : UInt8} {left : Nat} (hxs : x :: xs <+: t.rest)
    (hleft : left = xs.length + 1) :
    Leads (Shows t) fails Window.next fun b => Walk.Faces t.bytes (x :: xs) ⟨left, b⟩ := by
  obtain ⟨rest, hrest⟩ := hxs
  refine (answers_next t).leads.mono (fun w hw => hw) ?_
  rintro b w ⟨rfl, hw⟩
  refine ⟨t.forward 1, rfl, hw, hleft, ?_, ?_⟩
  · rw [Tape.peek?, ← hrest]
    exact fun b hb => Option.some.inj hb
  · rw [t.rest_forward, ← hrest]
    exact List.prefix_append xs rest

theorem leads_start {t : Tape} (hxs : xs <+: t.rest) :
    Leads (Shows t) fails (Walk.start xs.length) (Walk.Faces t.bytes xs) := by
  unfold Walk.start
  cases xs with
  | nil => exact Leads.pure fun w hw => ⟨t, rfl, hw, rfl, nofun, List.nil_prefix⟩
  | cons x xs => exact (leads_next hxs rfl).bind fun b => Leads.pure fun w hw => hw

theorem leads_step :
    Leads (v.Faces text xs) fails v.step fun v' => Walk.Faces text xs.tail v'.1 := by
  rintro w ⟨t, rfl, hw, hleft, -, hrest⟩
  have hlen := xs.length_tail
  unfold Walk.step
  cases htail : xs.tail with
  | nil =>
      rw [htail, List.length_nil] at hlen
      rw [if_pos (by omega)]
      have hzero : v.left - 1 = 0 := by omega
      exact ⟨t, rfl, hw, hzero, nofun, List.nil_prefix⟩
  | cons y ys =>
      rw [htail] at hrest hlen
      rw [List.length_cons] at hlen
      rw [if_neg (by omega)]
      have hmore : v.left - 1 = ys.length + 1 := by omega
      refine Leads.bind (leads_next hrest hmore) (fun b => ?_) w hw
      exact Leads.pure fun w hw => hw

theorem leads_skip (p : UInt8 → Bool) :
    Leads (v.Faces text xs) fails (v.skip p) fun v' => Walk.Faces text (xs.dropWhile p) v'.1 := by
  induction xs generalizing v with
  | nil =>
      refine Leads.assume (fun w hw => hw.left) fun hleft => ?_
      have hnone : ¬ (0 < v.left ∧ p v.byte) := fun h => by
        rw [hleft] at h
        exact absurd h.1 (Nat.lt_irrefl 0)
      rw [Walk.skip, if_neg hnone]
      exact Leads.pure fun w hw => hw
  | cons x xs ih =>
      have hpre : ∀ w, v.Faces text (x :: xs) w → v.left = xs.length + 1 ∧ v.byte = x :=
        fun w hw => ⟨hw.left, hw.byte x rfl⟩
      refine Leads.assume hpre ?_
      rintro ⟨hleft, hbyte⟩
      have hpos : 0 < v.left := by rw [hleft]; exact Nat.succ_pos _
      rw [Walk.skip, List.dropWhile_cons]
      cases hp : p x with
      | true =>
          have hskip : 0 < v.left ∧ p v.byte = true := ⟨hpos, by rw [hbyte]; exact hp⟩
          rw [if_pos hskip, if_pos rfl]
          exact Leads.bind leads_step fun v' => ih.bind fun v'' => Leads.pure fun w hw => hw
      | false =>
          have hstay : ¬ (0 < v.left ∧ p v.byte = true) := fun h => by
            rw [hbyte, hp] at h
            exact Bool.false_ne_true h.2
          rw [if_neg hstay, if_neg Bool.false_ne_true]
          exact Leads.pure fun w hw => hw

end

/-! ## The walks answer what their bytes say -/

section

variable {S T xs ys : List UInt8}

theorem answers_skipBoth (p : UInt8 → Bool) (v w : Walk) :
    Answers (fun s => v.Faces S xs s.1 ∧ w.Faces T ys s.2) (skipBoth p v w) (xs.all p && ys.all p)
      (BothOver S T) := by
  have hall (l : List UInt8) : (l.dropWhile p).length = 0 ↔ l.all p = true := by
    rw [List.length_eq_zero_iff, List.dropWhile_eq_nil_iff, List.all_eq_true]
  refine Leads.answers ((leads_skip p).onLeft.bind fun v' => (leads_skip p).onRight.bind fun w' => ?_)
  refine Leads.pure fun s hs => ⟨?_, hs.1.over, hs.2.over⟩
  rw [hs.1.left, hs.2.left, Bool.eq_iff_iff, Bool.and_eq_true, Bool.and_eq_true, beq_iff_eq, beq_iff_eq,
    hall, hall]

/-- One round of a walk: the bytes that `skips` names are passed over, and then one byte on each side. -/
def walkRound (skips : UInt8 → Bool) (next : Walk → Walk → PairM Bool) (v w : Walk) : PairM Bool := do
  let ⟨v', _⟩ ← onLeft (v.skip skips)
  let ⟨w', _⟩ ← onRight (w.skip skips)
  if 0 < v'.left ∧ 0 < w'.left ∧ v'.byte = w'.byte then
    let ⟨v'', _⟩ ← onLeft v'.step
    let ⟨w'', _⟩ ← onRight w'.step
    next v'' w''
  else skipBoth isBlankOrNewline v' w'

theorem walkBlanks_eq (v w : Walk) :
    walkBlanks v w =
      if v.left = 0 ∨ w.left = 0 then skipBoth isBlankOrNewline v w
      else walkRound (fun b => isBlankOrNewline v.byte && isBlankOrNewline w.byte && isBlank b)
        walkBlanks v w := by
  rw [walkBlanks]
  rfl

theorem walkWhitespace_eq (v w : Walk) :
    walkWhitespace v w =
      if v.left = 0 ∨ w.left = 0 then skipBoth isBlankOrNewline v w
      else walkRound isBlank walkWhitespace v w := by
  rw [walkWhitespace]
  rfl

variable {p : UInt8 → Bool} {next : Walk → Walk → PairM Bool}

/-- A round that finds the same byte on both sides goes on behind it. -/
theorem answers_walkRound_of_same {x : UInt8} {xs' ys' : List UInt8} {a : Bool}
    (hleft : xs.dropWhile p = x :: xs') (hright : ys.dropWhile p = x :: ys')
    (hnext : ∀ v w, Answers (fun s => v.Faces S xs' s.1 ∧ w.Faces T ys' s.2) (next v w) a (BothOver S T))
    (v w : Walk) :
    Answers (fun s => v.Faces S xs s.1 ∧ w.Faces T ys s.2) (walkRound p next v w) a (BothOver S T) := by
  refine Leads.answers ((leads_skip p).onLeft.bind fun v' => (leads_skip p).onRight.bind fun w' => ?_)
  rw [hleft, hright]
  have hgo : ∀ s : Window × Window, v'.1.Faces S (x :: xs') s.1 ∧ w'.1.Faces T (x :: ys') s.2 →
      0 < v'.1.left ∧ 0 < w'.1.left ∧ v'.1.byte = w'.1.byte := by
    rintro s ⟨hv, hw⟩
    rw [hv.left, hw.left, hv.byte x rfl, hw.byte x rfl]
    exact ⟨Nat.succ_pos _, Nat.succ_pos _, rfl⟩
  refine Leads.assume hgo fun hgo => ?_
  dsimp only
  rw [if_pos hgo]
  exact Leads.bind (Leads.onLeft leads_step) fun v'' =>
    Leads.bind (Leads.onRight leads_step) fun w'' => (hnext v'' w'').leads

/-- A round that finds none stops, and what is left has to be blanks and line ends. -/
theorem answers_walkRound_of_not_same
    (hne : ∀ x xs' ys', xs.dropWhile p = x :: xs' → ys.dropWhile p = x :: ys' → False) (v w : Walk) :
    Answers (fun s => v.Faces S xs s.1 ∧ w.Faces T ys s.2) (walkRound p next v w)
      ((xs.dropWhile p).all isBlankOrNewline && (ys.dropWhile p).all isBlankOrNewline)
      (BothOver S T) := by
  refine Leads.answers ((leads_skip p).onLeft.bind fun v' => (leads_skip p).onRight.bind fun w' => ?_)
  have hstop : ∀ s : Window × Window,
      v'.1.Faces S (xs.dropWhile p) s.1 ∧ w'.1.Faces T (ys.dropWhile p) s.2 →
      ¬ (0 < v'.1.left ∧ 0 < w'.1.left ∧ v'.1.byte = w'.1.byte) := by
    rintro s ⟨hv, hw⟩ ⟨hpos, hpos', hsame⟩
    rw [hv.left] at hpos
    rw [hw.left] at hpos'
    obtain ⟨x, xs', hleft⟩ := List.exists_cons_of_length_pos hpos
    obtain ⟨y, ys', hright⟩ := List.exists_cons_of_length_pos hpos'
    rw [hv.byte x (by rw [hleft]; rfl), hw.byte y (by rw [hright]; rfl)] at hsame
    exact hne x xs' ys' hleft (hsame ▸ hright)
  refine Leads.assume hstop fun hstop => ?_
  dsimp only
  rw [if_neg hstop]
  exact (answers_skipBoth isBlankOrNewline v'.1 w'.1).leads

/-- A walk in rounds answers whether the bytes agree. -/
theorem answers_walk {skips : Bool → UInt8 → Bool} {walk : Walk → Walk → PairM Bool}
    (hwalk : ∀ v w, walk v w =
      if v.left = 0 ∨ w.left = 0 then skipBoth isBlankOrNewline v w
      else walkRound (skips (isBlankOrNewline v.byte && isBlankOrNewline w.byte)) walk v w)
    (v w : Walk) :
    Answers (fun s => v.Faces S xs s.1 ∧ w.Faces T ys s.2) (walk v w) (agreeWalk skips xs ys)
      (BothOver S T) := by
  have hend (v w : Walk) (xs ys : List UInt8) (s : Window × Window)
      (hs : v.Faces S xs s.1 ∧ w.Faces T ys s.2) : (v.left = 0 ∨ w.left = 0) ↔ (xs = [] ∨ ys = []) := by
    rw [hs.1.left, hs.2.left, List.length_eq_zero_iff, List.length_eq_zero_iff]
  -- the first bytes decide which bytes are passed over
  have hround (v w : Walk) (xs ys : List UInt8) (hsome : ¬ (xs = [] ∨ ys = [])) (s : Window × Window)
      (hs : v.Faces S xs s.1 ∧ w.Faces T ys s.2) :
      walk v w = walkRound (skips (xs.head?.any isBlankOrNewline && ys.head?.any isBlankOrNewline))
        walk v w := by
    obtain ⟨x, xs', rfl⟩ := List.exists_cons_of_ne_nil fun h => hsome (.inl h)
    obtain ⟨y, ys', rfl⟩ := List.exists_cons_of_ne_nil fun h => hsome (.inr h)
    conv_lhs => rw [hwalk]
    rw [if_neg fun h => hsome ((hend v w _ _ s hs).1 h), hs.1.byte x rfl, hs.2.byte y rfl]
    rfl
  fun_induction agreeWalk skips xs ys generalizing v w with
  | case1 xs ys hnil =>
      intro s hs
      rw [hwalk, if_pos ((hend v w xs ys s hs).2 hnil)]
      exact answers_skipBoth isBlankOrNewline v w s hs
  | case2 xs ys hsome both xs' y ys' hright hleft ih =>
      intro s hs
      rw [hround v w xs ys hsome s hs]
      exact answers_walkRound_of_same hleft hright ih v w s hs
  | case3 xs ys hsome both x xs' y ys' hleft hright hne =>
      intro s hs
      rw [hround v w xs ys hsome s hs, ← hleft, ← hright]
      refine answers_walkRound_of_not_same (fun z zs zs' hz hz' => hne ?_) v w s hs
      rw [(List.cons.inj (hleft.symm.trans hz)).1, (List.cons.inj (hright.symm.trans hz')).1]
  | case4 xs ys hsome both h =>
      intro s hs
      rw [hround v w xs ys hsome s hs]
      exact answers_walkRound_of_not_same (fun z zs zs' hz hz' => h z zs z zs' hz hz') v w s hs

/-- What the comparison of two lines makes of the places where it has stopped. -/
def endLine (v w : Walk) : PairM Bool := do
  let byDefault := !((v.left != 0 || w.left != 0) && !isNewline v.byte && !isNewline w.byte)
  if v.left = 0 ∧ w.left = 1 then
    if isNewline (← onRight Window.next) then return true else return byDefault
  else if w.left = 0 ∧ v.left = 1 then
    if isNewline (← onLeft Window.next) then return true else return byDefault
  else return byDefault

theorem answers_endLine_of_differ (m n : Nat) (x y : UInt8) {pre : Window × Window → Prop} :
    Answers pre (endLine ⟨m + 1, x⟩ ⟨n + 1, y⟩) (isNewline x || isNewline y) pre := by
  have hanswer : endLine ⟨m + 1, x⟩ ⟨n + 1, y⟩ = pure (isNewline x || isNewline y) := by
    simp [endLine]
  rw [hanswer]
  exact Answers.pure _

theorem answers_next_of_ahead {t : Tape} {x : UInt8} (h : x :: xs <+: t.rest) :
    Answers (Shows t) Window.next x (Shows (t.forward 1)) ∧ xs <+: (t.forward 1).rest := by
  obtain ⟨rest, hrest⟩ := h
  have hnext := answers_next t
  rw [Tape.peek?, ← hrest] at hnext
  rw [t.rest_forward, ← hrest]
  exact ⟨hnext, List.prefix_append xs rest⟩

/-- Where one of two lines has ended, a single byte of the other one may still be its line end. -/
theorem answers_endLine_of_end (last : UInt8) {t u : Tape} (hxs : xs <+: t.rest) (hys : ys <+: u.rest)
    (hend : xs = [] ∨ ys = []) :
    Answers (Both t u) (endLine ⟨xs.length, last⟩ ⟨ys.length, last⟩) (agreeLine last xs ys)
      (BothOver t.bytes u.bytes) := by
  have hover : ∀ {t' u' : Tape} (s : Window × Window), t'.bytes = t.bytes → u'.bytes = u.bytes →
      Both t' u' s → BothOver t.bytes u.bytes s :=
    fun s ht hu hs => ⟨⟨_, ht, hs.1⟩, ⟨_, hu, hs.2⟩⟩
  have hread (b : UInt8) : (if isNewline b then return true else return isNewline last : PairM Bool) =
      pure (isNewline b || isNewline last) := by
    cases isNewline b <;> rfl
  match xs, ys, hxs, hys, hend with
  | [], [], _, _, _ =>
      have hanswer : endLine ⟨0, last⟩ ⟨0, last⟩ = pure true := by simp [endLine]
      exact (hanswer ▸ Answers.pure true).mono (fun s hs => hs) fun s hs => hover s rfl rfl hs
  | [], [b], _, hys, _ =>
      have hanswer : endLine ⟨0, last⟩ ⟨1, last⟩ =
          onRight Window.next >>= fun b => pure (isNewline b || isNewline last) := by
        simp [endLine, hread]
      change Answers _ (endLine ⟨0, last⟩ ⟨1, last⟩) _ _
      rw [hanswer]
      refine (answers_next_of_ahead hys).1.onRight.bind ((Answers.pure _).mono (fun s hs => hs) fun s hs => ?_)
      exact hover s rfl (u.forward_bytes 1) hs
  | [], b :: c :: bytes, _, _, _ =>
      have hanswer : endLine ⟨0, last⟩ ⟨bytes.length + 2, last⟩ = pure (isNewline last) := by
        simp [endLine]
      exact (hanswer ▸ Answers.pure _).mono (fun s hs => hs) fun s hs => hover s rfl rfl hs
  | [b], [], hxs, _, _ =>
      have hanswer : endLine ⟨1, last⟩ ⟨0, last⟩ =
          onLeft Window.next >>= fun b => pure (isNewline b || isNewline last) := by
        simp [endLine, hread]
      change Answers _ (endLine ⟨1, last⟩ ⟨0, last⟩) _ _
      rw [hanswer]
      refine (answers_next_of_ahead hxs).1.onLeft.bind ((Answers.pure _).mono (fun s hs => hs) fun s hs => ?_)
      exact hover s (t.forward_bytes 1) rfl hs
  | b :: c :: bytes, [], _, _, _ =>
      have hanswer : endLine ⟨bytes.length + 2, last⟩ ⟨0, last⟩ = pure (isNewline last) := by
        simp [endLine]
      exact (hanswer ▸ Answers.pure _).mono (fun s hs => hs) fun s hs => hover s rfl rfl hs

/-- Two lines are read up to the first difference, and the end settles whether they agree. -/
theorem answers_sameLine (last : UInt8) {t u : Tape} (hxs : xs <+: t.rest) (hys : ys <+: u.rest) :
    Answers (Both t u) (walkEqual xs.length ys.length last last >>= fun r => endLine r.1 r.2)
      (agreeLine last xs ys) (BothOver t.bytes u.bytes) := by
  have hstop (xs ys : List UInt8) (last : UInt8) (hend : xs = [] ∨ ys = []) :
      walkEqual xs.length ys.length last last = pure (⟨xs.length, last⟩, ⟨ys.length, last⟩) := by
    rcases hend with rfl | rfl
    · rw [walkEqual]
      exact fun m n hm => absurd hm (Nat.zero_ne_add_one m)
    · rw [walkEqual]
      exact fun m n hm hn => absurd hn (Nat.zero_ne_add_one n)
  induction xs generalizing t u ys last with
  | nil =>
      rw [hstop [] ys last (.inl rfl)]
      exact answers_endLine_of_end last hxs hys (.inl rfl)
  | cons x xs ih =>
      cases ys with
      | nil =>
          rw [hstop (x :: xs) [] last (.inr rfl)]
          exact answers_endLine_of_end last hxs hys (.inr rfl)
      | cons y ys =>
          obtain ⟨hleft, hxs'⟩ := answers_next_of_ahead hxs
          obtain ⟨hright, hys'⟩ := answers_next_of_ahead hys
          rw [List.length_cons, List.length_cons, walkEqual, bind_assoc]
          refine hleft.onLeft.bind ?_
          rw [bind_assoc]
          refine hright.onRight.bind ?_
          rw [agreeLine]
          by_cases hxy : x = y
          · rw [if_pos hxy, if_pos hxy, ← hxy]
            exact ih x hxs' hys'
          · rw [if_neg hxy, if_neg hxy, pure_bind]
            exact (answers_endLine_of_differ _ _ x y).mono (fun s hs => hs)
              fun s hs => ⟨⟨_, t.forward_bytes 1, hs.1⟩, ⟨_, u.forward_bytes 1, hs.2⟩⟩

/-! ## The comparison of two tables -/

variable {p q : Policy} {i j : Nat}

theorem answers_seekBoth (hi : i ≤ (p.tokens S).length) (hj : j ≤ (q.tokens T).length) :
    Answers (BothOver S T) (seekBoth (p.table S) (q.table T) i j) () (Both (p.tapeAt S i) (q.tapeAt T j)) :=
  (answers_seek_token p S hi).onLeft.bind (answers_seek_token q T hj).onRight

theorem prefix_tapeAt_rest (hi : i < (p.tokens S).length) : (p.tokens S)[i] <+: (p.tapeAt S i).rest := by
  rw [tapeAt_rest, List.drop_eq_getElem_cons hi, List.flatten_cons]
  exact List.prefix_append _ _

/-- Two lists of the same length have a first difference unless they are equal. -/
theorem firstOrder_zip_eq {xs ys : List UInt8} (hlen : xs.length = ys.length) :
    firstOrder (xs.zip ys) = .eq ↔ xs = ys := by
  induction xs generalizing ys with
  | nil =>
      rw [List.length_nil, eq_comm, List.length_eq_zero_iff] at hlen
      rw [hlen]
      exact ⟨fun _ => rfl, fun _ => rfl⟩
  | cons x xs ih =>
      cases ys with
      | nil => cases hlen
      | cons y ys =>
          have htail := ih (Nat.succ.inj hlen)
          rw [firstOrder] at htail ⊢
          rw [List.zip_cons_cons, List.find?_cons]
          by_cases hxy : x = y
          · have hsame : differ (x, y) = false := by simp [differ, hxy]
            rw [hsame, hxy, List.cons.injEq, ← htail]
            simp
          · have hdiffer : differ (x, y) = true := by simp [differ, hxy]
            rw [hdiffer]
            simp [hxy]

/-- The text of two tokens is compared byte by byte. -/
theorem answers_compare_tokens {xs ys : List UInt8} {t u : Tape} (hxs : xs <+: t.rest)
    (hys : ys <+: u.rest) (hlen : xs.length = ys.length) :
    Answers (Both t u) (do return (← Window.compare xs.length) == .eq) (xs == ys)
      (BothOver t.bytes u.bytes) := by
  have hzip : (t.rest.zip u.rest).take xs.length = xs.zip ys := by
    obtain ⟨rest, hrest⟩ := hxs
    obtain ⟨rest', hrest'⟩ := hys
    rw [← hrest, ← hrest', List.zip_append hlen]
    have hcount : (xs.zip ys).length = xs.length := by rw [List.length_zip, ← hlen, Nat.min_self]
    exact hcount ▸ List.take_left
  have hanswer : (firstOrder (xs.zip ys) == .eq) = (xs == ys) := by
    rw [Bool.eq_iff_iff, beq_iff_eq, beq_iff_eq, firstOrder_zip_eq hlen]
  have hcompare := answers_compare t u xs.length
  rw [hzip] at hcompare
  rw [← hanswer]
  exact hcompare.bind ((Answers.pure _).mono (fun s hs => hs) fun s hs =>
    ⟨⟨_, t.forward_bytes _, hs.1⟩, ⟨_, u.forward_bytes _, hs.2⟩⟩)

/-- The exact comparison of two tokens answers whether their bytes agree. The policy of the old table
decides. -/
theorem answers_equalText (hi : i < (p.tokens S).length) (hj : j < (q.tokens T).length) :
    Answers (BothOver S T) ((p.table S).equalText (q.table T) i j)
      (p.agrees (p.tokens S)[i] (q.tokens T)[j]) (BothOver S T) := by
  have hxs := prefix_tapeAt_rest hi
  have hys := prefix_tapeAt_rest hj
  have hseek := answers_seekBoth (Nat.le_of_lt hi) (Nat.le_of_lt hj)
  have hleft : (p.table S).length i = .ok (p.tokens S)[i].length := by
    rw [Table.length, length?_table p S hi]
  have hright : (q.table T).length j = .ok (q.tokens T)[j].length := by
    rw [Table.length, length?_table q T hj]
  rw [Table.equalText, hleft, hright, policy_table]
  generalize (p.tokens S)[i] = xs at hxs ⊢
  generalize (q.tokens T)[j] = ys at hys ⊢
  refine (Answers.ofExcept xs.length).bind ((Answers.ofExcept ys.length).bind ?_)
  have hbytes : Answers (BothOver S T)
      (if xs.length = ys.length then do
        seekBoth (p.table S) (q.table T) i j
        return (← Window.compare xs.length) == .eq
      else return false) (xs == ys) (BothOver S T) := by
    by_cases hlen : xs.length = ys.length
    · rw [if_pos hlen]
      exact hseek.bind (answers_compare_tokens hxs hys hlen)
    · have hne : (xs == ys) = false := beq_false_of_ne fun h => hlen (congrArg List.length h)
      rw [if_neg hlen, hne]
      exact Answers.pure false
  have hstart {f : Walk → Walk → PairM Bool} {a : Bool}
      (hf : ∀ v w, Answers (fun s => v.Faces S xs s.1 ∧ w.Faces T ys s.2) (f v w) a (BothOver S T)) :
      Answers (BothOver S T) (do
        seekBoth (p.table S) (q.table T) i j
        let v ← onLeft (Walk.start xs.length)
        let w ← onRight (Walk.start ys.length)
        f v w) a (BothOver S T) := by
    refine hseek.bind (Leads.answers ?_)
    exact (leads_start hxs).onLeft.bind fun v => (leads_start hys).onRight.bind fun w => (hf v w).leads
  cases p with
  | line => exact hbytes
  | word => exact hbytes
  | wordClass => exact hbytes
  | lineEnding =>
      rw [Policy.agrees]
      by_cases hlen : xs.length ≤ ys.length + 1 ∧ ys.length ≤ xs.length + 1
      · rw [decide_eq_true hlen, Bool.true_and]
        dsimp only
        rw [if_pos hlen]
        exact hseek.bind (answers_sameLine 0 hxs hys)
      · rw [decide_eq_false hlen, Bool.false_and]
        dsimp only
        rw [if_neg hlen]
        exact Answers.pure false
  | ignoreBlanks => exact hstart (answers_walk walkBlanks_eq)
  | ignoreWhitespace => exact hstart (answers_walk walkWhitespace_eq)

theorem likely_table (hi : i < (p.tokens S).length) (hj : j < (q.tokens T).length) :
    (p.table S).likely (q.table T) i j = .ok (p.hash (p.tokens S)[i] == q.hash (q.tokens T)[j]) := by
  rw [Table.likely, Table.hash, Table.hash, hash?_table p S hi, hash?_table q T hj]
  rfl

/-- Tokens of two policies are equal through their windows if they are the same. -/
theorem answers_equal_across (hi : i < (p.tokens S).length) (hj : j < (q.tokens T).length) :
    Answers (BothOver S T) ((p.table S).equal (q.table T) i j)
      (p.sameAcross q (p.tokens S)[i] (q.tokens T)[j]) (BothOver S T) := by
  rw [Table.equal, likely_table hi hj, Policy.sameAcross]
  refine (Answers.ofExcept _).bind ?_
  cases p.hash (p.tokens S)[i] == q.hash (q.tokens T)[j] with
  | true => exact answers_equalText hi hj
  | false => exact Answers.pure false

theorem answers_equal (hi : i < (p.tokens S).length) (hj : j < (p.tokens T).length) :
    Answers (BothOver S T) ((p.table S).equal (p.table T) i j)
      (p.same (p.tokens S)[i] (p.tokens T)[j]) (BothOver S T) :=
  answers_equal_across hi hj

end

/-- Whether two tokens of two texts are the same; the empty token stands for those that are not there. -/
def Policy.sameAt (p : Policy) (S T : List UInt8) (i j : Nat) : Bool :=
  p.same ((p.tokens S)[i]?.getD []) ((p.tokens T)[j]?.getD [])

theorem Policy.sameAt_eq {p : Policy} {S T : List UInt8} {i j : Nat} (hi : i < (p.tokens S).length)
    (hj : j < (p.tokens T).length) : p.sameAt S T i j = p.same (p.tokens S)[i] (p.tokens T)[j] := by
  rw [sameAt, List.getElem?_eq_getElem hi, List.getElem?_eq_getElem hj]
  rfl

/-- Whether tokens of two texts are the same, each text being cut under its own policy. -/
def Policy.sameAtAcross (p q : Policy) (S T : List UInt8) (i j : Nat) : Bool :=
  p.sameAcross q ((p.tokens S)[i]?.getD []) ((q.tokens T)[j]?.getD [])

theorem Policy.sameAtAcross_eq {p q : Policy} {S T : List UInt8} {i j : Nat}
    (hi : i < (p.tokens S).length) (hj : j < (q.tokens T).length) :
    p.sameAtAcross q S T i j = p.sameAcross q (p.tokens S)[i] (q.tokens T)[j] := by
  rw [sameAtAcross, List.getElem?_eq_getElem hi, List.getElem?_eq_getElem hj]
  rfl

/-- The comparison of the tables of two texts decides which tokens are the same, wherever in the texts its
windows are, also where the texts are cut under two policies. -/
theorem comparison_decides_across (p q : Policy) (S T : List UInt8) :
    ((p.table S).comparison (q.table T)).Decides (BothOver S T) (fun _ => False)
      (p.sameAtAcross q S T) where
  equal i j hi hj := by
    change i < (p.table S).count at hi
    change j < (q.table T).count at hj
    rw [count_table] at hi hj
    rw [Policy.sameAtAcross_eq hi hj]
    exact (answers_equal_across hi hj).ensures
  likely i j hi hj hsame := by
    change i < (p.table S).count at hi
    change j < (q.table T).count at hj
    rw [count_table] at hi hj
    rw [Policy.sameAtAcross_eq hi hj, Policy.sameAcross, Bool.and_eq_true] at hsame
    change ((p.table S).hash? i == (q.table T).hash? j) = true
    rw [hash?_table p S hi, hash?_table q T hj]
    exact hsame.1

/-- The comparison of the tables of two texts decides which tokens are the same, wherever in the texts its
windows are. -/
theorem comparison_decides (p : Policy) (S T : List UInt8) :
    ((p.table S).comparison (p.table T)).Decides (BothOver S T) (fun _ => False) (p.sameAt S T) :=
  comparison_decides_across p p S T

end TokenDiff
