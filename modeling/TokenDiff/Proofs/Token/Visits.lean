import TokenDiff.Proofs.Token.Reference
import TokenDiff.Proofs.Window.Tape

/-!
# A pass as visits along a tape

A pass over a window is taken apart into visits: `Visits` says that the visits of a pass lead from one state
of its draft to another on a tape, each of them with an answer that the tape decides and however much fuel
there is, if it is enough. For each policy an induction along the tape then keeps the promise that the open
token, with what is still to be read, will be cut as the reference cuts them (`Finds`). What a draft promises
is `Draft.promise`.
-/

namespace TokenDiff

open Window

/-! ## Passes over a tape -/

/-- The visits of a pass from a place of a tape on lead from one value to another. -/
inductive Visits {α : Type} (visit : Nat → α → UInt8 → WindowM (Visit α)) : Tape → α → α → Prop
  | stop {t : Tape} {a : α} (h : t.rest = []) : Visits visit t a a
  | more {t : Tape} {a a' a'' : α} {b : UInt8} {k : Nat} (hb : t.peek? = some b) (hk : 0 < k)
      (hvisit : ∀ fuel, (t.forward 1).rest.length ≤ fuel →
        Answers (Shows (t.forward 1)) (visit fuel a b) (.more a') (Shows (t.forward k)))
      (rest : Visits visit (t.forward k) a' a'') : Visits visit t a a''
  | done {t : Tape} {a a' : α} {b : UInt8} {k : Nat} (hb : t.peek? = some b)
      (hvisit : ∀ fuel, (t.forward 1).rest.length ≤ fuel →
        Answers (Shows (t.forward 1)) (visit fuel a b) (.done a') (Shows (t.forward k)))
      (hend : (t.forward k).rest = []) : Visits visit t a a'

namespace Visits

variable {α : Type} {visit : Nat → α → UInt8 → WindowM (Visit α)} {t : Tape} {a a' : α}

/-- The pass answers what its visits lead to and leaves the window at the end. -/
theorem answers_visitBytes (h : Visits visit t a a') {fuel : Nat} (hfuel : t.rest.length ≤ fuel) :
    Answers (Shows t) (visitBytes visit fuel a) a' (Shows t.toEnd) := by
  induction h generalizing fuel with
  | @stop t a hrest =>
      rw [t.toEnd_of_rest_nil hrest]
      cases fuel with
      | zero => exact Answers.pure a
      | succ fuel =>
          have hnext := answers_next? t
          rw [t.forward_of_rest_nil hrest, t.peek?_eq_none.2 hrest] at hnext
          exact hnext.bind (Answers.pure a)
  | @more t a a' a'' b k hb hk hvisit rest ih =>
      have hlen := t.length_rest_of_peek? hb
      cases fuel with
      | zero => omega
      | succ fuel =>
          have hrest : (t.forward k).rest.length ≤ fuel := by
            rw [t.rest_forward, List.length_drop]
            omega
          refine (answers_next? t).bind ?_
          rw [hb]
          exact (hvisit fuel (by omega)).bind (ih hrest)
  | @done t a a' b k hb hvisit hend =>
      have hlen := t.length_rest_of_peek? hb
      rw [← t.toEnd_forward k, Tape.toEnd_of_rest_nil _ hend]
      cases fuel with
      | zero => omega
      | succ fuel =>
          refine (answers_next? t).bind ?_
          rw [hb]
          exact (hvisit fuel (by omega)).bind (Answers.pure a')

theorem answers (h : Visits visit t a a') :
    Answers (Shows t) (visitAll visit a) a' (Shows t.toEnd) :=
  Answers.bind_get fun w hw => h.answers_visitBytes (Nat.le_of_lt hw.length_rest_lt_bound) w hw

end Visits

/-! ## Drafts -/

namespace Draft

variable {p : Policy} {d : Draft}

/-- The entries that the draft will have when these tokens are found from its open one on. -/
def promise (d : Draft) (p : Policy) (tokens : List (List UInt8)) : List Entry :=
  d.closed.toList ++ p.entriesFrom d.start tokens

theorem promise_nil (d : Draft) (p : Policy) : d.promise p [] = d.entries.toList := by
  rw [promise, Policy.entriesFrom, entries, Array.toList_push]

theorem promise_close (d : Draft) {token : List UInt8} {stop : Nat} (hhash : d.hash = p.hash token)
    (hstop : stop = d.start + token.length) (tokens : List (List UInt8)) :
    (d.close stop).promise p tokens = d.promise p (token :: tokens) := by
  rw [promise, promise, close, Array.toList_push, Policy.entriesFrom, hhash, hstop, List.append_assoc]
  rfl

end Draft

section

variable (t : Tape) (d : Draft)

theorem answers_closeHere : Answers (Shows t) d.closeHere (d.close t.cursor) (Shows t) :=
  Answers.bind_get fun w h => ⟨w, by rw [h.tell_eq]; rfl, h⟩

theorem answers_closeIf (condition : Bool) :
    Answers (Shows t) (d.closeIf condition) (if condition then d.close t.cursor else d) (Shows t) := by
  unfold Draft.closeIf
  cases condition with
  | true => exact answers_closeHere t d
  | false => exact Answers.pure d

theorem answers_atEnd_shows : Answers (Shows t) atEnd t.rest.isEmpty (Shows t) :=
  (answers_atEnd t).mono (fun _ h => h) fun _ h => h.toShows

end

/-- The visits from a place of a tape on, with a draft whose open token has the bytes `held` so far, lead to
the entries of the tokens that these bytes and the rest of the tape are cut into. -/
def Finds (p : Policy) (visit : Nat → Draft → UInt8 → WindowM (Visit Draft)) (t : Tape) (d : Draft)
    (held : List UInt8) : Prop :=
  ∃ d', Visits visit t d d' ∧ d'.entries.toList = d.promise p (p.tokens (held ++ t.rest))

/-- The same of every shorter rest of the tape, from where a token starts on. -/
def FindsAfter (p : Policy) (visit : Nat → Draft → UInt8 → WindowM (Visit Draft)) (t : Tape) : Prop :=
  ∀ (u : Tape) (d : Draft), u.rest.length < t.rest.length → u.cursor = d.start → d.hash = 0 →
    Finds p visit u d []

namespace Finds

variable {p : Policy} {visit : Nat → Draft → UInt8 → WindowM (Visit Draft)} {t : Tape} {d : Draft}
  {held : List UInt8} {b : UInt8} {k : Nat} {hash : UInt32}

theorem stop (hrest : t.rest = []) : Finds p visit t d [] := by
  refine ⟨d, .stop hrest, ?_⟩
  rw [hrest, List.append_nil, Policy.tokens_nil, d.promise_nil]

theorem extend (hb : t.peek? = some b) (hk : 0 < k)
    (hvisit : ∀ fuel, (t.forward 1).rest.length ≤ fuel → Answers (Shows (t.forward 1)) (visit fuel d b)
      (.more { d with hash }) (Shows (t.forward k)))
    (rest : Finds p visit (t.forward k) { d with hash } (held ++ t.rest.take k)) :
    Finds p visit t d held := by
  obtain ⟨d', hd', hout⟩ := rest
  refine ⟨d', .more hb hk hvisit hd', ?_⟩
  rw [hout, t.rest_forward, List.append_assoc, List.take_append_drop]
  rfl

theorem close (hb : t.peek? = some b) (hk : 0 < k) (hle : k ≤ t.rest.length)
    (hvisit : ∀ fuel, (t.forward 1).rest.length ≤ fuel → Answers (Shows (t.forward 1)) (visit fuel d b)
      (.more (Draft.close { d with hash } (t.forward k).cursor)) (Shows (t.forward k)))
    (hstart : t.cursor = d.start + held.length) (hhash : hash = p.hash (held ++ t.rest.take k))
    (htokens : p.tokens (held ++ t.rest) = (held ++ t.rest.take k) :: p.tokens (t.forward k).rest)
    (after : FindsAfter p visit t) : Finds p visit t d held := by
  have hlt : (t.forward k).rest.length < t.rest.length := by
    rw [t.rest_forward, List.length_drop]
    omega
  obtain ⟨d', hd', hout⟩ :=
    after (t.forward k) (Draft.close { d with hash } (t.forward k).cursor) hlt rfl rfl
  refine ⟨d', .more hb hk hvisit hd', ?_⟩
  rw [hout, List.nil_append, Draft.promise_close { d with hash } hhash, htokens]
  · rfl
  · rw [t.forward_cursor_of_le hle, hstart, List.length_append, List.length_take, Nat.min_eq_left hle,
      Nat.add_assoc]

theorem done (hb : t.peek? = some b)
    (hvisit : ∀ fuel, (t.forward 1).rest.length ≤ fuel → Answers (Shows (t.forward 1)) (visit fuel d b)
      (.done (d.close (t.forward k).cursor)) (Shows (t.forward k)))
    (hend : (t.forward k).rest = []) (hstart : t.cursor = d.start + held.length)
    (hhash : d.hash = p.hash (held ++ t.rest)) (htokens : p.tokens (held ++ t.rest) = [held ++ t.rest]) :
    Finds p visit t d held := by
  refine ⟨_, .done hb hvisit hend, ?_⟩
  have hcursor : (t.forward k).cursor = d.start + (held ++ t.rest).length := by
    have hle := t.cursor_le
    rw [t.rest_forward, List.drop_eq_nil_iff, t.length_rest] at hend
    rw [List.length_append, t.length_rest, t.forward_cursor]
    omega
  rw [← Draft.promise_nil _ p, d.promise_close hhash hcursor, htokens]

end Finds

end TokenDiff
