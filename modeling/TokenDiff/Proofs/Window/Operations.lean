import TokenDiff.Proofs.Window.Compare
import TokenDiff.Proofs.Window.Copy
import TokenDiff.Proofs.Window.Decoding

/-!
# Programs over two windows

A program is a list of operations on two windows, each of which is for one of them or compares them. The
same program can be read as one over two tapes, where an operation is a function. Over sources that replay
the bytes of the tapes, windows of any size answer every operation as the tapes do and are left at the same
places (`windows_refine_tapes`). What one operation does is `WindowOp.answers` and `PairOp.answers`; a
program follows by induction.
-/

namespace TokenDiff

inductive Reply where
  | done
  | byte (b : UInt8)
  | byte? (b : Option UInt8)
  | flag (b : Bool)
  | bytes (data : List UInt8)
  | order (o : Ordering)
deriving DecidableEq, Repr

inductive WindowOp where
  | rewind
  | seek (target : Nat)
  | atEnd
  | peek?
  | next?
  | next
  | advance
  | copy (room length : Nat) (type : LineType)

namespace WindowOp

def run : WindowOp → WindowM Reply
  | rewind => do
    Window.rewind
    return .done
  | seek target => do
    Window.seek target
    return .done
  | atEnd => return .flag (← Window.atEnd)
  | peek? => return .byte? (← Window.peek?)
  | next? => return .byte? (← Window.next?)
  | next => return .byte (← Window.next)
  | advance => do
    Window.advance
    return .done
  | copy room length type => return .bytes (← Window.copy room length type)

def apply (t : Tape) : WindowOp → Reply × Tape
  | rewind => (.done, t.seek 0)
  | seek target => (.done, t.seek target)
  | atEnd => (.flag t.rest.isEmpty, t)
  | peek? => (.byte? t.peek?, t)
  | next? => (.byte? t.peek?, t.forward 1)
  | next => (.byte (t.peek?.getD 0), t.forward 1)
  | advance => (.done, t.forward 1)
  | copy room length type =>
    let used := type.used room length t.rest
    (.bytes (type.translate used), t.forward used.length)

theorem answers (op : WindowOp) (t : Tape) :
    Answers (Window.Shows t) op.run (op.apply t).1 (Window.Shows (op.apply t).2) := by
  have hloaded : ∀ w : Window, w.Loaded t → w.Shows t := fun w h => h.toShows
  cases op with
  | rewind => exact (Window.answers_rewind t).bind (Answers.pure _)
  | seek target => exact (Window.answers_seek t target).bind (Answers.pure _)
  | atEnd =>
      exact ((Window.answers_atEnd t).mono (fun _ h => h) hloaded).bind (Answers.pure _)
  | peek? =>
      exact ((Window.answers_peek? t).mono (fun _ h => h) hloaded).bind (Answers.pure _)
  | next? => exact (Window.answers_next? t).bind (Answers.pure _)
  | next => exact (Window.answers_next t).bind (Answers.pure _)
  | advance => exact (Window.answers_advance t).bind (Answers.pure _)
  | copy room length type => exact (Window.answers_copy t room length type).bind (Answers.pure _)

end WindowOp

/-- An operation on two windows. A comparison belongs to one of them, which comes first in the order. -/
inductive PairOp where
  | left (op : WindowOp)
  | right (op : WindowOp)
  | compareLeft (n : Nat)
  | compareRight (n : Nat)

namespace PairOp

def run : PairOp → PairM Reply
  | left op => PairM.onLeft op.run
  | right op => PairM.onRight op.run
  | compareLeft n => return .order (← Window.compare n)
  | compareRight n => return .order (← PairM.exchanged (Window.compare n))

def apply (t u : Tape) : PairOp → Reply × Tape × Tape
  | left op => ((op.apply t).1, (op.apply t).2, u)
  | right op => ((op.apply u).1, t, (op.apply u).2)
  | compareLeft n =>
    let pairs := (t.rest.zip u.rest).take n
    (.order (firstOrder pairs), t.forward (comparedCount pairs), u.forward (comparedCount pairs))
  | compareRight n =>
    let pairs := (u.rest.zip t.rest).take n
    (.order (firstOrder pairs), t.forward (comparedCount pairs), u.forward (comparedCount pairs))

theorem answers (op : PairOp) (t u : Tape) :
    Answers (Both t u) op.run (op.apply t u).1 (Both (op.apply t u).2.1 (op.apply t u).2.2) := by
  cases op with
  | left op => exact (op.answers t).onLeft
  | right op => exact (op.answers u).onRight
  | compareLeft n => exact (Window.answers_compare t u n).bind (Answers.pure _)
  | compareRight n =>
      have hswap := (Window.answers_compare u t n).exchanged
      exact (hswap.mono (fun _ h => h.symm) fun _ h => h.symm).bind (Answers.pure _)

def runAll : List PairOp → PairM (List (Reply × Nat × Nat))
  | [] => return []
  | op :: ops => do
    let reply ← op.run
    let (l, r) ← get
    let rest ← runAll ops
    return (reply, l.tell, r.tell) :: rest

def applyAll (t u : Tape) : List PairOp → List (Reply × Nat × Nat)
  | [] => []
  | op :: ops =>
    let next := op.apply t u
    (next.1, next.2.1.cursor, next.2.2.cursor) :: applyAll next.2.1 next.2.2 ops

/-- Windows that show two tapes carry a program out as the tapes do. -/
theorem answers_runAll (ops : List PairOp) (t u : Tape) :
    ∃ t' u', Answers (Both t u) (runAll ops) (applyAll t u ops) (Both t' u') := by
  induction ops generalizing t u with
  | nil => exact ⟨t, u, Answers.pure []⟩
  | cons op ops ih =>
      obtain ⟨t', u', hrest⟩ := ih (op.apply t u).2.1 (op.apply t u).2.2
      refine ⟨t', u', (op.answers t u).bind (Answers.bind_get fun s hs => ?_)⟩
      obtain ⟨l, r⟩ := s
      rw [applyAll, ← hs.1.tell_eq, ← hs.2.tell_eq]
      exact hrest.bind (Answers.pure (((op.apply t u).1, l.tell, r.tell) :: _)) (l, r) hs

end PairOp

/-- Windows of any size over sources that replay two lists of bytes open at their start and then carry out
every program as two tapes with these bytes do: each operation succeeds with the same answer and leaves
the cursors at the same places. -/
theorem windows_refine_tapes {a b : Source} {left right : List UInt8} (ha : a.Replays left)
    (hb : b.Replays right) (m n : Nat) (ops : List PairOp) :
    ∃ v w, Window.ofSource a m = .ok v ∧ Window.ofSource b n = .ok w ∧
      (v.capacity = max m 1 ∧ w.capacity = max n 1) ∧ (v.tell = 0 ∧ w.tell = 0) ∧
      ∃ s, PairOp.runAll ops (v, w) = .ok (PairOp.applyAll (.start left) (.start right) ops) s := by
  obtain ⟨v, hv, hleft, hsize⟩ := Window.exists_ofSource ha m
  obtain ⟨w, hw, hright, hsize'⟩ := Window.exists_ofSource hb n
  obtain ⟨t', u', hrun⟩ := PairOp.answers_runAll ops (.start left) (.start right)
  obtain ⟨s, hs, -⟩ := hrun (v, w) ⟨hleft, hright⟩
  exact ⟨v, w, hv, hw, ⟨hsize, hsize'⟩, ⟨hleft.tell_eq, hright.tell_eq⟩, s, hs⟩

/-- Two texts in pieces with interruptions, seen through windows of one byte and of two. A carriage return
at the end of what may be copied takes its line feed along. -/
theorem windows_refine_tapes_of_pieces : ∃ v w,
    Window.ofSource (.ofFeed "old" .raw [.interrupted, .bytes [97], .bytes [13, 10, 98]] none) 0 = .ok v ∧
    Window.ofSource (.ofFeed "new" .utf8 [.bytes [97, 13], .interrupted, .bytes [99]] none) 2 = .ok w ∧
    ∃ s, PairOp.runAll [.compareLeft 9, .left (.seek 7), .left .next?, .right .rewind,
        .left (.seek 0), .left (.copy 5 2 .crLf), .compareRight 1] (v, w) =
      .ok [(.order .lt, 3, 3), (.done, 4, 3), (.byte? none, 4, 3), (.done, 4, 0),
        (.done, 0, 0), (.bytes [97, 10], 3, 0), (.order .lt, 4, 1)] s := by
  have hold : (Source.ofFeed "old" .raw [.interrupted, .bytes [97], .bytes [13, 10, 98]] none).Carries
      [97, 13, 10, 98] := fun _ =>
    ⟨_, rfl, .interrupted (.bytes (by decide) (.bytes (by decide) .nil))⟩
  have hnew : (Source.ofFeed "new" .utf8 [.bytes [97, 13], .interrupted, .bytes [99]] none).Carries
      [97, 13, 99] := fun _ => ⟨_, rfl, .bytes (by decide) (.interrupted (.bytes (by decide) .nil))⟩
  obtain ⟨v, w, hv, hw, -, -, s, hs⟩ := windows_refine_tapes (hold.replays rfl) (hnew.replays rfl) 0 2
    [.compareLeft 9, .left (.seek 7), .left .next?, .right .rewind, .left (.seek 0),
      .left (.copy 5 2 .crLf), .compareRight 1]
  exact ⟨v, w, hv, hw, s, hs⟩

end TokenDiff
