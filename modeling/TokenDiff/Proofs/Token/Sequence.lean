import TokenDiff.Proofs.Token.Agree
import TokenDiff.Proofs.Token.Cut

/-!
# Sequences of texts

A sequence over a source that replays a text is the table of the text with a window somewhere in it
(`Sequence.Of`), and building one from such a source succeeds. What is true of all sequences of two texts is
then true for windows of any size and sources of any kind.
-/

namespace TokenDiff

open Window

namespace Sequence

/-- The sequence consists of the table of a text and a window over the text. -/
structure Of (p : Policy) (text : List UInt8) (s : Sequence) : Prop where
  table : s.table = p.table text
  window : s.window.Over text

theorem exists_ofSource {source : Source} {text : List UInt8} (h : source.Replays text) (p : Policy)
    (tuning : Tuning) : ∃ s, ofSource source p tuning = .ok s ∧ s.Of p text := by
  obtain ⟨w, hopen, hw, -⟩ := Window.exists_ofSource h tuning.windowSize
  obtain ⟨w', hcut, hw'⟩ := answers_cutEntries p text w hw
  refine ⟨⟨p.table text, w'⟩, ?_, rfl, (Tape.start text).toEnd, rfl, hw'⟩
  simp only [ofSource, hopen, bind, Except.bind, EStateM.run, hcut]
  rfl

theorem of_ofSource {source : Source} {text : List UInt8} (h : source.Replays text) {p : Policy}
    {tuning : Tuning} {s : Sequence} (hs : ofSource source p tuning = .ok s) : s.Of p text := by
  obtain ⟨s', hs', hof⟩ := exists_ofSource h p tuning
  rw [hs] at hs'
  exact Except.ok.inj hs' ▸ hof

namespace Of

variable {p : Policy} {text : List UInt8} {s : Sequence}

theorem count_eq (h : s.Of p text) : s.table.count = (p.tokens text).length := by
  rw [h.table, count_table]

end Of

end Sequence

end TokenDiff
