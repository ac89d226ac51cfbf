import TokenDiff.Report.Palette

/-!
# Codes inside a coloured text

A coloured text may have the code in it that turns colours off, as a path or a line of a file may. The code of the
colour is then written again after each of them: the text is cut into pieces by the resets in it, and the pieces
are put together with a longer separator (`exists_pieces_reopen`). A text without an escape character stays as it is.
-/

namespace TokenDiff

theorem prefix_intercalate (sep piece : List UInt8) (pieces : List (List UInt8)) :
    piece <+: sep.intercalate (piece :: pieces) := by
  cases pieces with
  | nil => simp
  | cons next pieces => simp [List.intercalate_cons_cons]

/-- A text is cut into pieces by the resets in it, and after each of them the code is written again. -/
theorem exists_pieces_reopen (opening text : List UInt8) : ∃ piece pieces,
    (∀ p ∈ piece :: pieces, ¬ colourReset <:+: p) ∧ colourReset.intercalate (piece :: pieces) = text ∧
    (colourReset ++ opening).intercalate (piece :: pieces) = reopen opening text := by
  fun_induction reopen opening text with
  | case1 text ih =>
      obtain ⟨piece, pieces, hfree, htext, hopen⟩ := ih
      refine ⟨[], piece :: pieces, List.forall_mem_cons.2 ⟨by decide, hfree⟩, ?_, ?_⟩
      · rw [List.intercalate_cons_cons, htext]
        rfl
      · rw [List.intercalate_cons_cons, hopen]
        rfl
  | case2 b text hother ih =>
      obtain ⟨piece, pieces, hfree, htext, hopen⟩ := ih
      obtain ⟨hpiece, hpieces⟩ := List.forall_mem_cons.1 hfree
      refine ⟨b :: piece, pieces, List.forall_mem_cons.2 ⟨fun hinfix => ?_, hpieces⟩, ?_, ?_⟩
      · -- a reset that begins with the first byte would have been cut off
        have hprefix := (List.infix_cons_iff.1 hinfix).resolve_right hpiece
        obtain ⟨rfl, hrest⟩ := List.cons_prefix_cons.1 hprefix
        obtain ⟨rest, hrest⟩ := hrest.trans (prefix_intercalate colourReset piece pieces)
        exact hother rest rfl (htext ▸ hrest).symm
      · rw [List.intercalate_cons_cons_left, htext]
      · rw [List.intercalate_cons_cons_left, hopen]
  | case3 => exact ⟨[], [], by decide, rfl, rfl⟩

theorem reopen_of_not_mem {opening text : List UInt8} (h : 27 ∉ text) : reopen opening text = text := by
  fun_induction reopen opening text with
  | case1 text ih => exact absurd List.mem_cons_self h
  | case2 b text _ ih => rw [ih fun hmem => h (List.mem_cons_of_mem b hmem)]
  | case3 => rfl

theorem Colour.lineFeed_not_mem_opening (colour : Colour) : 10 ∉ colour.opening := by
  cases colour <;> decide

theorem lineFeed_not_mem_reopen {opening text : List UInt8} (hopening : 10 ∉ opening) (h : 10 ∉ text) :
    10 ∉ reopen opening text := by
  have hreset : 10 ∉ colourReset := by decide
  fun_induction reopen opening text with
  | case1 text ih =>
      simp only [List.mem_append, List.mem_cons, not_or] at h ⊢
      exact ⟨⟨hreset, hopening⟩, ih h.2.2.2.2⟩
  | case2 b text _ ih =>
      rw [List.mem_cons, not_or] at h ⊢
      exact ⟨h.1, ih h.2⟩
  | case3 => exact h

end TokenDiff
