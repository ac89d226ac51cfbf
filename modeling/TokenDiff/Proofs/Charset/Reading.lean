import TokenDiff.Proofs.Window.Decoding

/-!
# Reading to the end

A caller reads until no more bytes come, with buffers of any sizes, and tries again when a read is interrupted
(`Reader.readOut`). A reader with an outcome ahead of it comes to that outcome (`Reader.Expects.readOut`). What
the outcome has to be is said by a language: a content is fine if it belongs to it, and otherwise the fault is
at the end of the longest beginning that can be continued to an element of the language (`KeepsTo`).
-/

namespace TokenDiff

/-! ## Beginnings of a language -/

/-- The first `n` elements of the list, and no more of them, can be continued to an element of the language. -/
structure KeepsTo {α : Type} (language : List α → Prop) (l : List α) (n : Nat) : Prop where
  le : n ≤ l.length
  continues : ∃ rest, language (l.take n ++ rest)
  stops : ∀ k, n < k → k ≤ l.length → ¬ ∃ rest, language (l.take k ++ rest)

namespace KeepsTo

variable {α : Type} {language : List α → Prop}

theorem of_continues {l rest : List α} (h : language (l ++ rest)) : KeepsTo language l l.length := by
  refine ⟨Nat.le_refl _, ⟨rest, ?_⟩, fun k hk hle => absurd hle (Nat.not_le.2 hk)⟩
  rwa [List.take_length]

theorem of_stop {xs rest ys : List α} {a : α} (h : language (xs ++ rest))
    (hstop : ∀ rest, ¬ language (xs ++ a :: rest)) : KeepsTo language (xs ++ a :: ys) xs.length := by
  refine ⟨?_, ⟨rest, ?_⟩, ?_⟩
  · rw [List.length_append]
    exact Nat.le_add_right _ _
  · rwa [List.take_left]
  · rintro k hk - ⟨more, hmore⟩
    obtain ⟨d, rfl⟩ : ∃ d, k = xs.length + (d + 1) := ⟨k - xs.length - 1, by omega⟩
    rw [List.take_length_add_append, List.take_succ_cons, List.append_assoc, List.cons_append] at hmore
    exact hstop _ hmore

theorem unique {l : List α} {m n : Nat} (hm : KeepsTo language l m) (hn : KeepsTo language l n) : m = n := by
  rcases Nat.lt_trichotomy m n with hlt | heq | hlt
  · exact absurd hn.continues (hm.stops n hlt hn.le)
  · exact heq
  · exact absurd hm.continues (hn.stops m hlt hm.le)

end KeepsTo

/-! ## Reads of any sizes -/

namespace Reader

/-- What reads with buffers of these sizes, one after the other, hand out before the first of them without
bytes, and the fault if one of them fails. After an interruption the next read is the same one again. Nothing
is said if the reads do not get there. -/
def readOut : List Nat → Reader → Option (List UInt8 × Option ReadFault)
  | [], _ => none
  | n :: sizes, r =>
    match r.read n with
    | (.bytes [], _) => some ([], none)
    | (.bytes data, r) => (readOut sizes r).map fun (out, fault?) => (data ++ out, fault?)
    | (.interrupted, r) => readOut sizes r
    | (.failed fault _, _) => some ([], some fault)

/-- An interruption is used up by the read that meets it. -/
theorem supply_read_interrupted_lt {r r' : Reader} {n : Nat} (h : r.read n = (.interrupted, r')) :
    r'.supply < r.supply := by
  have hfeed {feed rest : Feed} (h : feed.read n = (.interrupted, rest)) : rest.volume < feed.volume := by
    cases feed with
    | nil => cases h
    | cons e feed =>
        cases e with
        | bytes data => cases h
        | interrupted =>
            obtain rfl := (Prod.mk.inj h).2
            exact Nat.lt_add_of_pos_left Nat.one_pos
        | failed cause => cases h
  obtain ⟨feed, decoder⟩ := r
  cases decoder with
  | raw =>
      simp only [read] at h
      split at h
      · cases h
      · next hread =>
          obtain rfl := (Prod.mk.inj h).2
          exact hfeed hread
      · cases h
  | utf8 check =>
      simp only [read, readChecked] at h
      split at h
      · split at h <;> cases h
      · split at h <;> cases h
      · next hread =>
          obtain rfl := (Prod.mk.inj h).2
          exact hfeed hread
      · cases h
  | utf16 store =>
      rw [read_utf16] at h
      simp only [Utf16Store.read] at h
      split at h <;> cases (Prod.mk.inj h).1

/-- Enough reads of any sizes come to the outcome that is ahead. -/
theorem Expects.exists_readOut {charset : Charset} {outcome : Except Nat (List UInt8)} {r : Reader}
    (h : r.Expects charset outcome) {sizes : List Nat} (hsizes : ∀ n ∈ sizes, 0 < n)
    (hcount : r.supply < sizes.length) :
    ∃ out fault?, readOut sizes r = some (out, fault?) ∧
      ((fault? = none ∧ outcome = .ok out) ∨
        ∃ place, fault? = some (.malformed charset place) ∧ outcome = .error place) := by
  induction sizes generalizing r outcome with
  | nil => exact absurd hcount (Nat.not_lt_zero _)
  | cons n sizes ih =>
      obtain ⟨hn, hrest⟩ := List.forall_mem_cons.1 hsizes
      rw [List.length_cons] at hcount
      rw [readOut]
      cases h.read hn with
      | interrupted hread hr' =>
          have hless := supply_read_interrupted_lt hread
          rw [hread]
          exact ih hr' hrest (by omega)
      | @bytes data r' left hread hr' hout hlen hnil =>
          rw [hread]
          cases data with
          | nil => exact ⟨[], none, rfl, .inl ⟨rfl, hnil rfl⟩⟩
          | cons b data =>
              have hless := length_add_supply_read_le hread
              rw [List.length_cons] at hless
              obtain ⟨out, fault?, hreads, hend⟩ := ih hr' hrest (by omega)
              refine ⟨b :: data ++ out, fault?, by simp only [hreads, Option.map_some], ?_⟩
              rcases hend with ⟨hnone, rfl⟩ | ⟨place, hfault, rfl⟩
              · exact .inl ⟨hnone, hout⟩
              · exact .inr ⟨place, hfault, hout⟩
      | @failed place spilled r' hread hout =>
          rw [hread]
          exact ⟨[], some (.malformed charset place), rfl, .inr ⟨place, rfl, hout⟩⟩

end Reader

end TokenDiff
