import TokenDiff.Proofs.Token.Calls

/-!
# Tokens compared byte by byte

Three of the policies count every byte of a token. The hash of a token is then that of its bytes, and tokens
are equal just if their bytes are the same (`byteTokens_exact`): those that only have the same hash are told
apart by reading both of them again, through windows of any size and wherever earlier calls have left these.
-/

namespace TokenDiff

theorem Policy.comparesBy_bytes {p : Policy} (hp : p = .line ∨ p = .word ∨ p = .wordClass) :
    p.ComparesBy fun token => token := by
  rcases hp with rfl | rfl | rfl
  all_goals exact ⟨fun _ => rfl, fun _ _ => beq_iff_eq⟩

variable {source source' : Source} {S T : List UInt8}

/-- Tokens that are compared byte by byte are equal just if their bytes are the same, and then they are likely
to be. All calls for tokens that are there answer, and none of them changes what the others answer. -/
theorem byteTokens_exact {p : Policy} (hp : p = .line ∨ p = .word ∨ p = .wordClass) (hS : source.Replays S)
    (hT : source'.Replays T) (tuning tuning' : Tuning) :
    ∃ old new, Sequence.ofSource source p tuning = .ok old ∧ Sequence.ofSource source' p tuning' = .ok new ∧
      old.ComparesBy (fun token => token) S T new ∧
      ∀ calls, (∀ call ∈ calls, PairCall.Fits old.table.count new.table.count call) →
        ∃ s, PairCall.runAll old.table new.table calls (old.window, new.window) = .ok () s := by
  obtain ⟨old, hopen, hold⟩ := Sequence.exists_ofSource hS p tuning
  obtain ⟨new, hopen', hnew⟩ := Sequence.exists_ofSource hT p tuning'
  have hcompares := (Policy.comparesBy_bytes hp).comparesBy hold hnew
  exact ⟨old, new, hopen, hopen', hcompares, fun calls hfit => hold.exists_runAll hnew hfit⟩

/-- The first lines have the same hash and the same length. They are told apart after some calls that go back
and forth in the texts, and the second lines are found equal. -/
theorem byteTokens_exact_of_collision : ∃ old new,
    Sequence.ofSource (.ofFeed "old" .raw [.bytes [114, 97, 97], .interrupted,
      .bytes [122, 116, 122, 10, 98, 10]] none) .line { windowSize := 0 } = .ok old ∧
    Sequence.ofSource (.ofBytes "new" .raw [97, 121, 111, 97, 97, 97, 10, 98, 10]) .line { windowSize := 1 } =
      .ok new ∧
    old.table.hash? 0 = new.table.hash? 0 ∧ old.AlwaysAnswers new 0 0 false ∧ old.AlwaysAnswers new 1 1 true ∧
    ∃ s t, PairCall.runAll old.table new.table
        [.equal 1 1, .old (.seek 2), .old (.copy 0 2 3 .raw), .new (.dump 1 7 .crLf), .equalBack 0 1]
        (old.window, new.window) = .ok () s ∧
      old.table.equal new.table 0 0 s = .ok false t := by
  have hsource : (Source.ofFeed "old" .raw [.bytes [114, 97, 97], .interrupted,
      .bytes [122, 116, 122, 10, 98, 10]] none).Carries [114, 97, 97, 122, 116, 122, 10, 98, 10] :=
    fun _ => ⟨_, rfl, .bytes (by decide) (.interrupted (.bytes (by decide) .nil))⟩
  have hS := hsource.replays rfl
  have hT := Source.replays_ofBytes "new" [97, 121, 111, 97, 97, 97, 10, 98, 10]
  obtain ⟨old, new, hold, hnew, hcompares, hcalls⟩ :=
    byteTokens_exact (.inl rfl) hS hT { windowSize := 0 } { windowSize := 1 }
  have hcount : old.table.count = 2 := (Sequence.of_ofSource hS hold).count_eq
  have hcount' : new.table.count = 2 := (Sequence.of_ofSource hT hnew).count_eq
  have htext : old.table.tokenText [114, 97, 97, 122, 116, 122, 10, 98, 10] 0 =
        [114, 97, 97, 122, 116, 122, 10] ∧
      old.table.tokenText [114, 97, 97, 122, 116, 122, 10, 98, 10] 1 = [98, 10] := by
    rw [(Sequence.of_ofSource hS hold).table]
    decide
  have htext' : new.table.tokenText [97, 121, 111, 97, 97, 97, 10, 98, 10] 0 =
        [97, 121, 111, 97, 97, 97, 10] ∧
      new.table.tokenText [97, 121, 111, 97, 97, 97, 10, 98, 10] 1 = [98, 10] := by
    rw [(Sequence.of_ofSource hT hnew).table]
    decide
  have hfirst := hcompares.equal 0 (by omega) 0 (by omega)
  have hsecond := hcompares.equal 1 (by omega) 1 (by omega)
  rw [htext.1, htext'.1] at hfirst
  rw [htext.2, htext'.2] at hsecond
  rw [hcount, hcount'] at hcalls
  obtain ⟨s, hs⟩ := hcalls
    [.equal 1 1, .old (.seek 2), .old (.copy 0 2 3 .raw), .new (.dump 1 7 .crLf), .equalBack 0 1]
    (by simp [PairCall.Fits, TokenCall.Fits])
  obtain ⟨⟨t, ht⟩, -⟩ := hfirst _ s hs
  refine ⟨old, new, hold, hnew, ?_, hfirst, hsecond, s, t, hs, ht⟩
  refine Option.map_injective (fun _ _ => UInt32.toNat_inj.1) ?_
  rw [hcompares.hash_old 0 (by omega), hcompares.hash_new 0 (by omega), htext.1, htext'.1]
  decide

end TokenDiff
