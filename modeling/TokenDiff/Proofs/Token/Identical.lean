import TokenDiff.Proofs.Edit.Identical
import TokenDiff.Proofs.Token.Sequence
import TokenDiff.Proofs.Window.Decoding

/-!
# A text compared with itself

A token is the same as itself under every policy, so two sequences of one text have an identical script,
in whatever pieces their sources hand the text out and however much of it their windows hold.
-/

namespace TokenDiff

variable {σ : Type} {c : Comparison σ} {valid : σ → Prop} {fails : Fault → Prop}
  {same : Nat → Nat → Bool} {s : σ}

theorem Policy.sameAt_self {p : Policy} (text : List UInt8) (i : Nat) : p.sameAt text text i i = true :=
  p.same_self _

/-- A script is identical just if the sequences are of one length and each token is equal to the one at the
same place, and no tuning keeps such a script from being found. Two sequences of one text have one. -/
theorem isIdentical_exact (hc : c.Decides valid fails same) (hs : valid s) (fast : Bool)
    (tuning : Tuning) :
    ((∀ e, ¬ fails e) → c.oldCount = c.newCount → (∀ i, i < c.oldCount → same i i = true) →
      ∃ script t, c.script fast tuning s = .ok script t ∧
        script.snakes = [⟨0, c.oldCount, 0, c.oldCount⟩] ∧ script.isIdentical = true) ∧
    (∀ script t, c.script fast tuning s = .ok script t → script.isIdentical = true →
      c.oldCount = c.newCount ∧ ∀ i, i < c.oldCount → same i i = true) ∧
    ∀ (p : Policy) (text : List UInt8) (source source' : Source) (size size' : Tuning),
      source.Replays text → source'.Replays text →
      ∃ old new script t, Sequence.ofSource source p size = .ok old ∧
        Sequence.ofSource source' p size' = .ok new ∧
        (old.table.comparison new.table).script fast tuning (old.window, new.window) = .ok script t ∧
        script.snakes = [⟨0, old.table.count, 0, old.table.count⟩] ∧ script.isIdentical = true := by
  refine ⟨fun hnever hcount hsame => ?_, fun script t h hone => ?_, ?_⟩
  · obtain ⟨script, t, h, -, rfl⟩ :=
      (script_of_same (hc.weaken hnever) rfl hcount.symm hsame fast tuning).exists_ok hs
    exact ⟨_, t, h, rfl, rfl⟩
  · obtain ⟨-, -, hsettled, -⟩ :=
      (script_ensures (hc.weaken fun _ _ => trivial) fun _ _ _ _ => trivial).of_ok hs h
    exact hsettled.of_isIdentical hone
  · intro p text source source' size size' hsource hsource'
    obtain ⟨⟨table, w⟩, hold, rfl, hover⟩ := Sequence.exists_ofSource hsource p size
    obtain ⟨⟨table, w'⟩, hnew, rfl, hover'⟩ := Sequence.exists_ofSource hsource' p size'
    obtain ⟨script, t, h, -, rfl⟩ := (script_of_same (comparison_decides p text text) rfl rfl
      (fun i _ => Policy.sameAt_self text i) fast tuning).exists_ok (s := (w, w')) ⟨hover, hover'⟩
    exact ⟨_, _, _, t, hold, hnew, h, rfl, rfl⟩

/-- No round is allowed for, and the tokens all look alike. The last line of the text that is compared with
itself differs from the others in its line end only. -/
theorem isIdentical_exact_of_lists :
    (∃ script t, (Comparison.ofLists (fun _ => 0) [4, 5, 4] [4, 5, 4]).script true { minDepth := 0 } () =
      .ok script t ∧ script.snakes = [⟨0, 3, 0, 3⟩]) ∧
    ∃ old new script t,
      Sequence.ofSource (.ofBytes "old" .raw [97, 32, 10, 97, 32]) .ignoreBlanks {} = .ok old ∧
      Sequence.ofSource (.ofFeed "new" .utf8 [.bytes [97], .interrupted, .bytes [32, 10, 97, 32]] none)
        .ignoreBlanks { windowSize := 1 } = .ok new ∧
      (old.table.comparison new.table).script true { minDepth := 0 } (old.window, new.window) =
        .ok script t ∧ script.isIdentical = true := by
  have hold := Source.replays_ofBytes "old" [97, 32, 10, 97, 32]
  have hnew : (Source.ofFeed "new" .utf8 [.bytes [97], .interrupted, .bytes [32, 10, 97, 32]] none).Carries
      [97, 32, 10, 97, 32] :=
    fun _ => ⟨_, rfl, .bytes (by decide) (.interrupted (.bytes (by decide) .nil))⟩
  obtain ⟨hequal, -, hself⟩ := isIdentical_exact
    (Comparison.ofLists_decides (fun _ => 0) [4, 5, 4] [4, 5, 4]) trivial true { minDepth := 0 }
  obtain ⟨script, t, h, hsnakes, -⟩ := hequal (fun _ => id) rfl (by decide)
  obtain ⟨old, new, script', t', hopen, hopen', h', -, hone⟩ :=
    hself .ignoreBlanks _ _ _ {} { windowSize := 1 } hold (hnew.replays rfl)
  exact ⟨⟨script, t, h, hsnakes⟩, old, new, script', t', hopen, hopen', h', hone⟩

end TokenDiff
