import TokenDiff.Proofs.Token.Calls

/-!
# Tokens are read as they were written

A table and a window over a text give the text back (`Table.Reproduces`): dumping some tokens writes the
translation of their bytes, and copying them into buffers of any sizes writes the same bytes. Neither depends on
what has been called before (`dump_reproduces_text`).

The bytes of tokens that follow each other are translated one after the other. That no carriage return is
separated from its line feed by this is `LineType.translate_append` together with
`Policy.not_return_then_feed`.
-/

namespace TokenDiff

open Window PairM

/-! ## The text of some tokens -/

/-- The bytes of the tokens from `start` on and before `stop`, as far as there are any. -/
def Table.textOf (t : Table) (text : List UInt8) (start stop : Nat) : List UInt8 :=
  (List.range' start (min stop t.count - start)).flatMap (t.tokenText text)

namespace LineType

/-- Bytes can be translated in two parts that do not separate a carriage return from its line feed. -/
theorem collapse_append {xs ys : List UInt8} (h : ¬(xs.getLast? = some 13 ∧ ys.head? = some 10)) :
    collapse (xs ++ ys) = collapse xs ++ collapse ys := by
  fun_induction collapse xs with
  | case1 => rfl
  | case2 b => exact collapse_cons_of_not fun hpair => h ⟨congrArg some hpair.1, hpair.2⟩
  | case3 b c xs hpair ih =>
      rw [← ih (by rwa [List.getLast?_cons_cons] at h)]
      exact if_pos hpair
  | case4 b c xs hpair ih =>
      change _ = b :: (collapse (c :: xs) ++ collapse ys)
      rw [← ih (by rwa [List.getLast?_cons_cons] at h)]
      exact if_neg hpair

theorem translate_append {type : LineType} {xs ys : List UInt8}
    (h : ¬(xs.getLast? = some 13 ∧ ys.head? = some 10)) :
    type.translate (xs ++ ys) = type.translate xs ++ type.translate ys := by
  cases type with
  | raw => rfl
  | cr => exact List.map_append
  | crLf => exact collapse_append h
  | lfCrLf => exact collapse_append h

end LineType

section

variable (p : Policy) (text : List UInt8)

/-- The bytes before a token do not end with a carriage return whose line feed the bytes from there on begin
with. -/
theorem Policy.not_return_then_feed {i j k : Nat} :
    ¬((((p.tokens text).drop i).take (j - i)).flatten.getLast? = some 13 ∧
      (((p.tokens text).drop j).take (k - j)).flatten.head? = some 10) := by
  rintro ⟨hreturn, hfeed⟩
  have hij : i ≤ j := by
    by_contra hlt
    rw [Nat.sub_eq_zero_of_le (by omega), List.take_zero] at hreturn
    cases hreturn
  have hlast : ((p.tokens text).take j).flatten.getLast? = some 13 := by
    have hsplit : (p.tokens text).take j =
        (p.tokens text).take i ++ ((p.tokens text).drop i).take (j - i) := by
      rw [← List.take_add, Nat.add_sub_cancel' hij]
    rw [hsplit, List.flatten_append, List.getLast?_append, hreturn]
    rfl
  have hhead : ((p.tokens text).drop j).flatten.head? = some 10 := by
    rw [← List.take_append_drop (k - j) ((p.tokens text).drop j), List.flatten_append, List.head?_append, hfeed]
    rfl
  have hcut := p.cuts_of_place text j hlast hhead
  rw [p.cuts_return_feed] at hcut
  cases hcut

variable {p text}

theorem Sequence.Of.textOf_eq {s : Sequence} (h : s.Of p text) (start stop : Nat) :
    s.table.textOf text start stop = (((p.tokens text).drop start).take (stop - start)).flatten := by
  have hlength : (((p.tokens text).drop start).take (stop - start)).length =
      min stop (p.tokens text).length - start := by
    rw [List.length_take, List.length_drop]
    omega
  rw [Table.textOf, h.count_eq, List.flatMap_def]
  congr 1
  refine List.ext_getElem (by rw [List.length_map, List.length_range', hlength]) fun k hk hk' => ?_
  rw [List.length_map, List.length_range'] at hk
  rw [List.getElem_map, List.getElem_range', Nat.one_mul, h.tokenText_eq (by omega), List.getElem_take,
    List.getElem_drop]

end

/-! ## Copying into buffers of any sizes -/

/-- Copies into buffers of some sizes, one after the other, until nothing is written. Each copy is told the
token that the one before has come to. Also answers whether nothing has been written in the end. -/
def Table.copyParts (t : Table) (stop : Nat) (type : LineType) : Nat → List Nat → WindowM (List UInt8 × Bool)
  | _, [] => return ([], false)
  | cursor, room :: rooms => do
    let (text, cursor) ← t.copyTokens cursor stop room type
    if text.isEmpty then return ([], true)
    let (more, done) ← t.copyParts stop type cursor rooms
    return (text ++ more, done)

section

variable {u : Tape} {t : Table} {stop : Nat} {type : LineType} {left : List UInt8}

theorem answers_copyTokens (start : Nat) {room : Nat} {written : List UInt8} {v : Tape}
    (h : Answers (Shows u) (Table.copyUpTo (t.limit stop) room type) written (Shows v)) :
    Answers (Shows u) (t.copyTokens start stop room type)
      (written, if t.limit stop ≤ v.cursor then min stop t.count else start) (Shows v) := by
  refine h.bind (Answers.bind_get fun w hw => ⟨w, ?_, hw⟩)
  rw [hw.tell_eq]
  rfl

/-- What is written into the buffers is the beginning of what is left, and all of it if the copies come to an
end. They do so as soon as there are more buffers than bytes. -/
theorem answers_copyParts (h : u.Leaves (t.limit stop) type left) {rooms : List Nat}
    (hrooms : ∀ room ∈ rooms, 0 < room) (cursor : Nat) :
    ∃ written done, Answers (Shows u) (t.copyParts stop type cursor rooms) (written, done) (Over u.bytes) ∧
      written <+: type.translate left ∧ (done = true → written = type.translate left) ∧
      ((type.translate left).length < rooms.length → done = true) := by
  induction rooms generalizing u left cursor with
  | nil =>
      refine ⟨[], false, ?_, List.nil_prefix, fun hdone => absurd hdone Bool.false_ne_true, fun hlen => ?_⟩
      · exact (Answers.pure _).mono (fun w hw => hw) fun w hw => ⟨u, rfl, hw⟩
      · exact absurd hlen (Nat.not_lt_zero _)
  | cons room rooms ih =>
      obtain ⟨hroom, hrooms⟩ := List.forall_mem_cons.1 hrooms
      obtain ⟨used, rest, -, htranslate, hnil, hpart, hrest⟩ := h.exists_part hroom
      have hcopy := answers_copyTokens cursor hpart
      by_cases hused : used = []
      · rw [hused, LineType.translate_nil] at hcopy
        rw [hnil hused, LineType.translate_nil]
        refine ⟨[], true, hcopy.bind ?_, List.nil_prefix, fun _ => rfl, fun _ => rfl⟩
        exact (Answers.pure _).mono (fun w hw => hw) fun w hw => ⟨_, u.forward_bytes _, hw⟩
      · have hpos : 0 < (type.translate used).length :=
          List.length_pos_iff.2 fun hempty => hused (LineType.translate_eq_nil hempty)
        have hempty : (type.translate used).isEmpty = false :=
          List.isEmpty_eq_false_iff.2 (List.length_pos_iff.1 hpos)
        obtain ⟨more, done, hmore, hprefix, hall, hend⟩ := ih hrest hrooms
          (if t.limit stop ≤ (u.forward used.length).cursor then min stop t.count else cursor)
        rw [htranslate]
        refine ⟨type.translate used ++ more, done, hcopy.bind ?_, ?_, fun hdone => ?_, fun hlen => hend ?_⟩
        · dsimp only
          rw [hempty]
          exact hmore.bind (Answers.pure _)
        · exact (List.prefix_append_right_inj _).2 hprefix
        · rw [hall hdone]
        · rw [List.length_append, List.length_cons] at hlen
          omega

end

/-! ## Reading through a window -/

/-- The text of any tokens can be read through the window. It is dumped as a whole or in two parts, or copied
into buffers of any sizes, and a dump says whether it ends with a line feed. -/
structure Table.Reproduces (t : Table) (text : List UInt8) (w : Window) : Prop where
  dump : ∀ type start stop, start ≤ t.count → ∃ written ended w',
    t.dump start stop type w = .ok (written, ended) w' ∧
    written = type.translate (t.textOf text start stop) ∧
    (ended = true ↔ written = [] ∨ written.getLast? = some 10)
  copy : ∀ type start stop rooms, start ≤ t.count → (∀ room ∈ rooms, 0 < room) → ∃ written done w',
    (do t.seek start; t.copyParts stop type start rooms : WindowM _) w = .ok (written, done) w' ∧
    written <+: type.translate (t.textOf text start stop) ∧
    (done = true → written = type.translate (t.textOf text start stop)) ∧
    ((type.translate (t.textOf text start stop)).length < rooms.length → done = true)
  consecutive : ∀ type i j k, i ≤ j → j ≤ k → j ≤ t.count → ∃ written ended w₁ w₂,
    (do return (← t.dump i j type).1 ++ (← t.dump j k type).1 : WindowM _) w = .ok written w₁ ∧
    t.dump i k type w = .ok (written, ended) w₂

variable {source source' : Source} {S T : List UInt8} {p : Policy}

theorem Sequence.Of.reproduces {s : Sequence} (h : s.Of p S) {w : Window} (hw : w.Over S) :
    s.table.Reproduces S w := by
  constructor
  case dump =>
    intro type start stop hstart
    rw [h.count_eq] at hstart
    obtain ⟨w', hdump, -⟩ := answers_dump p S type stop hstart w hw
    rw [h.textOf_eq, h.table]
    exact ⟨_, _, w', hdump, rfl, endsLine_iff⟩
  case copy =>
    intro type start stop rooms hstart hrooms
    have hleaves := leaves_tapeAt p S start stop type
    rw [h.count_eq] at hstart
    rw [← limit_table p S] at hleaves
    obtain ⟨written, done, hcopy, hpart⟩ := answers_copyParts hleaves hrooms start
    have hparts : Answers (Over S)
        (do (p.table S).seek start; (p.table S).copyParts stop type start rooms) (written, done) (Over S) :=
      (answers_seek_token p S hstart).bind hcopy
    obtain ⟨w', hrun, -⟩ := hparts w hw
    rw [h.textOf_eq, h.table]
    exact ⟨written, done, w', hrun, hpart⟩
  case consecutive =>
    intro type i j k hij hjk hj
    rw [h.count_eq] at hj
    have hi : i ≤ (p.tokens S).length := Nat.le_trans hij hj
    have hparts : Answers (Over S)
        (do return (← (p.table S).dump i j type).1 ++ (← (p.table S).dump j k type).1)
        (type.translate (((p.tokens S).drop i).take (j - i)).flatten ++
          type.translate (((p.tokens S).drop j).take (k - j)).flatten) (Over S) :=
      (answers_dump p S type j hi).bind ((answers_dump p S type k hj).bind (Answers.pure _))
    have hsplit : k - i = (j - i) + (k - j) := by omega
    have hwhole := answers_dump p S type k hi
    rw [hsplit, List.take_add, List.flatten_append, List.drop_drop, Nat.add_sub_cancel' hij,
      LineType.translate_append (p.not_return_then_feed S)] at hwhole
    obtain ⟨w₁, hrun, -⟩ := hparts w hw
    obtain ⟨w₂, hrun', -⟩ := hwhole w hw
    rw [h.table]
    exact ⟨_, _, w₁, w₂, hrun, hrun'⟩

/-- The text of any tokens of two sequences can be read, whatever has been called before. -/
theorem dump_reproduces_text (hS : source.Replays S) (hT : source'.Replays T) (p : Policy)
    (tuning tuning' : Tuning) :
    ∃ old new, Sequence.ofSource source p tuning = .ok old ∧ Sequence.ofSource source' p tuning' = .ok new ∧
      ∀ calls w v, PairCall.runAll old.table new.table calls (old.window, new.window) = .ok () (w, v) →
        old.table.Reproduces S w ∧ new.table.Reproduces T v := by
  obtain ⟨old, hopen, hold⟩ := Sequence.exists_ofSource hS p tuning
  obtain ⟨new, hopen', hnew⟩ := Sequence.exists_ofSource hT p tuning'
  refine ⟨old, new, hopen, hopen', fun calls w v hcalls => ?_⟩
  have hover := hold.over_of_runAll hnew hcalls
  exact ⟨hold.reproduces hover.1, hnew.reproduces hover.2⟩

/-- The line end of the first line comes in two pieces, and there is a lone carriage return in the second line. It
is read after a comparison, a copy that stops within a line, and a dump of the other sequence. -/
theorem dump_reproduces_text_of_pieces : ∃ old new s,
    Sequence.ofSource (.ofFeed "old" .raw [.bytes [97, 13], .interrupted, .bytes [10, 98, 13, 99, 10]] none)
      .line { windowSize := 0 } = .ok old ∧
    Sequence.ofSource (.ofBytes "new" .raw [97, 13, 10, 98]) .line { windowSize := 1 } = .ok new ∧
    PairCall.runAll old.table new.table
      [.equal 0 0, .old (.seek 1), .old (.copy 1 2 1 .raw), .new (.dump 0 9 .crLf)]
      (old.window, new.window) = .ok () s ∧
    (∃ w, old.table.dump 0 9 .crLf s.1 = .ok ([97, 10, 98, 13, 99, 10], true) w) ∧
    ∃ w, (do old.table.seek 0; old.table.copyParts 9 .crLf 0 [2, 1, 1, 1, 7, 1, 1] : WindowM _) s.1 =
      .ok ([97, 10, 98, 13, 99, 10], true) w := by
  have hsource : (Source.ofFeed "old" .raw [.bytes [97, 13], .interrupted, .bytes [10, 98, 13, 99, 10]]
      none).Carries [97, 13, 10, 98, 13, 99, 10] :=
    fun _ => ⟨_, rfl, .bytes (by decide) (.interrupted (.bytes (by decide) .nil))⟩
  have hS := hsource.replays rfl
  have hT := Source.replays_ofBytes "new" [97, 13, 10, 98]
  obtain ⟨old, new, hold, hnew, hreads⟩ :=
    dump_reproduces_text hS hT .line { windowSize := 0 } { windowSize := 1 }
  have hof := Sequence.of_ofSource hS hold
  have hof' := Sequence.of_ofSource hT hnew
  have hcount : old.table.count = 2 := hof.count_eq
  have hcount' : new.table.count = 2 := hof'.count_eq
  have htext : LineType.crLf.translate (old.table.textOf [97, 13, 10, 98, 13, 99, 10] 0 9) =
      [97, 10, 98, 13, 99, 10] := by
    rw [hof.table]
    decide
  have hfit : ∀ call ∈ [PairCall.equal 0 0, .old (.seek 1), .old (.copy 1 2 1 .raw), .new (.dump 0 9 .crLf)],
      call.Fits old.table.count new.table.count := by
    simp [PairCall.Fits, TokenCall.Fits, hcount, hcount']
  obtain ⟨⟨w, v⟩, hcalls⟩ := hof.exists_runAll hof' hfit
  obtain ⟨hreads, -⟩ := hreads _ w v hcalls
  obtain ⟨written, ended, w₁, hdump, hwritten, hended⟩ := hreads.dump .crLf 0 9 (Nat.zero_le _)
  obtain ⟨copied, done, w₂, hcopy, -, hcopied, hdone⟩ :=
    hreads.copy .crLf 0 9 [2, 1, 1, 1, 7, 1, 1] (Nat.zero_le _) (by decide)
  rw [htext] at hwritten hcopied hdone
  obtain rfl : done = true := hdone (by decide)
  obtain rfl : ended = true := hended.2 (.inr (congrArg List.getLast? hwritten))
  rw [hwritten] at hdump
  rw [hcopied rfl] at hcopy
  exact ⟨old, new, (w, v), hold, hnew, hcalls, ⟨w₁, hdump⟩, w₂, hcopy⟩

end TokenDiff
