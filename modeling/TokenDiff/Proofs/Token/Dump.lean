import TokenDiff.Proofs.Token.Table
import TokenDiff.Proofs.Window.Copy

/-!
# The text of tokens

Dumping some tokens writes the translation of their bytes (`answers_dump`), whichever part of the stream the
window holds and wherever its cursor is. It also says whether this ends a line, by the last byte of the last
part that it has copied, which is the last byte of them all (`answers_dumpUpTo`). The copy is made in parts
(`Tape.Leaves.exists_part`). A part ends between two pieces that become one byte each, so the parts together
are the translation of the whole (`LineType.translate_pieces`); and they do not reach beyond the tokens, since
none of these ends between a carriage return and its line feed.
-/

namespace TokenDiff

open Window

/-- The text is empty, or its last byte is a line feed. -/
def endsLine (text : List UInt8) : Bool :=
  match text.getLast? with
  | some b => b == 10
  | none => true

theorem endsLine_iff {text : List UInt8} : endsLine text = true ↔ text = [] ∨ text.getLast? = some 10 := by
  rw [endsLine, ← List.getLast?_eq_none_iff]
  cases text.getLast? with
  | none => simp
  | some b => simp

def Window.Over (text : List UInt8) (w : Window) : Prop := ∃ t : Tape, t.bytes = text ∧ w.Shows t

namespace LineType

theorem pairs_drop (k : Nat) (bytes : List UInt8) :
    pairs (bytes.drop ((pairs bytes).take k).flatten.length) = (pairs bytes).drop k := by
  fun_induction pairs bytes generalizing k with
  | case1 => simp [pairs]
  | case2 b => cases k <;> simp [pairs]
  | case3 b c bytes h ih =>
      cases k with
      | zero =>
          rw [List.take_zero, List.flatten_nil, List.length_nil, List.drop_zero, List.drop_zero, pairs,
            if_pos h]
      | succ k =>
          rw [List.take_succ_cons, List.flatten_cons, List.length_append, List.drop_succ_cons, ← ih k,
            ← List.drop_drop]
          rfl
  | case4 b c bytes h ih =>
      cases k with
      | zero =>
          rw [List.take_zero, List.flatten_nil, List.length_nil, List.drop_zero, List.drop_zero, pairs,
            if_neg h]
      | succ k =>
          rw [List.take_succ_cons, List.flatten_cons, List.length_append, List.drop_succ_cons, ← ih k,
            ← List.drop_drop]
          rfl

theorem pieces_drop (type : LineType) (k : Nat) (bytes : List UInt8) :
    type.pieces (bytes.drop ((type.pieces bytes).take k).flatten.length) =
      (type.pieces bytes).drop k := by
  unfold pieces
  split
  · exact pairs_drop k bytes
  · rw [← List.map_take, flatten_singletons, List.map_drop, List.length_take]
    rcases Nat.le_total k bytes.length with hk | hk
    · rw [Nat.min_eq_left hk]
    · have hmap : (bytes.map ([·])).length ≤ k := by rwa [List.length_map]
      rw [Nat.min_eq_right hk, List.drop_eq_nil_of_le hmap,
        List.drop_eq_nil_of_le (Nat.le_of_eq (List.length_map _))]

theorem collapse_pairs (k : Nat) (bytes : List UInt8) :
    collapse bytes =
      collapse ((pairs bytes).take k).flatten ++
        collapse (bytes.drop ((pairs bytes).take k).flatten.length) := by
  fun_induction pairs bytes generalizing k with
  | case1 => simp [collapse]
  | case2 b => cases k <;> simp [collapse]
  | case3 b c bytes h ih =>
      obtain ⟨rfl, rfl⟩ := h
      cases k with
      | zero => rfl
      | succ k =>
          rw [List.take_succ_cons, List.flatten_cons, List.length_append, ← List.drop_drop]
          change _ = collapse (13 :: 10 :: _) ++ collapse (bytes.drop _)
          rw [collapse_pair, collapse_pair, ih k]
          rfl
  | case4 b c bytes h ih =>
      cases k with
      | zero => rfl
      | succ k =>
          have hwhole : ¬(b = 13 ∧ (c :: bytes).head? = some 10) := by simpa using h
          have hpart : ¬(b = 13 ∧ ((pairs (c :: bytes)).take k).flatten.head? = some 10) := by
            rintro ⟨hcr, hlf⟩
            obtain ⟨left, hleft⟩ := List.take_prefix k (pairs (c :: bytes))
            have hflat := congrArg List.flatten hleft
            rw [List.flatten_append, flatten_pairs] at hflat
            refine hwhole ⟨hcr, ?_⟩
            rw [← hflat, List.head?_append, hlf]
            rfl
          rw [List.take_succ_cons, List.flatten_cons, List.singleton_append, List.length_cons,
            List.drop_succ_cons, collapse_cons_of_not hwhole, collapse_cons_of_not hpart, ih k]
          rfl

theorem take_pieces_append (type : LineType) (k : Nat) (bytes : List UInt8) :
    ((type.pieces bytes).take k).flatten ++ bytes.drop ((type.pieces bytes).take k).flatten.length =
      bytes := by
  have hdrop := congrArg List.flatten (type.pieces_drop k bytes)
  rw [flatten_pieces] at hdrop
  rw [hdrop, ← List.flatten_append, List.take_append_drop, flatten_pieces]

/-- Bytes can be translated in two parts, if these consist of whole pieces. -/
theorem translate_pieces (type : LineType) (k : Nat) (bytes : List UInt8) :
    type.translate bytes =
      type.translate ((type.pieces bytes).take k).flatten ++
        type.translate (bytes.drop ((type.pieces bytes).take k).flatten.length) := by
  have hwhole := type.take_pieces_append k bytes
  cases type with
  | raw => exact hwhole.symm
  | cr =>
      rw [translate, translate, translate, ← List.map_append, hwhole]
  | crLf => exact collapse_pairs k bytes
  | lfCrLf => exact collapse_pairs k bytes

theorem collapse_eq_nil {bytes : List UInt8} (h : collapse bytes = []) : bytes = [] := by
  fun_induction collapse bytes with
  | case1 => rfl
  | case2 b => exact absurd h (List.cons_ne_nil b [])
  | case3 b c bytes hpair ih => exact absurd (ih h) (List.cons_ne_nil c bytes)
  | case4 b c bytes hpair ih => exact absurd h (List.cons_ne_nil _ _)

theorem translate_eq_nil {type : LineType} {bytes : List UInt8} (h : type.translate bytes = []) :
    bytes = [] := by
  cases type with
  | raw => exact h
  | cr => exact List.map_eq_nil_iff.1 h
  | crLf => exact collapse_eq_nil h
  | lfCrLf => exact collapse_eq_nil h

theorem eq_nil_of_take_pieces {type : LineType} {k : Nat} {bytes : List UInt8} (hk : 0 < k)
    (h : ((type.pieces bytes).take k).flatten = []) : bytes = [] := by
  have hdrop := type.pieces_drop k bytes
  rw [h, List.length_nil, List.drop_zero] at hdrop
  have hpieces : type.pieces bytes = [] := by
    have hlen := congrArg List.length hdrop
    rw [List.length_drop] at hlen
    exact List.length_eq_zero_iff.1 (by omega)
  rw [← type.flatten_pieces bytes, hpieces, List.flatten_nil]

theorem reach_drop {type : LineType} {n : Nat} {bytes : List UInt8} (h : type.reach n bytes = n)
    (k : Nat) : type.reach (n - k) (bytes.drop k) = n - k := by
  unfold reach at h ⊢
  split at h
  · omega
  · rename_i hfree
    rw [if_neg]
    rintro ⟨htype, hpos, hreturn, hfeed⟩
    rw [List.getElem?_drop] at hreturn hfeed
    refine hfree ⟨htype, by omega, ?_, ?_⟩
    · rwa [show n - 1 = k + (n - k - 1) by omega]
    · rwa [show n = k + (n - k) by omega]

end LineType

/-! ## Copying in parts -/

/-- What is left to be copied up to a place of the stream. The place is not between a carriage return and its
line feed, so a copy does not reach beyond it. -/
structure Tape.Leaves (t : Tape) (limit : Nat) (type : LineType) (left : List UInt8) : Prop where
  reach_eq : type.reach (limit - t.cursor) t.rest = limit - t.cursor
  take_eq : t.rest.take (limit - t.cursor) = left

section

variable {t : Tape} {limit : Nat} {type : LineType} {left : List UInt8}

/-- One part of a copy writes the translation of the first bytes that are left, and leaves the others. If any
are left, there are some among them. -/
theorem Tape.Leaves.exists_part (h : t.Leaves limit type left) {room : Nat} (hroom : 0 < room) :
    ∃ used rest, used ++ rest = left ∧
      type.translate left = type.translate used ++ type.translate rest ∧ (used = [] → left = []) ∧
      Answers (Shows t) (Table.copyUpTo limit room type) (type.translate used)
        (Shows (t.forward used.length)) ∧
      (t.forward used.length).Leaves limit type rest := by
  have happend := type.take_pieces_append room left
  have htranslate := type.translate_pieces room left
  have hnil : ((type.pieces left).take room).flatten = [] → left = [] :=
    LineType.eq_nil_of_take_pieces hroom
  have hused : type.used room (limit - t.cursor) t.rest = ((type.pieces left).take room).flatten := by
    rw [LineType.used, h.reach_eq, h.take_eq]
  rw [← hused] at happend htranslate hnil
  refine ⟨_, _, happend, htranslate, hnil, ?_, ?_⟩
  · refine Answers.bind_get fun w hw => ?_
    rw [hw.tell_eq]
    exact answers_copy t room (limit - t.cursor) type w hw
  · generalize type.used room (limit - t.cursor) t.rest = used at happend
    have hlen : used.length ≤ limit - t.cursor ∧ used.length ≤ t.rest.length := by
      have hsum := congrArg List.length happend
      rw [← h.take_eq, List.length_append, List.length_take] at hsum
      omega
    have hleft : limit - (t.forward used.length).cursor = limit - t.cursor - used.length := by
      rw [t.forward_cursor_of_le hlen.2, Nat.sub_sub]
    constructor
    · rw [hleft, t.rest_forward]
      exact LineType.reach_drop h.reach_eq _
    · rw [hleft, t.rest_forward, ← List.drop_take, h.take_eq]

/-- Copying in parts up to a place writes the translation of what is left before it. The last byte that has been
copied is the last one of this, or the one from before if nothing is left. -/
theorem answers_dumpUpTo {fuel : Nat} (h : t.Leaves limit type left) (hfuel : left.length ≤ fuel)
    (last : Option UInt8) :
    Answers (Shows t) (Table.dumpUpTo limit type fuel last)
      (type.translate left, (type.translate left).getLast?.or last) (Over t.bytes) := by
  induction fuel generalizing t left last with
  | zero =>
      rw [List.length_eq_zero_iff.1 (Nat.le_zero.1 hfuel), LineType.translate_nil]
      exact (Answers.pure ([], last)).mono (fun w hw => hw) fun w hw => ⟨t, rfl, hw⟩
  | succ fuel ih =>
      have hroom : 0 < Table.dumpSize := by decide
      obtain ⟨used, rest, happend, htranslate, hnil, hpart, hrest⟩ := h.exists_part hroom
      refine hpart.bind ?_
      by_cases hused : used = []
      · rw [hnil hused, hused, LineType.translate_nil]
        exact (Answers.pure ([], last)).mono (fun w hw => hw) fun w hw => ⟨_, t.forward_bytes _, hw⟩
      · have hne : type.translate used ≠ [] := fun h => hused (LineType.translate_eq_nil h)
        have hlast : (type.translate left).getLast?.or last =
            (type.translate rest).getLast?.or (type.translate used).getLast? := by
          rw [htranslate, List.getLast?_append, List.getLast?_eq_some_getLast hne, Option.or_assoc]
          rfl
        have hlen := congrArg List.length happend
        have hpos := List.length_pos_iff.2 hused
        rw [List.length_append] at hlen
        rw [List.isEmpty_eq_false_iff.2 hne, hlast, htranslate]
        exact (ih hrest (by omega) _).bind (Answers.pure _)

end

namespace Policy

/-- No token ends between a carriage return and its line feed. -/
theorem not_return_feed_at_place (p : Policy) (text : List UInt8) (i : Nat) (hpos : 0 < p.place text i)
    (hreturn : text[p.place text i - 1]? = some 13) : text[p.place text i]? ≠ some 10 := by
  intro hfeed
  have hlast : ((p.tokens text).take i).flatten.getLast? = some 13 := by
    have hle := p.place_le text i
    rw [← p.take_place, List.getLast?_take, if_neg (Nat.ne_of_gt hpos), hreturn]
    rfl
  have hhead : ((p.tokens text).drop i).flatten.head? = some 10 := by
    rw [← p.drop_place, List.head?_drop, hfeed]
  have hcut := p.cuts_of_place text i hlast hhead
  rw [p.cuts_return_feed] at hcut
  cases hcut

theorem take_drop_place (p : Policy) (text : List UInt8) (start stop : Nat) :
    (text.drop (p.place text start)).take (p.place text stop - p.place text start) =
      (((p.tokens text).drop start).take (stop - start)).flatten := by
  rcases Nat.le_total start stop with hle | hle
  · have hplace := p.place_add text start (stop - start)
    rw [Nat.add_sub_cancel' hle] at hplace
    rw [hplace, Nat.add_sub_cancel_left, p.drop_place]
    conv_lhs =>
      arg 2
      rw [← List.take_append_drop (stop - start) ((p.tokens text).drop start), List.flatten_append]
    exact List.take_left
  · have hplace := p.place_add text stop (start - stop)
    rw [Nat.add_sub_cancel' hle] at hplace
    rw [Nat.sub_eq_zero_of_le hle, Nat.sub_eq_zero_of_le (by omega), List.take_zero, List.take_zero,
      List.flatten_nil]

end Policy

def Policy.tapeAt (p : Policy) (text : List UInt8) (i : Nat) : Tape := (Tape.start text).seek (p.place text i)

section

variable (p : Policy) (text : List UInt8)

@[simp] theorem tapeAt_bytes (i : Nat) : (p.tapeAt text i).bytes = text := rfl

@[simp] theorem tapeAt_cursor (i : Nat) : (p.tapeAt text i).cursor = p.place text i :=
  Nat.min_eq_left (p.place_le text i)

theorem tapeAt_rest (i : Nat) : (p.tapeAt text i).rest = ((p.tokens text).drop i).flatten := by
  rw [Tape.rest, tapeAt_bytes, tapeAt_cursor, p.drop_place]

theorem answers_seek_token {i : Nat} (h : i ≤ (p.tokens text).length) :
    Answers (Over text) ((p.table text).seek i) () (Shows (p.tapeAt text i)) := by
  rintro w ⟨t, rfl, hw⟩
  rw [Table.seek, Table.offset, offset?_table p _ h]
  exact answers_seek t (p.place t.bytes i) w hw

/-- From the start of a token, the text of the tokens before another one is left. -/
theorem leaves_tapeAt (start stop : Nat) (type : LineType) :
    (p.tapeAt text start).Leaves (p.place text stop) type
      (((p.tokens text).drop start).take (stop - start)).flatten := by
  have hrest : (p.tapeAt text start).rest = text.drop (p.place text start) := by
    rw [Tape.rest, tapeAt_bytes, tapeAt_cursor]
  constructor
  · rw [tapeAt_cursor, LineType.reach, if_neg]
    rintro ⟨-, hpos, hreturn, hfeed⟩
    rw [hrest, List.getElem?_drop] at hreturn hfeed
    refine p.not_return_feed_at_place text stop (by omega) ?_ ?_
    · rwa [show p.place text stop - 1 =
        p.place text start + (p.place text stop - p.place text start - 1) by omega]
    · rwa [show p.place text stop =
        p.place text start + (p.place text stop - p.place text start) by omega]
  · rw [tapeAt_cursor, hrest, p.take_drop_place]

/-- Dumping some tokens answers the translation of their bytes, and whether it ends a line, wherever in the text the
window is. -/
theorem answers_dump (type : LineType) {start : Nat} (stop : Nat)
    (hstart : start ≤ (p.tokens text).length) :
    Answers (Over text) ((p.table text).dump start stop type)
      (type.translate (((p.tokens text).drop start).take (stop - start)).flatten,
        endsLine (type.translate (((p.tokens text).drop start).take (stop - start)).flatten)) (Over text) := by
  have hleaves := leaves_tapeAt p text start stop type
  have hfuel := hleaves.take_eq ▸ List.length_take_le _ _
  have hends (written : List UInt8) : (written.getLast?.or none).all (· == 10) = endsLine written := by
    rw [Option.or_none, endsLine]
    cases written.getLast? <;> rfl
  refine (answers_seek_token p text hstart).bind (Answers.bind_get fun w hw => ?_)
  rw [limit_table, hw.tell_eq, ← hends]
  exact (answers_dumpUpTo hleaves hfuel none).bind (Answers.pure (_, Option.all _ _)) w hw

end

end TokenDiff
