import TokenDiff.Proofs.Token.Partition

/-!
# Calls on two sequences

Whoever compares two sequences calls them in some order: tokens are compared from either side, sought, copied
in parts and dumped, and each call leaves the cursors of the windows where it has come to. A call that answers
leaves both windows somewhere in their texts (`PairCall.leads_run`), and so does every run of calls
(`Sequence.Of.over_of_runAll`). What is true wherever the windows are is then true after any calls. Calls for
tokens that are there all answer (`PairCall.answers_runAll`).

A comparison of two tokens then has one answer after any calls (`Sequence.AlwaysAnswers`). Some policies compare
tokens by a form of their bytes (`Policy.ComparesBy`), and any two sequences under such a policy answer whether
the forms are the same (`Policy.ComparesBy.exists_comparesBy`).
-/

namespace TokenDiff

open Window PairM

inductive TokenCall where
  | seek (i : Nat)
  | copy (start stop room : Nat) (type : LineType)
  | dump (start stop : Nat) (type : LineType)

def TokenCall.run (t : Table) : TokenCall → WindowM Unit
  | seek i => t.seek i
  | copy start stop room type => do
    let _ ← t.copyTokens start stop room type
  | dump start stop type => do
    let _ ← t.dump start stop type

/-- A call on two sequences. Tokens may be compared from either side. -/
inductive PairCall where
  | old (call : TokenCall)
  | new (call : TokenCall)
  | likely (i j : Nat)
  | equal (i j : Nat)
  | equalBack (j i : Nat)

namespace PairCall

def run (old new : Table) : PairCall → PairM Unit
  | .old call => onLeft (call.run old)
  | .new call => onRight (call.run new)
  | likely i j => do
    let _ ← MonadExcept.ofExcept (old.likely new i j)
  | equal i j => do
    let _ ← old.equal new i j
  | equalBack j i => do
    let _ ← exchanged (new.equal old j i)

def runAll (old new : Table) : List PairCall → PairM Unit
  | [] => pure ()
  | call :: calls => do
    call.run old new
    runAll old new calls

end PairCall

/-! ## What calls leave behind -/

variable (p : Policy) {text S T : List UInt8}

theorem offset?_table_eq_none {i : Nat} (h : (p.tokens text).length < i) :
    (p.table text).offset? i = none := by
  have hsize := count_table p text
  rw [Table.count] at hsize
  rw [Table.offset?, Array.getElem?_eq_none (by omega)]
  rfl

theorem lt_of_length_table {i n : Nat} (h : (p.table text).length i = .ok n) : i < (p.tokens text).length := by
  by_contra hi
  have hnone : (p.table text).length? i = none := by
    rw [Table.length?, offset?_table_eq_none p (by omega : (p.tokens text).length < i + 1)]
    cases (p.table text).offset? i <;> rfl
  rw [Table.length, hnone] at h
  cases h

theorem exists_hash_table {i : Nat} (h : i ≤ (p.tokens text).length) : ∃ x, (p.table text).hash i = .ok x := by
  rw [Table.hash, Table.hash?, getElem?_table p text h]
  exact ⟨_, rfl⟩

theorem leads_seek (i : Nat) :
    Leads (Over text) (fun _ => True) ((p.table text).seek i) fun _ w =>
      w.Over text ∧ i ≤ (p.tokens text).length := by
  by_cases hi : i ≤ (p.tokens text).length
  · exact (answers_seek_token p text hi).leads.mono (fun w hw => hw) fun _ w hw => ⟨⟨_, rfl, hw.2⟩, hi⟩
  · rw [Table.seek, Table.offset, offset?_table_eq_none p (by omega)]
    exact fun _ _ => trivial

theorem leads_copyTokens {fails : Fault → Prop} (t : Table) (start stop room : Nat) (type : LineType) :
    Leads (Over text) fails (t.copyTokens start stop room type) fun _ => Over text := by
  have hcopy : Leads (Over text) fails (Table.copyUpTo (t.limit stop) room type) fun _ => Over text := by
    refine Leads.bind_get fun w ⟨u, hu, hw⟩ => ?_
    refine (answers_copy u room (t.limit stop - w.tell) type).leads.mono (fun v hv => hv ▸ hw) fun _ v hv => ?_
    exact ⟨_, (u.forward_bytes _).trans hu, hv.2⟩
  exact hcopy.bind fun _ => Leads.bind_get fun w hw => Leads.pure fun v hv => hv ▸ hw

theorem TokenCall.leads_run (call : TokenCall) :
    Leads (Over text) (fun _ => True) (call.run (p.table text)) fun _ => Over text := by
  cases call with
  | seek i => exact (leads_seek p i).mono (fun w hw => hw) fun _ w hw => hw.1
  | copy start stop room type =>
      exact (leads_copyTokens _ start stop room type).bind fun _ => Leads.pure fun w hw => hw
  | dump start stop type =>
      by_cases hstart : start ≤ (p.tokens text).length
      · refine Leads.bind (answers_dump p text type stop hstart).leads fun _ => ?_
        exact Leads.pure fun w hw => hw.2
      · refine Leads.bind (Leads.bind (leads_seek p start) fun _ => ?_) fun _ => Leads.pure fun w hw => hw
        exact Leads.assume (fun w hw => hw.2) fun hle => absurd hle hstart

/-- Comparing two tokens leaves the windows in their texts, and fails where there are no such tokens. -/
theorem leads_equal (i j : Nat) :
    Leads (BothOver S T) (fun _ => True) ((p.table S).equal (p.table T) i j) fun _ => BothOver S T := by
  by_cases h : i < (p.tokens S).length ∧ j < (p.tokens T).length
  · exact (answers_equal h.1 h.2).leads.mono (fun s hs => hs) fun _ s hs => hs.2
  · refine (Leads.ofExcept _ fun _ => trivial).bind fun likely => ?_
    cases likely with
    | false => exact Leads.pure fun s hs => hs.1
    | true =>
        refine Leads.bind (Leads.ofExcept _ fun _ => trivial) fun m => ?_
        refine Leads.bind (Leads.ofExcept _ fun _ => trivial) fun n => fun s hs => ?_
        exact absurd ⟨lt_of_length_table p hs.1.2, lt_of_length_table p hs.2⟩ h

namespace PairCall

theorem leads_run (call : PairCall) :
    Leads (BothOver S T) (fun _ => True) (call.run (p.table S) (p.table T)) fun _ => BothOver S T := by
  cases call with
  | old call => exact (call.leads_run p).onLeft
  | new call => exact (call.leads_run p).onRight
  | likely i j => exact (Leads.ofExcept _ fun _ => trivial).bind fun _ => Leads.pure fun s hs => hs.1
  | equal i j => exact (leads_equal p i j).bind fun _ => Leads.pure fun s hs => hs
  | equalBack j i =>
      have hback := (leads_equal p (S := T) (T := S) j i).exchanged
      exact (hback.mono (fun s hs => hs.symm) fun _ s hs => hs.symm).bind fun _ => Leads.pure fun s hs => hs

theorem leads_runAll (calls : List PairCall) :
    Leads (BothOver S T) (fun _ => True) (runAll (p.table S) (p.table T) calls) fun _ => BothOver S T := by
  induction calls with
  | nil => exact Leads.pure fun s hs => hs
  | cons call calls ih => exact (call.leads_run p).bind fun _ => ih

end PairCall

/-! ## Calls that answer -/

/-- The call goes to a token that there is, or to the end. -/
def TokenCall.Fits (count : Nat) : TokenCall → Prop
  | seek i => i ≤ count
  | copy _ _ _ _ => True
  | dump start _ _ => start ≤ count

/-- The tokens that are compared are there. The end has a hash as well. -/
def PairCall.Fits (m n : Nat) : PairCall → Prop
  | .old call => call.Fits m
  | .new call => call.Fits n
  | likely i j => i ≤ m ∧ j ≤ n
  | equal i j => i < m ∧ j < n
  | equalBack j i => i < m ∧ j < n

theorem TokenCall.answers_run {call : TokenCall} (h : call.Fits (p.tokens text).length) :
    Answers (Over text) (call.run (p.table text)) () (Over text) := by
  cases call with
  | seek i => exact (answers_seek_token p text h).mono (fun w hw => hw) fun w hw => ⟨_, rfl, hw⟩
  | copy start stop room type =>
      refine Leads.answers ?_
      exact (leads_copyTokens _ start stop room type).bind fun _ => Leads.pure fun w hw => ⟨rfl, hw⟩
  | dump start stop type => exact (answers_dump p text type stop h).bind (Answers.pure ())

namespace PairCall

theorem answers_run {call : PairCall} (h : call.Fits (p.tokens S).length (p.tokens T).length) :
    Answers (BothOver S T) (call.run (p.table S) (p.table T)) () (BothOver S T) := by
  cases call with
  | old call => exact (call.answers_run p h).onLeft
  | new call => exact (call.answers_run p h).onRight
  | likely i j =>
      obtain ⟨x, hx⟩ := exists_hash_table p h.1
      obtain ⟨y, hy⟩ := exists_hash_table p h.2
      rw [run, Table.likely, hx, hy]
      exact (Answers.ofExcept (x == y)).bind (Answers.pure ())
  | equal i j => exact (answers_equal h.1 h.2).bind (Answers.pure ())
  | equalBack j i =>
      have hback := (answers_equal h.2 h.1).exchanged
      exact (hback.mono (fun s hs => hs.symm) fun s hs => hs.symm).bind (Answers.pure ())

/-- Calls that fit all answer, in whatever order they are made. -/
theorem answers_runAll {calls : List PairCall}
    (h : ∀ call ∈ calls, call.Fits (p.tokens S).length (p.tokens T).length) :
    Answers (BothOver S T) (runAll (p.table S) (p.table T) calls) () (BothOver S T) := by
  induction calls with
  | nil => exact Answers.pure ()
  | cons call calls ih =>
      obtain ⟨hcall, hcalls⟩ := List.forall_mem_cons.1 h
      exact (call.answers_run p hcall).bind (ih hcalls)

end PairCall

/-- Calls on two sequences under one policy that fit all answer. -/
theorem Sequence.Of.exists_runAll {p : Policy} {old new : Sequence} (hold : old.Of p S) (hnew : new.Of p T)
    {calls : List PairCall} (h : ∀ call ∈ calls, call.Fits old.table.count new.table.count) :
    ∃ s, PairCall.runAll old.table new.table calls (old.window, new.window) = .ok () s := by
  rw [hold.count_eq, hnew.count_eq] at h
  obtain ⟨s, hs, -⟩ := PairCall.answers_runAll p h (old.window, new.window) ⟨hold.window, hnew.window⟩
  rw [hold.table, hnew.table]
  exact ⟨s, hs⟩

theorem Sequence.Of.over_of_runAll {p : Policy} {old new : Sequence} (hold : old.Of p S) (hnew : new.Of p T)
    {calls : List PairCall} {s : Window × Window}
    (h : PairCall.runAll old.table new.table calls (old.window, new.window) = .ok () s) : BothOver S T s := by
  rw [hold.table, hnew.table] at h
  exact (PairCall.leads_runAll p calls).of_ok ⟨hold.window, hnew.window⟩ h

/-- Whatever has been called before, comparing the two tokens has this answer, and so it has from the other
side. -/
def Sequence.AlwaysAnswers (old new : Sequence) (i j : Nat) (answer : Bool) : Prop :=
  ∀ calls s, PairCall.runAll old.table new.table calls (old.window, new.window) = .ok () s →
    (∃ t, old.table.equal new.table i j s = .ok answer t) ∧
    ∃ t, exchanged (new.table.equal old.table j i) s = .ok answer t

theorem Sequence.Of.alwaysAnswers {p : Policy} {old new : Sequence} (hold : old.Of p S) (hnew : new.Of p T)
    {i j : Nat} (hi : i < (p.tokens S).length) (hj : j < (p.tokens T).length)
    (hcomm : p.same (p.tokens T)[j] (p.tokens S)[i] = p.same (p.tokens S)[i] (p.tokens T)[j]) :
    old.AlwaysAnswers new i j (p.same (p.tokens S)[i] (p.tokens T)[j]) := by
  rintro calls ⟨l, r⟩ hcalls
  have hover := hold.over_of_runAll hnew hcalls
  obtain ⟨t, ht, -⟩ := answers_equal hi hj (l, r) hover
  obtain ⟨⟨r', l'⟩, hback, -⟩ := answers_equal hj hi (r, l) hover.symm
  rw [hcomm] at hback
  rw [hold.table, hnew.table]
  refine ⟨⟨t, ht⟩, (l', r'), ?_⟩
  rw [exchanged, hback]

/-! ## The bytes of a token -/

/-- The bytes of a token, which reach from the place where it starts to the place where the next one does. -/
def Table.tokenText (t : Table) (text : List UInt8) (i : Nat) : List UInt8 :=
  text.extract ((t.offset? i).getD 0) ((t.offset? (i + 1)).getD 0)

theorem Sequence.Of.tokenText_eq {p : Policy} {s : Sequence} (h : s.Of p text) {i : Nat}
    (hi : i < (p.tokens text).length) : s.table.tokenText text i = (p.tokens text)[i] := by
  rw [h.table, Table.tokenText, offset?_table p text (Nat.le_of_lt hi), offset?_table p text hi,
    Option.getD_some, Option.getD_some, Policy.extract_place hi]

/-! ## The hash of a token -/

/-- The rolling hash of some bytes: with each byte it is taken 293 times and the byte is added, modulo `2 ^ 32`. -/
def rollingHash (bytes : List UInt8) : Nat :=
  bytes.foldl (fun hash b => (293 * hash + b.toNat) % 2 ^ 32) 0

theorem rollingHash_concat (bytes : List UInt8) (b : UInt8) :
    rollingHash (bytes ++ [b]) = (293 * rollingHash bytes + b.toNat) % 2 ^ 32 := by
  rw [rollingHash, List.foldl_concat]
  rfl

/-- The hash that the tokenizers keep in a word is the rolling hash. -/
theorem toNat_hashBytes (bytes : List UInt8) : (hashBytes bytes).toNat = rollingHash bytes := by
  induction bytes using List.reverseRecOn with
  | nil => rfl
  | append_singleton bytes b ih =>
      rw [hashBytes_concat, rollingHash_concat, ← ih, hashByte, UInt32.toNat_add, UInt32.toNat_mul,
        UInt8.toNat_toUInt32, Nat.mod_add_mod, Nat.mul_comm]
      rfl

theorem rollingHash_eq_iff {xs ys : List UInt8} : rollingHash xs = rollingHash ys ↔ hashBytes xs = hashBytes ys := by
  rw [← toNat_hashBytes, ← toNat_hashBytes, UInt32.toNat_inj]

/-- The hash of each token is the rolling hash of a form of its bytes. -/
def Sequence.HashesBy (form : List UInt8 → List UInt8) (text : List UInt8) (s : Sequence) : Prop :=
  ∀ i < s.table.count,
    (s.table.hash? i).map UInt32.toNat = some (rollingHash (form (s.table.tokenText text i)))

theorem Sequence.Of.hashesBy {p : Policy} {form : List UInt8 → List UInt8} {s : Sequence} (h : s.Of p text)
    (hform : ∀ token ∈ p.tokens text, p.canonical token = form token) : s.HashesBy form text := by
  intro i hi
  rw [h.count_eq] at hi
  rw [h.tokenText_eq hi, h.table, hash?_table p text hi, Policy.hash, hform _ (List.getElem_mem hi),
    Option.map_some, toNat_hashBytes]

/-! ## Comparing by a form -/

/-- What counts of a token is a form of its bytes, and the bytes of two tokens agree just if their forms are
the same. -/
structure Policy.ComparesBy (p : Policy) (form : List UInt8 → List UInt8) : Prop where
  canonical_eq : ∀ {content token : List UInt8}, token ∈ p.tokens content → p.canonical token = form token
  agrees_iff : ∀ {content content' xs ys : List UInt8}, xs ∈ p.tokens content → ys ∈ p.tokens content' →
    (p.agrees xs ys = true ↔ form xs = form ys)

/-- The tokens of two sequences over two texts count by a form of their bytes: the hash of a token is that of
its form, and whatever has been called before, two tokens are equal just if their forms are the same. -/
structure Sequence.ComparesBy (form : List UInt8 → List UInt8) (S T : List UInt8) (old new : Sequence) :
    Prop where
  hash_old : old.HashesBy form S
  hash_new : new.HashesBy form T
  likely : ∀ i < old.table.count, ∀ j < new.table.count,
    form (old.table.tokenText S i) = form (new.table.tokenText T j) →
    old.table.likely new.table i j = .ok true
  equal : ∀ i < old.table.count, ∀ j < new.table.count, old.AlwaysAnswers new i j
    (decide (form (old.table.tokenText S i) = form (new.table.tokenText T j)))

namespace Policy.ComparesBy

variable {p : Policy} {form : List UInt8 → List UInt8}

theorem same_eq (h : p.ComparesBy form) {xs ys : List UInt8} (hxs : xs ∈ p.tokens S) (hys : ys ∈ p.tokens T) :
    p.same xs ys = decide (form xs = form ys) := by
  rw [Bool.eq_iff_iff, decide_eq_true_iff, Policy.same, Policy.hash, Policy.hash, h.canonical_eq hxs,
    h.canonical_eq hys, Bool.and_eq_true, h.agrees_iff hxs hys, beq_iff_eq]
  exact ⟨And.right, fun hsame => ⟨congrArg hashBytes hsame, hsame⟩⟩

theorem same_comm (h : p.ComparesBy form) {xs ys : List UInt8} (hxs : xs ∈ p.tokens S)
    (hys : ys ∈ p.tokens T) : p.same ys xs = p.same xs ys := by
  rw [h.same_eq hxs hys, h.same_eq hys hxs]
  exact decide_eq_decide.2 eq_comm

theorem comparesBy (h : p.ComparesBy form) {old new : Sequence} (hold : old.Of p S) (hnew : new.Of p T) :
    old.ComparesBy form S T new := by
  constructor
  case hash_old => exact hold.hashesBy fun _ => h.canonical_eq
  case hash_new => exact hnew.hashesBy fun _ => h.canonical_eq
  case likely =>
    intro i hi j hj hsame
    rw [hold.count_eq] at hi
    rw [hnew.count_eq] at hj
    rw [hold.tokenText_eq hi, hnew.tokenText_eq hj] at hsame
    rw [hold.table, hnew.table, likely_table hi hj, Policy.hash, Policy.hash,
      h.canonical_eq (List.getElem_mem hi), h.canonical_eq (List.getElem_mem hj), hsame, beq_self_eq_true]
  case equal =>
    intro i hi j hj
    rw [hold.count_eq] at hi
    rw [hnew.count_eq] at hj
    have hxs := List.getElem_mem hi
    have hys := List.getElem_mem hj
    rw [hold.tokenText_eq hi, hnew.tokenText_eq hj, ← h.same_eq hxs hys]
    exact hold.alwaysAnswers hnew hi hj (h.same_comm hxs hys)

/-- Sequences over any sources of two texts compare by the form of their policy. -/
theorem exists_comparesBy (h : p.ComparesBy form) {source source' : Source} (hS : source.Replays S)
    (hT : source'.Replays T) (tuning tuning' : Tuning) :
    ∃ old new, Sequence.ofSource source p tuning = .ok old ∧
      Sequence.ofSource source' p tuning' = .ok new ∧ old.ComparesBy form S T new := by
  obtain ⟨old, hopen, hold⟩ := Sequence.exists_ofSource hS p tuning
  obtain ⟨new, hopen', hnew⟩ := Sequence.exists_ofSource hT p tuning'
  exact ⟨old, new, hopen, hopen', h.comparesBy hold hnew⟩

end Policy.ComparesBy

end TokenDiff
