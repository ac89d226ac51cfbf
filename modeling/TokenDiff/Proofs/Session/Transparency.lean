import TokenDiff.Proofs.Digest.Lookups
import TokenDiff.Proofs.Sequencing
import TokenDiff.Proofs.Session.Reconcile
import TokenDiff.Session.Digests

/-!
# The cache of digests does not show

A computation is `Transparent` if it comes to the same end from all sessions whose digests are faithful, and
writes the same and looks up the same files on the way, one after the other. Looking up a digest is, and so is
whatever is put together from lookups and writing, whether it gets through or stops at a fault. This covers
the two commands that ask for digests; what they leave in the cache are entries of files they have looked up
themselves. So a command ends in any session as it does in a fresh one (`digest_cache_transparent`).
-/

namespace TokenDiff

/-- From every session with faithful digests the computation comes to the same end, writes the same text and
looks up the same files. -/
def Transparent {α : Type} (disk : Disk) (x : SessionM α) : Prop :=
  ∃ (reply : Except CommandFault α) (text : List UInt8) (lookups : List Path),
    (∀ p ∈ lookups, p.EndsPlain) ∧
    ∀ s : Session, s.digests.Faithful disk →
      x s = endingIn reply
        { s with digests := lookups.foldl (DigestCache.lookUp disk) s.digests, output := s.output ++ text }

namespace Transparent

variable {α β : Type} {disk : Disk}

theorem pure (a : α) : Transparent disk (Pure.pure a) := by
  refine ⟨.ok a, [], [], nofun, fun s _ => ?_⟩
  rw [List.append_nil]
  rfl

theorem write (text : List UInt8) : Transparent disk (Session.write text) :=
  ⟨.ok (), text, [], nofun, fun _ _ => rfl⟩

theorem digestOf {p : Path} (hp : p.EndsPlain) : Transparent disk (Session.digestOf disk p) := by
  refine ⟨disk.digest p, [], [p], by simpa using hp, fun s hs => ?_⟩
  rw [Session.digestOf, hs.digestOf_eq hp, List.append_nil]
  cases disk.digest p <;> rfl

theorem bind {x : SessionM α} {f : α → SessionM β} (hx : Transparent disk x)
    (hf : ∀ a, Transparent disk (f a)) : Transparent disk (x >>= f) := by
  obtain ⟨reply, text, lookups, hplain, hrun⟩ := hx
  cases reply with
  | error fault => exact ⟨.error fault, text, lookups, hplain, fun s hs => bind_eq_of_error (hrun s hs) f⟩
  | ok a =>
      obtain ⟨reply, text', lookups', hplain', hrun'⟩ := hf a
      refine ⟨reply, text ++ text', lookups ++ lookups', List.forall_mem_append.2 ⟨hplain, hplain'⟩,
        fun s hs => ?_⟩
      rw [bind_eq_of_ok (hrun s hs), List.foldl_append, ← List.append_assoc]
      exact hrun' _ (hs.foldl_lookUp hplain)

theorem bind_ofExcept {x : Except CommandFault α} {f : α → SessionM β}
    (hf : ∀ a, x = .ok a → Transparent disk (f a)) : Transparent disk (MonadExcept.ofExcept x >>= f) := by
  cases x with
  | error fault =>
      refine ⟨.error fault, [], [], nofun, fun s _ => ?_⟩
      rw [List.append_nil]
      rfl
  | ok a => exact hf a rfl

theorem compositional (disk : Disk) : Compositional SessionM fun _ => Transparent disk := ⟨pure, bind⟩

end Transparent

/-! ## The commands that ask for digests -/

inductive DigestCommand where
  | digest (files : List Path)
  | reconcile (request : TreeRequest)

inductive DigestReply where
  | printed
  | changes (changes : List Change)
deriving DecidableEq, Repr

namespace DigestCommand

def run (disk : Disk) : DigestCommand → SessionM DigestReply
  | .digest files => do
    Session.printDigests disk files
    return .printed
  | .reconcile request => return .changes (← Session.reconcile disk request)

/-- The files that are named end plainly. -/
def EndsPlain : DigestCommand → Prop
  | .digest files => ∀ p ∈ files, p.EndsPlain
  | .reconcile _ => True

def runAll (disk : Disk) (commands : List DigestCommand) (s : Session) : Session :=
  commands.foldl
    (fun s command =>
      match command.run disk s with
      | .ok _ s' => s'
      | .error _ s' => s')
    s

end DigestCommand

section

variable {disk : Disk} {r : TreeRequest} {root : Path} {files : List (List Name)}

theorem TreeRequest.ne_nil_of_mem_list (h : r.list disk root = .ok files) :
    ∀ names ∈ files, names ≠ [] := by
  rintro names hnames rfl
  unfold list at h
  split at h
  · split at h
    · rename_i place _ hfolder
      obtain rfl := Except.ok.inj h
      obtain ⟨f, hf⟩ := Disk.mem_filesUnder.1 (List.mem_of_mem_filter hnames)
      rw [List.append_nil, Disk.find?_eq_file, hfolder] at hf
      cases hf.1
    · cases h
  · cases h

theorem transparent_digestsUnder (hfiles : ∀ names ∈ files, names ≠ []) :
    Transparent disk (Session.digestsUnder disk root files) :=
  (Transparent.compositional disk).mapM fun names hnames =>
    (Transparent.digestOf (Path.endsPlain_join root (hfiles names hnames))).bind fun _ => .pure _

theorem transparent_reconcile (disk : Disk) (r : TreeRequest) : Transparent disk (Session.reconcile disk r) := by
  refine .bind_ofExcept fun old hold => .bind_ofExcept fun new hnew => ?_
  have hold := TreeRequest.ne_nil_of_mem_list hold
  have hnew := TreeRequest.ne_nil_of_mem_list hnew
  have hdifferent : ∀ names ∈ old.filter new.contains, Transparent disk (do
      let before ← Session.digestOf disk (r.old.join names)
      let after ← Session.digestOf disk (r.new.join names)
      return before != after) := by
    intro names hnames
    have hne := hold names (List.mem_of_mem_filter hnames)
    exact (Transparent.digestOf (Path.endsPlain_join r.old hne)).bind fun _ =>
      (Transparent.digestOf (Path.endsPlain_join r.new hne)).bind fun _ => .pure _
  refine ((Transparent.compositional disk).filterM hdifferent).bind fun _ => ?_
  refine (transparent_digestsUnder fun names hnames => hold names (List.mem_of_mem_filter hnames)).bind
    fun _ => ?_
  refine (transparent_digestsUnder fun names hnames => hnew names (List.mem_of_mem_filter hnames)).bind
    fun _ => ?_
  exact (Transparent.write _).bind fun _ => .pure _

theorem transparent_printDigests {files : List Path} (hfiles : ∀ p ∈ files, p.EndsPlain) :
    Transparent disk (Session.printDigests disk files) :=
  (Transparent.compositional disk).forM fun p hp => (Transparent.digestOf (hfiles p hp)).bind fun _ => .write _

theorem DigestCommand.transparent_run (disk : Disk) {command : DigestCommand} (h : command.EndsPlain) :
    Transparent disk (command.run disk) := by
  cases command with
  | digest files => exact (transparent_printDigests h).bind fun _ => .pure _
  | reconcile request => exact (transparent_reconcile disk request).bind fun _ => .pure _

/-- Whatever commands have been run, the digests of the session are faithful. -/
theorem DigestCommand.faithful_runAll {commands : List DigestCommand}
    (hcommands : ∀ command ∈ commands, command.EndsPlain) {s : Session} (hs : s.digests.Faithful disk) :
    (runAll disk commands s).digests.Faithful disk := by
  induction commands generalizing s with
  | nil => exact hs
  | cons command commands ih =>
      obtain ⟨hcommand, hrest⟩ := List.forall_mem_cons.1 hcommands
      obtain ⟨reply, text, lookups, hplain, hrun⟩ := transparent_run disk hcommand
      have hdigests := hs.foldl_lookUp hplain
      rw [runAll, List.foldl_cons, hrun s hs]
      cases reply with
      | ok a => exact ih hrest hdigests
      | error fault => exact ih hrest hdigests

end

/-- A command that prints digests or compares trees, run on a session after others of that kind, whether they
got through or not, comes to the same answer or fault and writes the same as on a fresh session. On the way
it looks up the same files. Between any two of these lookups each entry of the cache is the digest of the file
that its key names, and no entry from before has been replaced. A lookup that fails leaves no entry. -/
theorem digest_cache_transparent {disk : Disk} {start : Session} (hstart : start.digests = {})
    {commands : List DigestCommand} (hcommands : ∀ command ∈ commands, command.EndsPlain)
    {command : DigestCommand} (hcommand : command.EndsPlain) :
    (∀ c p fault c', DigestCache.digestOf disk p c = .error fault c' → c' = c) ∧
    ∃ (reply : Except CommandFault DigestReply) (text : List UInt8) (lookups : List Path),
      let s := DigestCommand.runAll disk commands start
      command.run disk s = endingIn reply
        { s with digests := lookups.foldl (DigestCache.lookUp disk) s.digests, output := s.output ++ text } ∧
      (∀ fresh : Session, fresh.digests = {} → command.run disk fresh = endingIn reply
        { fresh with
          digests := lookups.foldl (DigestCache.lookUp disk) {}
          output := fresh.output ++ text }) ∧
      ∀ m n, m ≤ n →
        let c := (lookups.take m).foldl (DigestCache.lookUp disk) s.digests
        let c' := (lookups.take n).foldl (DigestCache.lookUp disk) s.digests
        c.Faithful disk ∧ c.Grows c' := by
  have hfaithful (s : Session) (hs : s.digests = {}) : s.digests.Faithful disk :=
    hs ▸ DigestCache.faithful_empty disk
  obtain ⟨reply, text, lookups, hplain, hrun⟩ := DigestCommand.transparent_run disk hcommand
  have hs := DigestCommand.faithful_runAll hcommands (hfaithful start hstart)
  refine ⟨fun c p fault c' => DigestCache.eq_of_digestOf_error, reply, text, lookups, hrun _ hs,
    fun fresh hfresh => ?_, fun m n hmn => ⟨?_, ?_⟩⟩
  · rw [hrun fresh (hfaithful fresh hfresh), hfresh]
  · exact hs.foldl_lookUp fun p hp => hplain p (List.mem_of_mem_take hp)
  · obtain ⟨more, hmore⟩ := List.take_prefix_take_left (l := lookups) hmn
    rw [← hmore, List.foldl_append]
    exact DigestCache.grows_foldl_lookUp disk _ more

def Path.twin : Path := .ofText "old/a"

def Path.twinSpelled : Path := .ofText "old//a"

/-- The first command stops at a file that is not there, and the second one asks for the file under a different
spelling of its path. -/
theorem digest_cache_transparent_of_twins :
    ∃ (reply : Except CommandFault DigestReply) (text : List UInt8) (lookups : List Path),
      let s := DigestCommand.runAll Disk.twins
        [.digest [Path.twin, .ofText "old/z"],
          .reconcile TreeRequest.twins] {}
      (DigestCommand.digest [Path.twinSpelled]).run Disk.twins s = endingIn reply
        { s with
          digests := lookups.foldl (DigestCache.lookUp Disk.twins) s.digests
          output := s.output ++ text } ∧
      (DigestCommand.digest [Path.twinSpelled]).run Disk.twins {} = endingIn reply
        { digests := lookups.foldl (DigestCache.lookUp Disk.twins) {}, output := text } := by
  have hcommands : ∀ command ∈ [DigestCommand.digest [Path.twin, .ofText "old/z"],
      .reconcile TreeRequest.twins], command.EndsPlain := by
    simp only [List.forall_mem_cons, List.not_mem_nil, false_implies, implies_true, and_true,
      DigestCommand.EndsPlain]
    decide
  have hcommand : (DigestCommand.digest [Path.twinSpelled]).EndsPlain := by
    simp only [DigestCommand.EndsPlain, List.forall_mem_singleton]
    decide
  obtain ⟨-, reply, text, lookups, hrun, hfresh, -⟩ :=
    @digest_cache_transparent Disk.twins {} rfl _ hcommands _ hcommand
  exact ⟨reply, text, lookups, hrun, hfresh {} rfl⟩

end TokenDiff
