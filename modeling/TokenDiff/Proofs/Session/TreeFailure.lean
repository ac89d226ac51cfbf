import TokenDiff.Proofs.Digest.Lookups
import TokenDiff.Proofs.Sequencing
import TokenDiff.Proofs.Session.Reconcile

/-!
# When a comparison of two trees fails

A comparison of two trees consists of listings and lookups, which write nothing, and of one write at the end, which
does not fail (`writesLast_reconcile`). It looks up every file that is listed (`reconcile_ensures`), so it fails just
if one of the roots is not a folder or one of these files cannot be read (`reconcile_fails_iff`). A file whose digest
has been kept need not be read.
-/

namespace TokenDiff

/-! ## Writing at the end -/

/-- If the computation stops at a fault, it has written nothing. -/
def WritesLast {α : Type} (x : SessionM α) : Prop :=
  ∀ s fault s', x s = .error fault s' → s'.output = s.output

/-- The computation writes nothing, whether it gets through or not. -/
structure Silent {α : Type} (x : SessionM α) : Prop where
  ok : ∀ s a s', x s = .ok a s' → s'.output = s.output
  error : WritesLast x

namespace Silent

variable {α β : Type}

theorem pure (a : α) : Silent (Pure.pure a : SessionM α) where
  ok s a' s' h := by
    obtain ⟨-, rfl⟩ := EStateM.Result.ok.inj h
    rfl
  error := nofun

theorem ofExcept (x : Except CommandFault α) : Silent (MonadExcept.ofExcept x : SessionM α) := by
  cases x with
  | ok a => exact pure a
  | error fault =>
      refine ⟨nofun, fun s fault s' h => ?_⟩
      obtain ⟨-, rfl⟩ := EStateM.Result.error.inj h
      rfl

theorem digestOf (disk : Disk) (p : Path) : Silent (Session.digestOf disk p) := by
  refine ⟨fun s digest s' h => ?_, fun s fault s' h => ?_⟩ <;> unfold Session.digestOf at h <;>
    split at h <;> cases h <;> rfl

/-- What follows a computation that writes nothing may write in the end. -/
theorem bind_writesLast {x : SessionM α} {f : α → SessionM β} (hx : Silent x) (hf : ∀ a, WritesLast (f a)) :
    WritesLast (x >>= f) := by
  intro s fault s' h
  cases hres : x s with
  | ok a t =>
      rw [bind_eq_of_ok hres] at h
      rw [hf a t fault s' h, hx.ok s a t hres]
  | error fault' t =>
      rw [bind_eq_of_error hres] at h
      obtain ⟨-, rfl⟩ := EStateM.Result.error.inj h
      exact hx.error s fault' t hres

theorem bind {x : SessionM α} {f : α → SessionM β} (hx : Silent x) (hf : ∀ a, Silent (f a)) :
    Silent (x >>= f) := by
  refine ⟨fun s b s' h => ?_, hx.bind_writesLast fun a => (hf a).error⟩
  cases hres : x s with
  | ok a t =>
      rw [bind_eq_of_ok hres] at h
      rw [(hf a).ok t b s' h, hx.ok s a t hres]
  | error fault t =>
      rw [bind_eq_of_error hres] at h
      cases h

theorem compositional : Compositional SessionM fun _ => Silent := ⟨pure, bind⟩

end Silent

/-- A comparison of two trees writes once, after everything that can fail. -/
theorem writesLast_reconcile (disk : Disk) (r : TreeRequest) : WritesLast (Session.reconcile disk r) := by
  have hunder (root : Path) (files : List (List Name)) : Silent (Session.digestsUnder disk root files) :=
    Silent.compositional.mapM fun names _ => (Silent.digestOf disk _).bind fun _ => .pure _
  refine (Silent.ofExcept _).bind_writesLast fun old => (Silent.ofExcept _).bind_writesLast fun new => ?_
  refine (Silent.compositional.filterM fun names _ => ?_).bind_writesLast fun different => ?_
  · exact (Silent.digestOf disk _).bind fun _ => (Silent.digestOf disk _).bind fun _ => .pure _
  · exact (hunder _ _).bind_writesLast fun gone => (hunder _ _).bind_writesLast fun fresh => nofun

theorem TreeRequest.get_of_list {disk : Disk} {r : TreeRequest} {root : Path} {files : List (List Name)}
    (h : r.list disk root = .ok files) : disk.get root = .ok .folder := by
  unfold list at h
  split at h
  · rename_i place hplace
    split at h
    · rename_i hfolder
      simp only [Disk.get, hplace, bind, Except.bind, Disk.find?, if_pos hfolder]
    · cases h
  · cases h

/-- Where one of the roots is not a folder, a comparison of trees leaves the session as it was. -/
theorem reconcile_of_not_folder {disk : Disk} {r : TreeRequest}
    (h : disk.get r.old ≠ .ok .folder ∨ disk.get r.new ≠ .ok .folder) (s : Session) :
    ∃ fault, Session.reconcile disk r s = .error fault s := by
  cases hold : r.list disk r.old with
  | error fault =>
      refine ⟨fault, ?_⟩
      rw [Session.reconcile, hold]
      rfl
  | ok old =>
      cases hnew : r.list disk r.new with
      | error fault =>
          refine ⟨fault, ?_⟩
          rw [Session.reconcile, hold, hnew]
          rfl
      | ok new => exact (h.elim (· (TreeRequest.get_of_list hold)) (· (TreeRequest.get_of_list hnew))).elim

/-! ## Files that cannot be read -/

/-- Why a comparison of two trees fails: one of the roots is not a folder, or one of the files that are listed cannot
be read, and no digest has been kept for it. -/
inductive TreeRequest.Fails (r : TreeRequest) (disk : Disk) (kept : DigestCache) : Prop
  | notAFolder {root : Path} (hroot : root = r.old ∨ root = r.new) (h : disk.get root ≠ .ok .folder)
  | denied {root : Path} {place names : List Name} {f : File} (hroot : root = r.old ∨ root = r.new)
    (hplace : disk.resolve root = .ok place) (hnames : r.excludes names = false)
    (hfile : disk.find? (place ++ names) = some (.file f)) (hread : f.readable = false)
    (hkept : kept.get? (root.join names) = none)

namespace DigestCache

variable {disk : Disk} {kept : DigestCache} {p q : Path} {f : File}

/-- As long as there is no digest for a file that cannot be read, it is none of those that are looked up, and there is
no digest for it afterwards. -/
theorem digestOf_ensures_ne (hq : disk.get q = .ok (.file f)) (hread : f.readable = false) (p : Path) :
    Ensures (fun c => c.get? q = none) (fun _ => True) (digestOf disk p) fun _ => p ≠ q := by
  intro c hc
  rw [digestOf_eq_match]
  cases hp : c.get? p with
  | some digest =>
      refine ⟨hc, ?_⟩
      rintro rfl
      rw [hc] at hp
      cases hp
  | none =>
      cases hdigest : disk.digest p with
      | error fault => trivial
      | ok digest =>
          obtain ⟨g, hg, hreadable, -⟩ := Disk.get_of_digest hdigest
          have hparts : q.parts ≠ p.parts := by
            intro hparts
            rw [Disk.get_congr hparts hq hg, hreadable] at hread
            cases hread
          refine ⟨?_, fun hpq => hparts (congrArg Path.parts hpq.symm)⟩
          unfold insertNew
          split
          · exact hc
          · rw [get?, List.lookup_cons, beq_false_of_ne hparts]
            exact hc

/-- The digest of a file that can be read is found, and so is one that has been kept. -/
theorem digestOf_ensures_grows (h : (∃ f, disk.get p = .ok (.file f) ∧ f.readable = true) ∨ kept.get? p ≠ none) :
    Ensures kept.Grows (fun _ => False) (digestOf disk p) fun _ => True := by
  intro c hc
  rw [digestOf_eq_match]
  cases hp : c.get? p with
  | some digest => exact ⟨hc, trivial⟩
  | none =>
      obtain ⟨f, hget, hread⟩ := h.resolve_right fun hkept => by
        obtain ⟨digest, hdigest⟩ := Option.ne_none_iff_exists'.1 hkept
        rw [hc.kept p digest hdigest] at hp
        cases hp
      rw [Disk.digest_of_get hget hread]
      exact ⟨hc.trans (grows_insertNew c p _), trivial⟩

end DigestCache

theorem Session.digestOf_ensures {disk : Disk} {p : Path} {valid : DigestCache → Prop} {fails : CommandFault → Prop}
    {post : FileDigest → Prop} (h : Ensures valid fails (DigestCache.digestOf disk p) post) :
    Ensures (fun s : Session => valid s.digests) fails (digestOf disk p) post := by
  intro s hs
  have hout := h s.digests hs
  rw [digestOf]
  cases hres : DigestCache.digestOf disk p s.digests <;> rwa [hres] at hout

section

variable {disk : Disk} {r : TreeRequest} {a b : List Name}

/-- What each lookup ensures of its file holds of all the files of both trees. -/
theorem reconcile_ensures {valid : DigestCache → Prop} {fails : CommandFault → Prop} {P : Path → Prop}
    (hold : disk.resolve r.old = .ok a) (ha : disk.isFolder a = true) (hnew : disk.resolve r.new = .ok b)
    (hb : disk.isFolder b = true)
    (h : ∀ names ∈ r.names disk a, Ensures valid fails (DigestCache.digestOf disk (r.old.join names)) fun _ =>
      P (r.old.join names))
    (h' : ∀ names ∈ r.names disk b, Ensures valid fails (DigestCache.digestOf disk (r.new.join names)) fun _ =>
      P (r.new.join names)) :
    Ensures (fun s : Session => valid s.digests) fails (Session.reconcile disk r) fun _ =>
      (∀ names ∈ r.names disk a, P (r.old.join names)) ∧ ∀ names ∈ r.names disk b, P (r.new.join names) := by
  have hunder {root : Path} {files : List (List Name)}
      (hfiles : ∀ names ∈ files, Ensures valid fails (DigestCache.digestOf disk (root.join names)) fun _ =>
        P (root.join names)) :
      Ensures (fun s : Session => valid s.digests) fails (Session.digestsUnder disk root files) fun _ =>
        ∀ names ∈ files, P (root.join names) :=
    .mapM_forall fun names hnames => (Session.digestOf_ensures (hfiles names hnames)).bind fun _ hP => .pure hP
  have hboth : ∀ names ∈ (r.names disk a).filter (r.names disk b).contains,
      Ensures (fun s : Session => valid s.digests) fails
        (do
          let before ← Session.digestOf disk (r.old.join names)
          let after ← Session.digestOf disk (r.new.join names)
          return before != after)
        fun _ => P (r.old.join names) ∧ P (r.new.join names) := by
    intro names hnames
    obtain ⟨hmem, hmem'⟩ := List.mem_filter.1 hnames
    rw [List.contains_iff_mem] at hmem'
    refine (Session.digestOf_ensures (h names hmem)).bind fun _ hP => ?_
    exact (Session.digestOf_ensures (h' names hmem')).bind fun _ hP' => .pure ⟨hP, hP'⟩
  have hlist {root : Path} {files : List (List Name)} (hfiles : r.list disk root = .ok files) :
      Ensures (fun s : Session => valid s.digests) fails (MonadExcept.ofExcept (r.list disk root)) (· = files) := by
    rw [hfiles]
    exact .pure rfl
  refine (hlist (TreeRequest.list_eq hold ha)).bind ?_
  rintro _ rfl
  refine (hlist (TreeRequest.list_eq hnew hb)).bind ?_
  rintro _ rfl
  refine (Ensures.filterM_forall hboth).bind fun _ hdifferent => ?_
  refine (hunder fun names hnames => h names (List.mem_of_mem_filter hnames)).bind fun _ hgone => ?_
  refine (hunder fun names hnames => h' names (List.mem_of_mem_filter hnames)).bind fun _ hfresh => ?_
  intro s hs
  refine ⟨hs, fun names hnames => ?_, fun names hnames => ?_⟩
  · by_cases hmem : names ∈ r.names disk b
    · exact (hdifferent names (List.mem_filter.2 ⟨hnames, List.contains_iff_mem.2 hmem⟩)).1
    · exact hgone names (List.mem_filter.2 ⟨hnames, by simpa using hmem⟩)
  · by_cases hmem : names ∈ r.names disk a
    · exact (hdifferent names (List.mem_filter.2 ⟨hmem, List.contains_iff_mem.2 hnames⟩)).2
    · exact hfresh names (List.mem_filter.2 ⟨hnames, by simpa using hmem⟩)

theorem Disk.exists_place_of_folder {root : Path} (h : disk.get root = .ok .folder) :
    ∃ place, disk.resolve root = .ok place ∧ disk.isFolder place = true := by
  obtain ⟨place, hplace, hfind⟩ := exists_of_bind_eq_ok h
  refine ⟨place, hplace, ?_⟩
  cases hfolder : disk.isFolder place with
  | true => rfl
  | false =>
      rw [find?, hfolder] at hfind
      cases hlookup : disk.files.lookup place <;> simp [hlookup] at hfind

/-- Without a reason to fail, every file of both trees can be looked up. -/
theorem exists_ok_of_not_fails {s : Session} (hold : disk.resolve r.old = .ok a) (ha : disk.isFolder a = true)
    (hnew : disk.resolve r.new = .ok b) (hb : disk.isFolder b = true) (h : ¬ r.Fails disk s.digests) :
    ∃ changes t, Session.reconcile disk r s = .ok changes t := by
  have hreads {root : Path} {place : List Name} (hroot : root = r.old ∨ root = r.new)
      (hplace : disk.resolve root = .ok place) (hfolder : disk.isFolder place = true) :
      ∀ names ∈ r.names disk place, Ensures s.digests.Grows (fun _ => False)
        (DigestCache.digestOf disk (root.join names)) fun _ => True := by
    intro names hnames
    obtain ⟨hmem, hexcludes⟩ := List.mem_filter.1 hnames
    obtain ⟨f, hfile⟩ := Disk.mem_filesUnder.1 hmem
    refine DigestCache.digestOf_ensures_grows (or_iff_not_imp_right.2 fun hkept => ?_)
    refine ⟨f, Disk.get_join hplace hfolder hfile, ?_⟩
    by_contra hread
    exact h (.denied hroot hplace (by simpa using hexcludes) hfile (by simpa using hread) (not_not.1 hkept))
  obtain ⟨changes, t, hok, -⟩ := (reconcile_ensures (P := fun _ => True) hold ha hnew hb
    (hreads (.inl rfl) hold ha) (hreads (.inr rfl) hnew hb)).exists_ok (.refl s.digests)
  exact ⟨changes, t, hok⟩

/-- A file of one of the trees that cannot be read, and for which no digest has been kept, makes the comparison fail:
had it got through, it would have looked this file up. -/
theorem exists_error_of_denied {s : Session} {root : Path} {place names : List Name} {f : File}
    (hold : disk.resolve r.old = .ok a) (ha : disk.isFolder a = true) (hnew : disk.resolve r.new = .ok b)
    (hb : disk.isFolder b = true) (hroot : root = r.old ∨ root = r.new) (hplace : disk.resolve root = .ok place)
    (hnames : r.excludes names = false) (hfile : disk.find? (place ++ names) = some (.file f))
    (hread : f.readable = false) (hkept : s.digests.get? (root.join names) = none) :
    ∃ fault s', Session.reconcile disk r s = .error fault s' := by
  have hmem : names ∈ r.names disk place :=
    List.mem_filter.2 ⟨Disk.mem_filesUnder.2 ⟨f, hfile⟩, by rw [hnames]; rfl⟩
  have hfolder : disk.isFolder place = true := by
    rcases hroot with rfl | rfl
    · rwa [← Except.ok.inj (hold.symm.trans hplace)]
    · rwa [← Except.ok.inj (hnew.symm.trans hplace)]
  have hget := Disk.get_join hplace hfolder hfile
  have hothers := reconcile_ensures (P := (· ≠ root.join names)) hold ha hnew hb
    (fun m _ => DigestCache.digestOf_ensures_ne hget hread (r.old.join m))
    fun m _ => DigestCache.digestOf_ensures_ne hget hread (r.new.join m)
  have hnever : Ensures (fun s : Session => s.digests.get? (root.join names) = none) (fun _ => True)
      (Session.reconcile disk r) fun _ => False := by
    refine hothers.imp fun _ ⟨hbefore, hafter⟩ => ?_
    rcases hroot with rfl | rfl
    · obtain rfl := Except.ok.inj (hold.symm.trans hplace)
      exact hbefore names hmem rfl
    · obtain rfl := Except.ok.inj (hnew.symm.trans hplace)
      exact hafter names hmem rfl
  obtain ⟨fault, s', hrun, -⟩ := hnever.exists_error hkept
  exact ⟨fault, s', hrun⟩

/-- A comparison of two trees fails just if one of the roots is not a folder or one of the files cannot be read. -/
theorem reconcile_fails_iff (disk : Disk) (r : TreeRequest) (s : Session) :
    (∃ fault s', Session.reconcile disk r s = .error fault s') ↔ r.Fails disk s.digests := by
  by_cases hroots : disk.get r.old = .ok .folder ∧ disk.get r.new = .ok .folder
  case neg =>
    rw [not_and_or] at hroots
    obtain ⟨fault, hrun⟩ := reconcile_of_not_folder hroots s
    refine iff_of_true ⟨fault, s, hrun⟩ ?_
    rcases hroots with hroot | hroot
    · exact .notAFolder (.inl rfl) hroot
    · exact .notAFolder (.inr rfl) hroot
  obtain ⟨a, hold, ha⟩ := Disk.exists_place_of_folder hroots.1
  obtain ⟨b, hnew, hb⟩ := Disk.exists_place_of_folder hroots.2
  constructor
  · rintro ⟨fault, s', hrun⟩
    by_contra hnot
    obtain ⟨changes, t, hok⟩ := exists_ok_of_not_fails hold ha hnew hb hnot
    rw [hrun] at hok
    cases hok
  · rintro (⟨hroot, h⟩ | ⟨hroot, hplace, hnames, hfile, hread, hkept⟩)
    · rcases hroot with rfl | rfl
      · exact absurd hroots.1 h
      · exact absurd hroots.2 h
    · exact exists_error_of_denied hold ha hnew hb hroot hplace hnames hfile hread hkept

end

end TokenDiff
