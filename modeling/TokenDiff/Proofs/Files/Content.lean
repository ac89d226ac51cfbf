import TokenDiff.Files.Content
import TokenDiff.Proofs.Digest.Cache
import TokenDiff.Proofs.Token.Malformed

/-!
# What is read of a file

A file is read as it is stored, or unpacked. Either way its content comes in pieces up to its end, or up to
the place where the archive is broken (`Compression.content_cases`). So the file at a path is a source that
replays one text at every opening, or there is a reason why it cannot be read (`Disk.replays_or_unreadable`):
it is not there, it is a folder, it cannot be opened, its archive is broken, or its content is not valid under the
charset. For each of these reasons no sequence can be built (`Disk.Unreadable.ofSource_error`).
-/

namespace TokenDiff

theorem Feed.breaks_append (data : List UInt8) (cause : Failure) :
    (Feed.ofBytes data ++ [Event.failed cause]).Breaks cause := by
  cases data with
  | nil => exact Feed.Breaks.failed
  | cons b data => exact Feed.Breaks.bytes (List.cons_ne_nil b data) .failed

/-! ## Stored and unpacked contents -/

theorem Gzip.contentFeed_cases (archive : List UInt8) :
    (∃ content, (contentFeed archive).Carries content) ∨ ∃ cause, (contentFeed archive).Breaks cause := by
  unfold contentFeed
  split
  · exact .inr ⟨_, .failed⟩
  · split
    · exact .inr ⟨_, .failed⟩
    · exact .inr ⟨_, Feed.breaks_append _ _⟩
    · split
      · exact .inr ⟨_, Feed.breaks_append _ _⟩
      · split
        · exact .inl ⟨_, Feed.carries_ofBytes _⟩
        · exact .inr ⟨_, Feed.breaks_append _ _⟩

theorem Compression.content_cases (compression : Compression) (data : List UInt8) :
    (∃ content, (compression.content (Feed.ofBytes data)).Carries content) ∨
      ∃ cause, (compression.content (Feed.ofBytes data)).Breaks cause := by
  cases compression with
  | none => exact .inl ⟨data, Feed.carries_ofBytes data⟩
  | gzip =>
      rw [content, Gzip.unpack, Reader.readToEnd_ofBytes]
      exact Gzip.contentFeed_cases data

/-! ## Files as sources -/

/-- Why the file at a path cannot be read to its end. -/
inductive Disk.Unreadable (d : Disk) (p : Path) (charset : Charset) (compression : Compression) : Prop
  | missing {fault : PathFault} (h : d.get p = .error fault)
  | folder (h : d.get p = .ok .folder)
  | denied {f : File} (h : d.get p = .ok (.file f)) (hread : f.readable = false)
  | broken {f : File} {cause : Failure} (h : d.get p = .ok (.file f)) (hread : f.readable = true)
    (hbreaks : (compression.content (Feed.ofBytes f.data)).Breaks cause)
  | malformed {f : File} {content : List UInt8} {place : Nat} (h : d.get p = .ok (.file f))
    (hread : f.readable = true)
    (hcontent : (compression.content (Feed.ofBytes f.data)).Carries content)
    (hplace : charset.decode content = .error place)

namespace Disk

variable {d : Disk} {p : Path} {charset : Charset} {compression : Compression}

theorem source_carries {f : File} {content : List UInt8} (h : d.get p = .ok (.file f))
    (hread : f.readable = true)
    (hcontent : (compression.content (Feed.ofBytes f.data)).Carries content) :
    (d.source p charset compression).Carries content := by
  intro k
  refine ⟨_, ?_, hcontent⟩
  simp only [source, openFeed_of_file h hread]

/-- A file is read as a text, or there is a reason why not. -/
theorem replays_or_unreadable (d : Disk) (p : Path) (charset : Charset) (compression : Compression) :
    (∃ text, (d.source p charset compression).Replays text) ∨ d.Unreadable p charset compression := by
  cases hget : d.get p with
  | error fault => exact .inr (.missing hget)
  | ok node =>
      cases node with
      | folder => exact .inr (.folder hget)
      | file f =>
          cases hread : f.readable with
          | false => exact .inr (.denied hget hread)
          | true =>
              rcases compression.content_cases f.data with ⟨content, hcontent⟩ | ⟨cause, hbreaks⟩
              · cases hdecode : charset.decode content with
                | ok text => exact .inl ⟨text, (source_carries hget hread hcontent).replays hdecode⟩
                | error place => exact .inr (.malformed hget hread hcontent hdecode)
              · exact .inr (.broken hget hread hbreaks)

/-- Of a file that cannot be read no sequence can be built. -/
theorem Unreadable.ofSource_error (h : d.Unreadable p charset compression) (policy : Policy) (tuning : Tuning) :
    ∃ cause, Sequence.ofSource (d.source p charset compression) policy tuning = .error (.read cause) := by
  have hbroken {feed : Feed} {cause : Failure} (hfeed : (d.source p charset compression).feedAt 0 = .ok feed)
      (hbreaks : feed.Breaks cause) :
      ∃ cause, Sequence.ofSource (d.source p charset compression) policy tuning = .error (.read cause) := by
    have hreader : (d.source p charset compression).reader 0 = .ok (Reader.ofFeed charset feed) := by
      rw [Source.reader, hfeed]
      rfl
    obtain ⟨cause, hfault, -⟩ := Sequence.ofSource_breaks hreader (hbreaks.breaks charset) policy tuning
    exact ⟨cause, hfault⟩
  have hclosed {fault : PathFault} (hopen : d.openFeed p = .error fault) :
      ∃ cause, Sequence.ofSource (d.source p charset compression) policy tuning = .error (.read cause) := by
    refine ⟨.failed (.path fault), ?_⟩
    simp only [Sequence.ofSource, Window.ofSource, Source.reader, source, hopen]
    rfl
  cases h with
  | missing h => exact hclosed (openFeed_of_error h)
  | folder h =>
      have hbreaks : (compression.content [.failed (.path .isADirectory)]).Breaks (.path .isADirectory) := by
        cases compression <;> exact .failed
      exact hbroken (by simp only [source, openFeed_of_folder h]) hbreaks
  | denied h hread => exact hclosed (openFeed_of_unreadable h hread)
  | broken h hread hbreaks => exact hbroken (by simp only [source, openFeed_of_file h hread]) hbreaks
  | malformed h hread hcontent hplace =>
      exact ⟨_, Sequence.ofSource_malformed (source_carries h hread hcontent) hplace policy tuning⟩

theorem exists_file_of_ofSource {policy : Policy} {tuning : Tuning} {s : Sequence}
    (h : Sequence.ofSource (d.source p charset compression) policy tuning = .ok s) :
    ∃ f, d.get p = .ok (.file f) := by
  have hreadable : ¬ d.Unreadable p charset compression := by
    intro hunreadable
    obtain ⟨cause, hfault⟩ := hunreadable.ofSource_error policy tuning
    rw [hfault] at h
    cases h
  cases hget : d.get p with
  | error fault => exact absurd (.missing hget) hreadable
  | ok node =>
      cases node with
      | folder => exact absurd (.folder hget) hreadable
      | file f => exact ⟨f, rfl⟩

end Disk

end TokenDiff
