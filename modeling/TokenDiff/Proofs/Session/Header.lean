import TokenDiff.Proofs.Files.Content
import TokenDiff.Proofs.Report.Palette
import TokenDiff.Proofs.Text.Decimal
import TokenDiff.Session.Compare

/-!
# Header lines

A header line names one of the files that are compared, and says when it was modified. In colours it is bold as a
whole: where the path has the code in it that turns colours off, they are turned on again (`inBold_paintHeader`).
There is one for each file, if they are asked for (`CompareRequest.isHeading_headerLines`).
-/

namespace TokenDiff

/-! ## Text in bold -/

/-- A text in bold, between `ESC[1m` and `ESC[0m`. Where the text has the second code in it, the first one follows
again. -/
inductive InBold : List UInt8 → List UInt8 → Prop
  | mk {pieces : List (List UInt8)} (hpieces : ∀ piece ∈ pieces, ¬ [27, 91, 48, 109] <:+: piece) :
      InBold ([27, 91, 48, 109].intercalate pieces)
        ([27, 91, 49, 109] ++ [27, 91, 48, 109, 27, 91, 49, 109].intercalate pieces ++ [27, 91, 48, 109])

theorem inBold_paintHeader (line : String) : InBold (utf8Bytes line) (paintHeader line) := by
  obtain ⟨piece, pieces, hfree, htext, hopen⟩ := exists_pieces_reopen Colour.bold.opening (utf8Bytes line)
  rw [paintHeader, Colour.apply, ← hopen, ← htext]
  exact .mk hfree

namespace CompareRequest

/-- The text of a header line: a mark, the path of a file, and its time behind a tab. -/
def headerText (zone : Zone) (mark : String) (p : Path) (f : File) : List UInt8 :=
  utf8Bytes mark ++ [32] ++ utf8Bytes p.text ++ [9] ++ utf8Bytes (timestamp zone f.modified)

/-- The header line of one of the files: its text, which is in bold if there are to be colours, and a line feed. -/
def IsHeader (r : CompareRequest) (disk : Disk) (zone : Zone) (mark : String) (p : Path) (line : List UInt8) :
    Prop :=
  ∃ f body, disk.get p = .ok (.file f) ∧ line = body ++ [10] ∧
    if r.colours then InBold (headerText zone mark p f) body else body = headerText zone mark p f

/-- The header lines of a comparison: one for each file, if they are asked for, the format has them and the files are
not identical. -/
def IsHeading (r : CompareRequest) (disk : Disk) (zone : Zone) (identical : Bool) (text : List UInt8) : Prop :=
  if r.headers = true ∧ r.flags.format ∈ [Format.context, .unified] ∧ identical = false then
    ∃ old new, text = old ++ new ∧
      r.IsHeader disk zone (if r.flags.format = .context then "***" else "---") r.old old ∧
      r.IsHeader disk zone (if r.flags.format = .context then "---" else "+++") r.new new
  else text = []

variable {r : CompareRequest} {disk : Disk} {zone : Zone} {p : Path} {f : File}

theorem isHeader_header (h : disk.get p = .ok (.file f)) (mark : String) :
    r.IsHeader disk zone mark p (r.header zone mark (r.source disk p)) := by
  let line := mark ++ " " ++ (p.text ++ "\t" ++ timestamp zone f.modified)
  have hline : utf8Bytes line = headerText zone mark p f := by
    have hblank : utf8Bytes " " = [32] := by decide
    have htab : utf8Bytes "\t" = [9] := by decide
    simp only [line, headerText, utf8Bytes_append, hblank, htab, List.append_assoc]
  have hmodified : (r.source disk p).modified = some f.modified := by
    rw [source, Disk.source, Disk.file?, h]
    rfl
  have hheader : r.header zone mark (r.source disk p) =
      (if r.colours then paintHeader line else utf8Bytes line) ++ [10] := by
    rw [header, hmodified]
    rfl
  refine ⟨f, _, h, hheader, ?_⟩
  cases r.colours with
  | false => exact hline
  | true => exact hline ▸ inBold_paintHeader line

/-- What is written before the report are the header lines. -/
theorem isHeading_headerLines {g : File} (hold : disk.get r.old = .ok (.file f))
    (hnew : disk.get r.new = .ok (.file g)) (identical : Bool) :
    r.IsHeading disk zone identical
      (if r.headers && !identical then r.headerLines disk zone else []) := by
  have hlines (h : r.flags.format ∈ [Format.context, .unified]) : ∃ old new,
      r.headerLines disk zone = old ++ new ∧
      r.IsHeader disk zone (if r.flags.format = .context then "***" else "---") r.old old ∧
      r.IsHeader disk zone (if r.flags.format = .context then "---" else "+++") r.new new := by
    rw [headerLines]
    cases hformat : r.flags.format with
    | context | unified => exact ⟨_, _, rfl, isHeader_header hold _, isHeader_header hnew _⟩
    | normal | rcs | html | summary => simp [hformat] at h
  have hnone (h : r.flags.format ∉ [Format.context, .unified]) : r.headerLines disk zone = [] := by
    rw [headerLines]
    cases hformat : r.flags.format with
    | context | unified => simp [hformat] at h
    | normal | rcs | html | summary => rfl
  unfold IsHeading
  split
  case isTrue h =>
    rw [h.1, h.2.2]
    exact hlines h.2.1
  case isFalse h =>
    split
    case isTrue hwanted =>
      rw [Bool.and_eq_true, Bool.not_eq_true'] at hwanted
      exact hnone fun hformat => h ⟨hwanted.1, hformat, hwanted.2⟩
    case isFalse => rfl

end CompareRequest

end TokenDiff
