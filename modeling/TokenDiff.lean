import TokenDiff.Charset.Text
import TokenDiff.Charset.Utf16
import TokenDiff.Charset.Utf8
import TokenDiff.CommandLine.Command
import TokenDiff.CommandLine.Grammar
import TokenDiff.CommandLine.Run
import TokenDiff.Digest.Cache
import TokenDiff.Digest.FileDigest
import TokenDiff.Digest.Sha1
import TokenDiff.Edit.Middle
import TokenDiff.Edit.Script
import TokenDiff.Edit.Snake
import TokenDiff.Edit.Tuning
import TokenDiff.Fault
import TokenDiff.Feed
import TokenDiff.Files.Content
import TokenDiff.Files.Disk
import TokenDiff.Files.Path
import TokenDiff.Flags
import TokenDiff.Gzip.Archive
import TokenDiff.Gzip.Checksum
import TokenDiff.Gzip.CodeTree
import TokenDiff.Gzip.Inflate
import TokenDiff.LineType
import TokenDiff.Main
import TokenDiff.Pattern.Basic
import TokenDiff.Pattern.Matching
import TokenDiff.Pattern.Parser
import TokenDiff.Reader
import TokenDiff.Reconcile.Change
import TokenDiff.Reconcile.Pairing
import TokenDiff.Report.Hunk
import TokenDiff.Report.Palette
import TokenDiff.Report.Piece
import TokenDiff.Report.Printer
import TokenDiff.Report.Style
import TokenDiff.Session.Basic
import TokenDiff.Session.Compare
import TokenDiff.Session.Digests
import TokenDiff.Session.Fault
import TokenDiff.Session.Reconcile
import TokenDiff.Source
import TokenDiff.Spelling
import TokenDiff.Text.Hidden
import TokenDiff.Text.LetterCase
import TokenDiff.Text.Quoted
import TokenDiff.Text.Ranges
import TokenDiff.Text.Timestamp
import TokenDiff.Text.WordCharacters
import TokenDiff.Token.Cut
import TokenDiff.Token.Equal
import TokenDiff.Token.Plain
import TokenDiff.Token.Policy
import TokenDiff.Token.Sequence
import TokenDiff.Token.Table
import TokenDiff.Window
import TokenDiff.Word
import TokenDiff.Proofs.Edit.Furthest
import TokenDiff.Proofs.Edit.Meeting
import TokenDiff.Proofs.Edit.Middle
import TokenDiff.Proofs.Edit.Ascending
import TokenDiff.Proofs.Edit.Search
import TokenDiff.Proofs.Edit.Corner
import TokenDiff.Proofs.Edit.Slide
import TokenDiff.Proofs.Edit.Lookup
import TokenDiff.Proofs.Edit.Script
import TokenDiff.Proofs.Answer
import TokenDiff.Proofs.Window.Operations
import TokenDiff.Proofs.Token.Cut
import TokenDiff.Proofs.Edit.Uniform
import TokenDiff.Proofs.Token.Identical
import TokenDiff.Proofs.Token.Malformed
import TokenDiff.Proofs.Report.Buffering
import TokenDiff.Proofs.Report.Patch
import TokenDiff.Proofs.Text.Decimal
import TokenDiff.Proofs.Report.Unified
import TokenDiff.Proofs.Token.Partition
import TokenDiff.Proofs.Report.Commands
import TokenDiff.Proofs.Report.Rcs
import TokenDiff.Proofs.Report.Normal
import TokenDiff.Proofs.Files.Order
import TokenDiff.Proofs.Files.Listing
import TokenDiff.Proofs.Digest.Cache
import TokenDiff.Proofs.Reconcile.Pairing
import TokenDiff.Proofs.Session.Reconcile
import TokenDiff.Proofs.Token.Calls
import TokenDiff.Proofs.Token.LineText
import TokenDiff.Proofs.Token.BlankSpace
import TokenDiff.Proofs.Token.LineEnding
import TokenDiff.Proofs.Token.Bytes
import TokenDiff.Proofs.Token.Copies
import TokenDiff.Proofs.Report.UnifiedHunks
import TokenDiff.Proofs.Report.ContextBlocks
import TokenDiff.Proofs.Report.WideContext
import TokenDiff.Proofs.Window.Steps
import TokenDiff.Proofs.Window.Failure
import TokenDiff.Proofs.Charset.Reading
import TokenDiff.Proofs.Charset.Utf8
import TokenDiff.Proofs.Charset.Utf16
import TokenDiff.Proofs.Report.Totals
import TokenDiff.Proofs.Report.Html
import TokenDiff.Proofs.Files.Parts
import TokenDiff.Proofs.Digest.Lookups
import TokenDiff.Proofs.Sequencing
import TokenDiff.Proofs.Session.Transparency
import TokenDiff.Proofs.Window.Breaking
import TokenDiff.Proofs.Files.Content
import TokenDiff.Proofs.Session.Failure
import TokenDiff.Proofs.Flags
import TokenDiff.Proofs.Report.Palette
import TokenDiff.Proofs.Report.Painting
import TokenDiff.Proofs.Report.Tones
import TokenDiff.Proofs.Edit.MiddleSnake
import TokenDiff.Proofs.Edit.Bias
import TokenDiff.Proofs.Edit.Collision
