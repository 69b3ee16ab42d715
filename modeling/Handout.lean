import Handout.Command.Basic
import Handout.Command.Footprint
import Handout.Command.Grammar
import Handout.Command.Manual
import Handout.Command.Misuse
import Handout.Command.Run
import Handout.Command.Summary
import Handout.Decimal.Binary64
import Handout.Decimal.Shortest
import Handout.Document.Basic
import Handout.Document.Snippet
import Handout.ErrorFamily
import Handout.Files.Change
import Handout.Files.Disk
import Handout.Files.Entry
import Handout.Files.Fault
import Handout.Files.Path
import Handout.Folder.FileFailure
import Handout.Folder.Session
import Handout.Folder.Snapshot
import Handout.Folder.Transform
import Handout.FormatError
import Handout.Main
import Handout.Markup.Attribute
import Handout.Markup.Marker
import Handout.Markup.Tree
import Handout.Proofs.Trimming
import Handout.Render.Activation
import Handout.Render.Basic
import Handout.Render.Mode
import Handout.Settings.Basic
import Handout.Settings.Extension
import Handout.Settings.Places
import Handout.Settings.Store
import Handout.Settings.Value
import Handout.Settings.Yaml
import Handout.Task.Cutoff
import Handout.Task.Number
import Handout.Text.Basic
import Handout.Text.Blank
import Handout.Text.HiddenRanges
import Handout.Text.Line
import Handout.Text.Occurrence
import Handout.Text.Quoted
import Handout.Text.Utf8
import Handout.Text.Word
import Handout.Text.WordRanges
import Handout.Variant.Basic
import Handout.Variant.Kind
import Handout.Yaml.Cursor
import Handout.Yaml.Keys
import Handout.Yaml.Reader
import Handout.Yaml.Scalar
import Handout.Yaml.ScalarReader
import Handout.Yaml.Simple
import Handout.Yaml.Writer
import Handout.Proofs.Toggling
import Handout.Proofs.Scanning
import Handout.Proofs.Tiling
import Handout.Proofs.Reading
import Handout.Proofs.Quiet
import Handout.Proofs.Writing
import Handout.Proofs.RoundTrip
import Handout.Proofs.Disk
import Handout.Proofs.Snapshot
import Handout.Proofs.Covering
import Handout.Proofs.Hiding
import Handout.Proofs.Switching
import Handout.Proofs.Looking
import Handout.Proofs.Copying
import Handout.Proofs.Running
import Handout.Proofs.InPlace
import Handout.Proofs.Original
import Handout.Proofs.Extraction
import Handout.Proofs.Surviving
import Handout.Proofs.Joining
import Handout.Proofs.Weaving
import Handout.Proofs.Accepting
import Handout.Proofs.Previewing
import Handout.Proofs.Filling
import Handout.Proofs.Refusing
import Handout.Proofs.Commenting
import Handout.Proofs.Revealing
import Handout.Proofs.Searching
import Handout.Proofs.Marking
import Handout.Proofs.Attributing
import Handout.Proofs.LineEnding
import Handout.Proofs.Numbering
import Handout.Proofs.Leading
import Handout.Proofs.Folding
import Handout.Proofs.Escaping
import Handout.Proofs.Encoding
import Handout.Proofs.Layout
import Handout.Proofs.Storing
import Handout.Proofs.Setting
import Handout.Proofs.Containing
import Handout.Proofs.Normalizing
