import BnfReader.Command.Arguments
import BnfReader.Command.Console
import BnfReader.Command.Invocation
import BnfReader.Command.Layout
import BnfReader.Command.Markup
import BnfReader.Command.Parameter
import BnfReader.Command.Run
import BnfReader.Command.Table
import BnfReader.Files.Disk
import BnfReader.Files.Path
import BnfReader.Grammar.Basic
import BnfReader.Grammar.Format
import BnfReader.Grammar.Layers
import BnfReader.Grammar.Wire
import BnfReader.Json.Basic
import BnfReader.Json.Limits
import BnfReader.Json.Reader
import BnfReader.Json.Shown
import BnfReader.Json.Writer
import BnfReader.Log.Basic
import BnfReader.Log.Level
import BnfReader.Log.Reading
import BnfReader.Log.Vocabulary
import BnfReader.Main
import BnfReader.Number.Binary64
import BnfReader.Number.Shortest
import BnfReader.Parser.Basic
import BnfReader.Parser.Expected
import BnfReader.Parser.Failure
import BnfReader.Parser.Mismatch
import BnfReader.Parser.Run
import BnfReader.Proofs.Acts
import BnfReader.Proofs.Agreement
import BnfReader.Proofs.Alternatives
import BnfReader.Proofs.Annotations
import BnfReader.Proofs.Answers
import BnfReader.Proofs.Bounds
import BnfReader.Proofs.Canonical
import BnfReader.Proofs.Checks
import BnfReader.Proofs.Following
import BnfReader.Proofs.Frameworks
import BnfReader.Proofs.FrontEnds
import BnfReader.Proofs.Furthest
import BnfReader.Proofs.Hints
import BnfReader.Proofs.Joining
import BnfReader.Proofs.JsonText
import BnfReader.Proofs.LineBreaks
import BnfReader.Proofs.Locality
import BnfReader.Proofs.LongestRuns
import BnfReader.Proofs.MadeSettings
import BnfReader.Proofs.NewlineStyle
import BnfReader.Proofs.Noting
import BnfReader.Proofs.Places
import BnfReader.Proofs.PlainValues
import BnfReader.Proofs.Precedence
import BnfReader.Proofs.ReadValues
import BnfReader.Proofs.Readings
import BnfReader.Proofs.Regrouping
import BnfReader.Proofs.Reloading
import BnfReader.Proofs.Rendering
import BnfReader.Proofs.Repetition
import BnfReader.Proofs.Reports
import BnfReader.Proofs.RoundTrip
import BnfReader.Proofs.RuleByRule
import BnfReader.Proofs.Rules
import BnfReader.Proofs.SamePath
import BnfReader.Proofs.Scanner
import BnfReader.Proofs.ServeOptions
import BnfReader.Proofs.SettingsFaults
import BnfReader.Proofs.Shifting
import BnfReader.Proofs.Stopping
import BnfReader.Proofs.Storage
import BnfReader.Proofs.StyledText
import BnfReader.Proofs.TakenOptions
import BnfReader.Proofs.Terms
import BnfReader.Proofs.Utf8
import BnfReader.Proofs.Watching
import BnfReader.Proofs.WholeNumbers
import BnfReader.Proofs.WireForm
import BnfReader.Service.Assets
import BnfReader.Service.Dispatch
import BnfReader.Service.Forms
import BnfReader.Service.Framework
import BnfReader.Service.Http
import BnfReader.Service.Routes
import BnfReader.Service.Span
import BnfReader.Settings.Basic
import BnfReader.Settings.Store
import BnfReader.Text.Cells
import BnfReader.Text.Hex
import BnfReader.Text.Newlines
import BnfReader.Text.Numeral
import BnfReader.Text.Printable
import BnfReader.Text.Quoted
import BnfReader.Text.Space
import BnfReader.Text.Utf8
