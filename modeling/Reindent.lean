import Reindent.Advice.Hint
import Reindent.Assist.Snippet
import Reindent.Assist.Word
import Reindent.Command.Run
import Reindent.Main
import Reindent.Patch.Hunk
import Reindent.Project.Load
import Reindent.Proofs.Assist.LineSpan
import Reindent.Proofs.Command.FormatEffect
import Reindent.Proofs.Json.RoundTrip
import Reindent.Proofs.Layout.Code
import Reindent.Proofs.Layout.Conservation
import Reindent.Proofs.Layout.Idempotence
import Reindent.Proofs.Layout.Nesting
import Reindent.Proofs.Layout.Settling
import Reindent.Selection.Change
import Reindent.Selection.Search
import Reindent.Tool.Call
import Reindent.Watch.Runner
import Reindent.Proofs.FileTree.Lookup
import Reindent.Proofs.Selection.Membership
import Reindent.Proofs.Selection.Watched
import Reindent.Proofs.Command.FormatCheck
import Reindent.Proofs.Command.WatchRun
import Reindent.Proofs.Assist.Mark
import Reindent.Proofs.Command.InputAgreement
import Reindent.Proofs.Command.OutputMode
import Reindent.Proofs.Arguments.Operands
import Reindent.Proofs.Arguments.Encoding
import Reindent.Proofs.Tool.Files
import Reindent.Proofs.Assist.ClosingSlash
import Reindent.Proofs.Assist.ClosingLine
import Reindent.Proofs.Buffer.Simultaneous
import Reindent.Proofs.Layout.Statements
import Reindent.Proofs.Layout.Rules
import Reindent.Proofs.Selection.Exclusion
import Reindent.Proofs.Document.RoundTrip
import Reindent.Proofs.Patch.Reading
import Reindent.Proofs.Project.Validity
import Reindent.Proofs.Assist.WordLookup
import Reindent.Proofs.Layout.Reachable
import Reindent.Proofs.Line.Language
import Reindent.Proofs.Command.NearestRoot
import Reindent.Proofs.Toml.Statements
