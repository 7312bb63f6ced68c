import SourceStamp.Text.Builder
import SourceStamp.Lexis.Tracker
import SourceStamp.Log.Logger
import SourceStamp.Settings.Store
import SourceStamp.Main
import SourceStamp.Proofs.Lexis.Classification
import SourceStamp.Proofs.Call.Occurrence
import SourceStamp.Proofs.Call.Place
import SourceStamp.Proofs.Lexis.Visits
import SourceStamp.Proofs.Call.ClosingParen
import SourceStamp.Proofs.Call.Outline
import SourceStamp.Proofs.Call.Layout
import SourceStamp.Proofs.Call.Landing
import SourceStamp.Proofs.Edit.Pass
import SourceStamp.Proofs.Edit.Seam
import SourceStamp.Proofs.Call.StampText
import SourceStamp.Proofs.Call.Host
import SourceStamp.Proofs.Stamping.Plan
import SourceStamp.Proofs.Stamping.States
import SourceStamp.Proofs.Call.Declaration
import SourceStamp.Proofs.Call.SameOutside
import SourceStamp.Proofs.Call.Comments
import SourceStamp.Proofs.Call.Brackets
import SourceStamp.Proofs.Log.Merging
import SourceStamp.Proofs.Log.Stamped
import SourceStamp.Proofs.Files.Utf8
import SourceStamp.Proofs.Files.Writing
import SourceStamp.Proofs.Stamping.Woven
import SourceStamp.Proofs.Files.WrittenBack
import SourceStamp.Proofs.Call.Trivia
import SourceStamp.Proofs.Call.Supplant
import SourceStamp.Proofs.Stamping.Additions
import SourceStamp.Proofs.Call.Search
import SourceStamp.Proofs.Call.Sights
import SourceStamp.Proofs.Call.Tally
import SourceStamp.Proofs.Call.Nesting
import SourceStamp.Proofs.Call.StampSights
import SourceStamp.Proofs.Call.Widened
import SourceStamp.Proofs.Call.Moved
import SourceStamp.Proofs.Stamping.Added
import SourceStamp.Proofs.Stamping.Again
import SourceStamp.Proofs.Lexis.Tracking
import SourceStamp.Proofs.Lexis.Regions
import SourceStamp.Proofs.Call.Regions
import SourceStamp.Proofs.Text.Order
import SourceStamp.Proofs.Files.Descent
import SourceStamp.Proofs.Files.Walk
import SourceStamp.Proofs.Files.Places
import SourceStamp.Proofs.Files.Visits
import SourceStamp.Proofs.Files.Contents
import SourceStamp.Proofs.Files.Pruning
import SourceStamp.Proofs.Command.Reports
import SourceStamp.Proofs.Command.Passes
import SourceStamp.Proofs.Command.Failures
import SourceStamp.Proofs.Text.Lines
import SourceStamp.Proofs.Text.Decimal
import SourceStamp.Proofs.Stack.Lines
import SourceStamp.Proofs.Stack.Captured
import SourceStamp.Proofs.Stack.Shown
import SourceStamp.Proofs.Log.Attributed
import SourceStamp.Proofs.Text.StringLiteral
import SourceStamp.Proofs.Value.ObjectLiteral
import SourceStamp.Proofs.Log.ReadBack
import SourceStamp.Proofs.Settings.Acceptance
import SourceStamp.Proofs.Settings.Overrides
import SourceStamp.Proofs.Settings.Reactions
import SourceStamp.Proofs.Settings.Calls
import SourceStamp.Proofs.Call.Sketch
import SourceStamp.Proofs.Call.Filled
import SourceStamp.Proofs.Call.Arguments
import SourceStamp.Proofs.Call.Joined
import SourceStamp.Proofs.Stamping.Arity
import SourceStamp.Proofs.Lexis.Delimiters
import SourceStamp.Proofs.Lexis.Checkpoints
import SourceStamp.Proofs.Call.InStep
import SourceStamp.Proofs.Call.Separated
import SourceStamp.Proofs.Call.WellFormed
import SourceStamp.Proofs.Call.Grammar
import SourceStamp.Proofs.Edit.Splice
import SourceStamp.Proofs.Call.Whole
import SourceStamp.Proofs.Stamping.Markers
import SourceStamp.Proofs.Stack.Readable
import SourceStamp.Proofs.Stack.Forms
import SourceStamp.Proofs.Stack.Written
import SourceStamp.Proofs.Stack.Surrounded
import SourceStamp.Proofs.Text.Numeral
import SourceStamp.Proofs.Log.Malformed
import SourceStamp.Proofs.Path.Segments
import SourceStamp.Proofs.Path.SameFile
import SourceStamp.Proofs.Path.Query
import SourceStamp.Proofs.Settings.Handles
import SourceStamp.Log.Usage
import SourceStamp.Proofs.Log.Emitted
import SourceStamp.Proofs.Log.Metering
import SourceStamp.Proofs.Log.Chaining
import SourceStamp.Proofs.Files.Filtering
