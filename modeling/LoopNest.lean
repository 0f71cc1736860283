import LoopNest.Flow.Graph
import LoopNest.Main
import LoopNest.Proofs.CommandLine.Concatenation
import LoopNest.Proofs.CommandLine.Failures
import LoopNest.Proofs.CommandLine.Files
import LoopNest.Proofs.CommandLine.PlanFiles
import LoopNest.Proofs.CommandLine.Reports
import LoopNest.Proofs.Config.Decoding
import LoopNest.Proofs.Config.Kernels
import LoopNest.Proofs.Config.Outcomes
import LoopNest.Proofs.Config.Shapes
import LoopNest.Proofs.Flow.Dominance
import LoopNest.Proofs.Flow.Forests
import LoopNest.Proofs.Flow.Loops
import LoopNest.Proofs.Flow.Moves
import LoopNest.Proofs.Flow.NaturalLoops
import LoopNest.Proofs.Flow.Nesting
import LoopNest.Proofs.Flow.Passes
import LoopNest.Proofs.Flow.Regions
import LoopNest.Proofs.Flow.Search
import LoopNest.Proofs.Flow.Settling
import LoopNest.Proofs.Flow.Shapes
import LoopNest.Proofs.Forest.Nested
import LoopNest.Proofs.Forest.Partitioned
import LoopNest.Proofs.Forest.Preorder
import LoopNest.Proofs.Forest.Walks
import LoopNest.Proofs.Json.Documents
import LoopNest.Proofs.Json.Grammar
import LoopNest.Proofs.Json.Members
import LoopNest.Proofs.Json.Scalars
import LoopNest.Proofs.Json.Writing
import LoopNest.Proofs.NoticeFilters
import LoopNest.Proofs.Notices
import LoopNest.Proofs.Pattern.ByteForms
import LoopNest.Proofs.Pattern.Matches
import LoopNest.Proofs.Pattern.Meanings
import LoopNest.Proofs.Pattern.NormalForms
import LoopNest.Proofs.Pattern.Readings
import LoopNest.Proofs.Pattern.Sets
import LoopNest.Proofs.Pattern.Sizes
import LoopNest.Proofs.Pattern.Words
import LoopNest.Proofs.Selection.Candidates
import LoopNest.Proofs.Selection.Classes
import LoopNest.Proofs.Selection.Plans
import LoopNest.Proofs.Selection.Policy
import LoopNest.Proofs.Text.Bytes
import LoopNest.Proofs.Text.Quotations
import LoopNest.Proofs.Tir.Annotations
import LoopNest.Proofs.Tir.Cursors
import LoopNest.Proofs.Tir.Drafts
import LoopNest.Proofs.Tir.Grammar
import LoopNest.Proofs.Tir.Joining
import LoopNest.Proofs.Tir.Language
import LoopNest.Proofs.Tir.Layout
import LoopNest.Proofs.Tir.Lexemes
import LoopNest.Proofs.Tir.Lines
import LoopNest.Proofs.Tir.Listings
import LoopNest.Proofs.Tir.PlainTexts
import LoopNest.Proofs.Tir.Progress
import LoopNest.Proofs.Tir.ReadFunctions
import LoopNest.Proofs.Tir.ReadInstructions
import LoopNest.Proofs.Tir.Remainders
import LoopNest.Proofs.Tir.Resuming
import LoopNest.Proofs.Tir.RoundTrip
import LoopNest.Proofs.Tir.Rounds
import LoopNest.Proofs.Tir.Runs
import LoopNest.Proofs.Tir.Sessions
import LoopNest.Proofs.Tir.Spans
import LoopNest.Proofs.Tir.Turns
import LoopNest.Proofs.Tir.WellFormed
import LoopNest.Proofs.Tir.Writing
import LoopNest.Tir.Session
