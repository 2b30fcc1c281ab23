import LoopAnalysis.Word
import LoopAnalysis.Text.Basic
import LoopAnalysis.Decimal.Layout
import LoopAnalysis.Json.Parser
import LoopAnalysis.Json.Printer
import LoopAnalysis.Json.Decode
import LoopAnalysis.Program.Instruction
import LoopAnalysis.Program.Function
import LoopAnalysis.Program.Loop
import LoopAnalysis.Program.Nest
import LoopAnalysis.Program.Builder
import LoopAnalysis.Program.Script
import LoopAnalysis.Program.Codec
import LoopAnalysis.Access.Affine
import LoopAnalysis.Access.Render
import LoopAnalysis.Access.Slice
import LoopAnalysis.Access.Site
import LoopAnalysis.Access.Recurrence
import LoopAnalysis.Profile.Nesting
import LoopAnalysis.Profile.Memory
import LoopAnalysis.Profile.Dependence
import LoopAnalysis.Profile.Vectorization
import LoopAnalysis.Pattern.Kind
import LoopAnalysis.Pattern.Evidence
import LoopAnalysis.Pattern.Scene
import LoopAnalysis.Pattern.Stencil
import LoopAnalysis.Pattern.Recognizer
import LoopAnalysis.Pattern.Policy
import LoopAnalysis.Pattern.Links
import LoopAnalysis.Profile.Context
import LoopAnalysis.Profile.Codec
import LoopAnalysis.Pattern.Codec
import LoopAnalysis.Inspect.Query
import LoopAnalysis.Inspect.Loop
import LoopAnalysis.Inspect.Function
import LoopAnalysis.Verdict.Confidence
import LoopAnalysis.Verdict.Suggestion
import LoopAnalysis.Opinion.Basic
import LoopAnalysis.Opinion.Reading
import LoopAnalysis.Opinion.Signature
import LoopAnalysis.Verdict.Weights
import LoopAnalysis.Verdict.Combine
import LoopAnalysis.Classifier.Request
import LoopAnalysis.Classifier.Settings
import LoopAnalysis.Classifier.Cache
import LoopAnalysis.Classifier.Basic
import LoopAnalysis.Classifier.StandIn
import LoopAnalysis.Classifier.Adapter
import LoopAnalysis.Classifier.Prompt
import LoopAnalysis.Decimal.Nearest
import LoopAnalysis.Yaml.Cursor
import LoopAnalysis.Yaml.Scalar
import LoopAnalysis.Yaml.Block
import LoopAnalysis.Yaml.Tag
import LoopAnalysis.Yaml.Token
import LoopAnalysis.Yaml.Basic
import LoopAnalysis.Yaml.Parser
import LoopAnalysis.Yaml.Plain
import LoopAnalysis.Yaml.Shape
import LoopAnalysis.Yaml.Printer
import LoopAnalysis.Report.Loop
import LoopAnalysis.Report.Function
import LoopAnalysis.Config
import LoopAnalysis.Engine
import LoopAnalysis.Inspect.Catalogue
import LoopAnalysis.Proofs.Access.Valuation
import LoopAnalysis.Proofs.Access.Site
import LoopAnalysis.Proofs.Access.Base
import LoopAnalysis.Proofs.Access.Slice
import LoopAnalysis.Proofs.Access.BoundedSlice
import LoopAnalysis.Proofs.Access.Formula
import LoopAnalysis.Proofs.Dependence.Relation
import LoopAnalysis.Proofs.Dependence.Findings
import LoopAnalysis.Proofs.Dependence.Independence
import LoopAnalysis.Proofs.Program.Operand
import LoopAnalysis.Proofs.Program.Straight
import LoopAnalysis.Proofs.Program.Execution
import LoopAnalysis.Proofs.Program.Confinement
import LoopAnalysis.Proofs.Program.SingleAssignment
import LoopAnalysis.Proofs.Access.Grouping
import LoopAnalysis.Proofs.Program.Rounds
import LoopAnalysis.Proofs.Recurrence.Matching
import LoopAnalysis.Proofs.Recurrence.Observers
import LoopAnalysis.Proofs.Recurrence.MemoryTotals
import LoopAnalysis.Proofs.Recurrence.Folding
import LoopAnalysis.Proofs.Recurrence.Eliminable
import LoopAnalysis.Proofs.Dependence.RecordedTotals
import LoopAnalysis.Proofs.Dependence.DerivedPointers
import LoopAnalysis.Proofs.Pattern.Evidence
import LoopAnalysis.Proofs.Profile.Vectorization
import LoopAnalysis.Proofs.Profile.Vectorizable
import LoopAnalysis.Proofs.Text.Occurrence
import LoopAnalysis.Proofs.Text.Trimming
import LoopAnalysis.Proofs.Verdict.Directives
import LoopAnalysis.Proofs.Verdict.Privatization
import LoopAnalysis.Proofs.Profile.UnresolvedIndices
import LoopAnalysis.Proofs.Verdict.Caution
import LoopAnalysis.Proofs.Verdict.Distinctness
import LoopAnalysis.Proofs.Opinion.Entries
import LoopAnalysis.Proofs.Classifier.Batches
import LoopAnalysis.Proofs.Classifier.Recall
import LoopAnalysis.Proofs.Json.Lexemes
import LoopAnalysis.Proofs.Json.Grammar
import LoopAnalysis.Proofs.Json.Extent
import LoopAnalysis.Proofs.Json.Plain
import LoopAnalysis.Proofs.Opinion.Documents
import LoopAnalysis.Proofs.Opinion.Fences
import LoopAnalysis.Proofs.Opinion.Agreement
import LoopAnalysis.Proofs.Engine.Fallback
import LoopAnalysis.Proofs.Engine.Grouping
import LoopAnalysis.Proofs.Verdict.Collapse
import LoopAnalysis.Proofs.Verdict.Wording
import LoopAnalysis.Proofs.Program.Links
import LoopAnalysis.Proofs.Program.Forest
import LoopAnalysis.Proofs.Program.Building
import LoopAnalysis.Proofs.Dependence.Exactness
import LoopAnalysis.Proofs.Pattern.FirstMatch
import LoopAnalysis.Proofs.Program.Bodies
import LoopAnalysis.Proofs.Access.IndexTerms
import LoopAnalysis.Proofs.Recurrence.Operators
import LoopAnalysis.Proofs.Dependence.Consistency
import LoopAnalysis.Proofs.Pattern.PrefixSums
import LoopAnalysis.Proofs.Profile.Nesting
import LoopAnalysis.Proofs.Profile.TwoLevelNests
import LoopAnalysis.Proofs.Pattern.Neighbourhood
import LoopAnalysis.Proofs.Pattern.Refinement
import LoopAnalysis.Proofs.Pattern.FarReads
import LoopAnalysis.Proofs.Opinion.Signatures
import LoopAnalysis.Proofs.Access.Views
