import LoopAnalysis.Verdict.Combine
import LoopAnalysis.Verdict.Confidence
import LoopAnalysis.Profile.Context
import LoopAnalysis.Program.Codec
import LoopAnalysis.Classifier.Request

/-!
# The report on a loop

What the static analyses find out about a loop does not depend on any opinion from outside; the
report adds the verdict to it.
-/

namespace LoopAnalysis

open Json

/-! ## §1 Facts -/

/-- What the static analyses find out about a loop, whatever the `Outcome` of asking a classifier.
-/
structure LoopFacts where
  function       : String
  file           : Option String
  line           : Option Nat
  header         : BlockId
  nesting        : NestPosition
  memory         : MemoryProfile
  dependence     : DependenceProfile
  vectorization  : VectorizationVerdict
  classification : PatternClassification
  confidence     : ConfidenceScore

namespace LoopFacts

/-- The facts about a loop: its `Scene`, with its label from a matcher. -/
def of (m : Matcher) (lp : Loop) : LoopFacts :=
  let scene := Scene.of lp
  let classification := m.classify scene
  { function := lp.functionName
    file := lp.location.bind (·.file)
    line := lp.location.map (·.line)
    header := lp.header
    nesting := scene.nesting
    memory := scene.memory
    dependence := scene.dependence
    vectorization := scene.vectorization
    classification
    confidence := .explain classification.kind scene.memory scene.dependence }

/-- The question about a loop that is put to a classifier, with `LoopContext.describe` for its
context. -/
def request (facts : LoopFacts) (lp : Loop) : ClassificationRequest :=
  { pattern := facts.classification.kind.label
    context := LoopContext.describe lp
    function := facts.function }

/-- The loop as one `Candidate` of many that are put to a classifier. -/
def candidate (facts : LoopFacts) : Candidate :=
  { candidateType := facts.classification.kind.label
    file := facts.file.getD ""
    function := facts.function
    line := facts.line.getD 0
    reason := Suggestion.annotation facts.classification.kind
    suggestedPatch := (Suggestion.suggest facts.classification facts.vectorization).headD "" }

end LoopFacts

/-! ## §2 Reports -/

/-- Everything known about a loop. -/
structure LoopReport extends LoopFacts where
  verdict    : Verdict
  annotation : String

namespace LoopReport

/-- The label of the loop. -/
def pattern (r : LoopReport) : PatternKind := r.classification.kind

/-- Somebody has to look at the loop: the verdict has `requiresHumanReview` or a `conflict`. -/
def requiresReview (r : LoopReport) : Bool := r.verdict.requiresHumanReview || r.verdict.conflict

/-- Writes a report; absent parts are left out. -/
def toJson (r : LoopReport) : Json :=
  .obj ([("function", .str r.function)] ++ entryOf "file" .str r.file ++
    entryOf "line" ofNat r.line ++
    [("header", r.header.toJson), ("nesting", r.nesting.toJson), ("memory", r.memory.toJson),
      ("dependency", r.dependence.toJson), ("vectorization", r.vectorization.toJson),
      ("classification", r.classification.toJson), ("confidence", r.confidence.toJson),
      ("verdict", r.verdict.toJson), ("annotation", .str r.annotation)])

/-- The main points of a report. -/
def digest (r : LoopReport) : Json :=
  .obj [("function", .str r.function), ("header", r.header.toJson), ("kind", r.pattern.toJson),
    ("score", .float r.confidence.score), ("verdict", r.verdict.toJson),
    ("review", .bool r.requiresReview),
    ("transformations", ofNat r.verdict.transformations.length)]

end LoopReport

/-! ## §3 From loops to reports -/

/-- What reports depend on besides the loop: how labels are found, and how opinions are weighed and
understood. -/
structure Analyzer where
  matcher    : Matcher
  weights    : Weights := .balanced
  signatures : Signatures := .builtin

namespace Analyzer

/-- The facts about a loop. -/
def facts (a : Analyzer) (lp : Loop) : LoopFacts := .of a.matcher lp

/-- The report for given facts and the outcome of asking a classifier, if it was asked; the outcome
goes into `Verdict.combine` only. -/
def finish (a : Analyzer) (facts : LoopFacts) (outcome : Option Outcome) : LoopReport :=
  { facts with
    verdict := .combine a.weights a.signatures facts.classification facts.confidence.score
      facts.vectorization facts.dependence outcome
    annotation := Suggestion.annotation facts.classification.kind }

/-- The report on static grounds alone: `finish` without an outcome. -/
def analyze (a : Analyzer) (lp : Loop) : LoopReport := a.finish (a.facts lp) none

end Analyzer

end LoopAnalysis
