import LoopAnalysis.Verdict.Suggestion
import LoopAnalysis.Verdict.Weights
import LoopAnalysis.Opinion.Signature
import LoopAnalysis.Opinion.Basic

/-!
# Verdicts

Joins what the static analyses say of a loop with an opinion from outside. The opinion never
changes the pattern or the safety class; it can move the confidence, add transformations, and call
for a review or a check.
-/

namespace LoopAnalysis

open Json

/-! ## §1 Safety -/

/-- What the static analyses are prepared to say of a loop. -/
inductive SafetyClass where
  | vectorizable
  | parallel
  | privatizable
  | hazardous
deriving DecidableEq, Repr

namespace SafetyClass

/-- The class of a loop, by its `VectorizationVerdict` first and its `DependenceProfile` next. -/
def of (dep : DependenceProfile) (v : VectorizationVerdict) : SafetyClass :=
  if v.vectorizable then .vectorizable
  else if dep.kind.isSafe then .parallel
  else if dep.eliminable then .privatizable
  else .hazardous

/-- Any class but `hazardous`. -/
def isSafe (s : SafetyClass) : Bool := s != .hazardous

/-- The written name of a class. -/
def name : SafetyClass → String
  | .vectorizable => "vectorizable"
  | .parallel => "parallel"
  | .privatizable => "privatizable"
  | .hazardous => "unsafe"

/-- The class in words. -/
def text : SafetyClass → String
  | .vectorizable => "vectorizable"
  | .parallel => "parallel"
  | .privatizable => "parallel after privatization"
  | .hazardous => "unsafe"

/-- What to do with a loop of a class. -/
def strategy : SafetyClass → String
  | .vectorizable => "Parallelize and vectorize"
  | .parallel => "Parallelize across threads"
  | .privatizable => "Parallelize with a reduction clause"
  | .hazardous => "Do not transform without manual verification"

/-- The risk of transforming a loop of a class. -/
def risk (s : SafetyClass) (dep : DependenceProfile) (v : VectorizationVerdict) : String :=
  match s with
  | .vectorizable =>
    if dep.eliminable then
      "Low risk: vectorizable at width " ++ toString v.recommendedWidth ++
        " once the accumulator is privatized"
    else "Low risk: independent iterations, vectorizable at width " ++ toString v.recommendedWidth
  | .parallel =>
    "Low risk: no loop-carried dependencies; not vectorizable (" ++ v.limitations ++ ")"
  | .privatizable =>
    let variableName := (dep.accumulator?.map (·.variableName)).getD "accumulator"
    "Moderate risk: loop-carried " ++ variableName ++ " must be privatized"
  | .hazardous =>
    "High risk: " ++ dep.kind.text ++ " dependency" ++
      (if dep.kind != .complexFlow && 0 < dep.distance then
        " at distance " ++ toString dep.distance else "") ++
      (if dep.dependentVariables.isEmpty then ""
        else " on " ++ Text.join ", " dep.dependentVariables)

end SafetyClass

/-! ## §2 Verdicts -/

/-- Where a verdict comes from. -/
inductive VerdictSource where
  | staticOnly
  | hybrid
deriving DecidableEq, Repr

/-- The final word on a loop. -/
structure Verdict where
  pattern             : PatternKind
  staticConfidence    : Float
  combinedConfidence  : Float
  externalConfidence  : Option Float
  externalQuality     : Option Quality
  unavailable         : Option Unavailable
  safety              : SafetyClass
  requiresHumanReview : Bool
  conflict            : Bool
  riskAssessment      : String
  strategy            : String
  transformations     : List String
  source              : VerdictSource

namespace Verdict

/-- Marks every transformation with `Suggestion.mark`, if they are to be verified. -/
def annotate (verify : Bool) (transformations : List String) : List String :=
  if verify then transformations.map Suggestion.mark else transformations

/-- Adds a suggestion from outside after `Text.trim`, unless it is blank or already there. -/
def addSuggestion (transformations : List String) (suggestion : String) : List String :=
  let trimmed := Text.trim suggestion
  if trimmed.isEmpty || transformations.contains trimmed then transformations
  else transformations ++ [trimmed]

/-- Adds the suggestions of an opinion with `addSuggestion`, one by one. -/
def addSuggestions (transformations : List String) (suggestions : List String) : List String :=
  suggestions.foldl addSuggestion transformations

/-- Whether the two sides contradict each other about safety: `notParallel` for a safe loop, or
`safeParallel` for a hazardous one. -/
def contradicts (s : SafetyClass) (q : Quality) : Bool :=
  match q with
  | .notParallel => s.isSafe
  | .safeParallel => s == .hazardous
  | _ => false

/-- The remark on a label from outside for which `Signatures.lookup` finds another pattern. -/
def labelRemark (signatures : Signatures) (kind : PatternKind) (label : String) : List String :=
  match signatures.lookup label with
  | some other =>
    if other != .unknown && other != kind then
      ["external label '" ++ label ++ "' suggests " ++ other.label ++ " instead of " ++ kind.label]
    else []
  | none => []

/-- The verdict on static grounds alone, with the `risk` and the `strategy` of the safety class. -/
def staticOnly (c : PatternClassification) (confidence : Float) (v : VectorizationVerdict)
    (dep : DependenceProfile) (unavailable : Option Unavailable) : Verdict :=
  let safety := SafetyClass.of dep v
  let remark :=
    match unavailable with
    | some reason => "; external classifier unavailable (" ++ reason.text ++ ")"
    | none => ""
  { pattern := c.kind
    staticConfidence := confidence
    combinedConfidence := confidence
    externalConfidence := none
    externalQuality := none
    unavailable
    safety
    requiresHumanReview := false
    conflict := false
    riskAssessment := safety.risk dep v ++ remark
    strategy := safety.strategy
    transformations := annotate (safety == .hazardous) (Suggestion.suggest c v)
    source := .staticOnly }

/-- The verdict that takes an opinion into account. Its suggestions are added by `addSuggestions`
unless it `contradicts` the safety class. -/
def merge (weights : Weights) (signatures : Signatures) (c : PatternClassification)
    (confidence : Float) (v : VectorizationVerdict) (dep : DependenceProfile) (o : Opinion) :
    Verdict :=
  let safety := SafetyClass.of dep v
  let external := clampFloat 0.0 1.0 o.confidence
  let review := weights.disagree confidence external
  let conflict := contradicts safety o.quality
  let caution := o.quality == .requiresCheck
  let objection :=
    if conflict then
      ["conflict: static analysis says " ++ safety.text ++ " but the external classifier says " ++
        o.quality.label]
    else if caution then ["external classifier requests a runtime check"]
    else []
  let gap :=
    if review then
      ["confidence gap " ++ Decimal.fixed 2 (confidence - external).abs ++ " exceeds " ++
        Decimal.fixed 2 weights.disagreementThreshold]
    else []
  let label :=
    match o.enhancedPattern with
    | some l => labelRemark signatures c.kind l
    | none => []
  let reasoning := if o.reasoning.isEmpty then [] else ["external reasoning: " ++ o.reasoning]
  let suggestions := Suggestion.suggest c v
  { pattern := c.kind
    staticConfidence := confidence
    combinedConfidence := weights.combine confidence external
    externalConfidence := some external
    externalQuality := some o.quality
    unavailable := none
    safety
    requiresHumanReview := review
    conflict
    riskAssessment := Text.join "; " (safety.risk dep v :: objection ++ gap ++ label ++ reasoning)
    strategy :=
      if conflict then "Keep the loop sequential until the conflicting verdicts are resolved"
      else if review then "Apply only after human review of the confidence gap"
      else if caution then "Apply behind a runtime check"
      else safety.strategy
    transformations := annotate (conflict || caution || safety == .hazardous)
      (if conflict then suggestions else addSuggestions suggestions o.suggestedTransformations)
    source := .hybrid }

/-- The verdict on a loop, given the outcome of asking a classifier: `merge` for an opinion,
`staticOnly` otherwise. -/
def combine (weights : Weights) (signatures : Signatures) (c : PatternClassification)
    (confidence : Float) (v : VectorizationVerdict) (dep : DependenceProfile)
    (outcome : Option Outcome) : Verdict :=
  let confidence := clampFloat 0.0 1.0 confidence
  match outcome with
  | some (.opinion o) => merge weights signatures c confidence v dep o
  | some (.unavailable reason) => staticOnly c confidence v dep (some reason)
  | none => staticOnly c confidence v dep none

/-- Writes a verdict; absent parts are left out. -/
def toJson (v : Verdict) : Json :=
  .obj ([("pattern", v.pattern.toJson), ("static_confidence", .float v.staticConfidence),
      ("combined_confidence", .float v.combinedConfidence)] ++
    entryOf "external_confidence" .float v.externalConfidence ++
    entryOf "external_quality" (fun q => .str q.name) v.externalQuality ++
    entryOf "unavailable" (fun u => .str u.name) v.unavailable ++
    [("safety", .str v.safety.name), ("requires_human_review", .bool v.requiresHumanReview),
      ("conflict", .bool v.conflict), ("risk_assessment", .str v.riskAssessment),
      ("strategy", .str v.strategy), ("transformations", ofTexts v.transformations),
      ("source", .str (match v.source with | .staticOnly => "static_only" | .hybrid => "hybrid"))])

end Verdict

end LoopAnalysis
