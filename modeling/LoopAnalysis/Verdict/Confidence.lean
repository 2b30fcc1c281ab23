import LoopAnalysis.Pattern.Kind
import LoopAnalysis.Profile.Memory
import LoopAnalysis.Profile.Dependence
import LoopAnalysis.Json.Decode

/-!
# Confidence

How far the label of a loop is trusted on static grounds: a half to start with, more for sequential
memory access, less for complex dependence flow.
-/

namespace LoopAnalysis

/-- What raises or lowers confidence. -/
inductive ConfidenceFactor where
  | sequentialAccess
  | complexDependencyFlow
deriving DecidableEq, Repr

namespace ConfidenceFactor

/-- The written name of a factor. -/
def name : ConfidenceFactor → String
  | .sequentialAccess => "SequentialAccess"
  | .complexDependencyFlow => "ComplexDependencyFlow"

/-- The factor in words. -/
def text : ConfidenceFactor → String
  | .sequentialAccess => "sequential memory access"
  | .complexDependencyFlow => "complex dependency flow"

end ConfidenceFactor

/-- A score between zero and one with the `ConfidenceFactor`s for and against. -/
structure ConfidenceScore where
  score           : Float
  positiveFactors : List ConfidenceFactor
  negativeFactors : List ConfidenceFactor
  explanation     : String

namespace ConfidenceScore

/-- A score in one word: `High`, `Medium` or `Low`. -/
def level (score : Float) : String :=
  if score ≥ 0.8 then "High" else if score ≥ 0.5 then "Medium" else "Low"

/-- The confidence in a label, given the profiles of the loop; in words it begins with its `level`.
-/
def explain (pattern : PatternKind) (mem : MemoryProfile) (dep : DependenceProfile) :
    ConfidenceScore :=
  let sequential := mem.primaryPattern == .sequential
  let complex := dep.kind == .complexFlow
  let raised : Float := if sequential then 0.5 + 0.3 else 0.5
  let lowered : Float := if complex then raised - 0.2 else raised
  let score := clampFloat 0.0 1.0 lowered
  let positiveFactors := if sequential then [.sequentialAccess] else []
  let negativeFactors := if complex then [.complexDependencyFlow] else []
  let headline :=
    level score ++ " confidence (" ++ Decimal.fixed 2 score ++ ") for " ++ pattern.label
  { score, positiveFactors, negativeFactors
    explanation := Text.join "; "
      (headline :: (positiveFactors ++ negativeFactors).map ConfidenceFactor.text) }

/-- Writes a score. -/
def toJson (c : ConfidenceScore) : Json :=
  .obj [("score", .float c.score),
    ("positive_factors", Json.ofTexts (c.positiveFactors.map (·.name))),
    ("negative_factors", Json.ofTexts (c.negativeFactors.map (·.name))),
    ("explanation", .str c.explanation)]

end ConfidenceScore

end LoopAnalysis
