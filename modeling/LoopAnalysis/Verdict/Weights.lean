import LoopAnalysis.Profile.Memory
import LoopAnalysis.Decimal.Layout
import LoopAnalysis.Json.Decode

/-!
# Weights

How static and external confidence are blended, and when they are too far apart.
-/

namespace LoopAnalysis

open Json

/-- The weights of the two confidences and the gap that calls for a review, as `balanced` has them
unless others are given. -/
structure Weights where
  staticWeight          : Float := 0.6
  externalWeight        : Float := 0.4
  disagreementThreshold : Float := 0.3

/-- Why weights are refused. -/
inductive WeightsError where
  | outsideUnit (staticWeight externalWeight : Float)
  | wrongSum (sum : Float)
  | thresholdOutsideUnit (threshold : Float)

/-- The refusal in words. -/
def WeightsError.text : WeightsError → String
  | .outsideUnit s e =>
    "weights must lie in [0, 1], got " ++ Decimal.plain.write s ++ " and " ++ Decimal.plain.write e
  | .wrongSum sum => "weights must sum to 1, got " ++ Decimal.plain.write sum
  | .thresholdOutsideUnit t =>
    "disagreement threshold must lie in [0, 1], got " ++ Decimal.plain.write t

namespace Weights

/-- The weights in use when none are given. -/
def balanced : Weights := {}

/-- Weights that trust the static analyses more. -/
def performanceOptimized : Weights := ⟨0.8, 0.2, 0.4⟩

/-- Weights that trust both sides alike. -/
def accuracyOptimized : Weights := ⟨0.5, 0.5, 0.2⟩

/-- Between zero and one. -/
def inUnit (x : Float) : Bool := 0.0 ≤ x && x ≤ 1.0

/-- The `WeightsError` for which weights are refused, if they are. -/
def problem? (w : Weights) : Option WeightsError :=
  if !inUnit w.staticWeight || !inUnit w.externalWeight then
    some (.outsideUnit w.staticWeight w.externalWeight)
  else if (w.staticWeight + w.externalWeight - 1.0).abs > 1e-6 then
    some (.wrongSum (w.staticWeight + w.externalWeight))
  else if !inUnit w.disagreementThreshold then some (.thresholdOutsideUnit w.disagreementThreshold)
  else none

/-- The blend of two confidences, kept within bounds by `clampFloat`. -/
def combine (w : Weights) (staticConfidence externalConfidence : Float) : Float :=
  clampFloat 0.0 1.0 (w.staticWeight * staticConfidence + w.externalWeight * externalConfidence)

/-- Whether two confidences are further apart than the `disagreementThreshold`. -/
def disagree (w : Weights) (staticConfidence externalConfidence : Float) : Bool :=
  (staticConfidence - externalConfidence).abs > w.disagreementThreshold

/-- Reads weights; those that are left out are those of `balanced`. -/
def ofJson? (j : Json) : Option Weights := do
  let r ← record? ["static_weight", "external_weight", "disagreement_threshold"] j
  return { staticWeight := ← r.defaulted "static_weight" number? balanced.staticWeight
           externalWeight := ← r.defaulted "external_weight" number? balanced.externalWeight
           disagreementThreshold :=
             ← r.defaulted "disagreement_threshold" number? balanced.disagreementThreshold }

/-- Writes weights. -/
def toJson (w : Weights) : Json :=
  .obj [("static_weight", .float w.staticWeight), ("external_weight", .float w.externalWeight),
    ("disagreement_threshold", .float w.disagreementThreshold)]

end Weights

end LoopAnalysis
