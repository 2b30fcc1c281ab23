import LoopAnalysis.Report.Loop
import LoopAnalysis.Json.Printer

/-!
# The report on a function

The reports on all loops of a function, and how the classifier fared.
-/

namespace LoopAnalysis

open Json

/-- How the classifier fared. -/
structure ClassifierStatus where
  enabled     : Bool := false
  name        : Option String := none
  opinions    : Nat := 0
  unavailable : Nat := 0
deriving DecidableEq, Repr

/-- Writes a status. -/
def ClassifierStatus.toJson (s : ClassifierStatus) : Json :=
  .obj ([("enabled", .bool s.enabled)] ++ entryOf "name" .str s.name ++
    [("opinions", ofNat s.opinions), ("unavailable", ofNat s.unavailable)])

/-- The reports on the loops of a function, and the `ClassifierStatus`. -/
structure FunctionReport where
  loops      : List LoopReport := []
  classifier : ClassifierStatus := {}

namespace FunctionReport

/-- The patterns that occur, in the order of `PatternKind.all`, with the number of their loops. -/
def patternCounts (r : FunctionReport) : List (PatternKind × Nat) :=
  (PatternKind.all.map fun kind => (kind, (r.loops.filter (·.pattern == kind)).length)).filter
    (0 < ·.2)

/-- How many loops can be vectorized. -/
def vectorizableCount (r : FunctionReport) : Nat :=
  (r.loops.filter (·.vectorization.vectorizable)).length

/-- The loops for which `requiresReview` holds. -/
def requiringReview (r : FunctionReport) : List LoopReport := r.loops.filter (·.requiresReview)

/-- Writes a report. -/
def toJson (r : FunctionReport) : Json :=
  .obj [("loops", .arr (r.loops.map LoopReport.toJson)), ("classifier", r.classifier.toJson)]

/-- The report as indented text, by `pretty`. -/
def text (r : FunctionReport) : String := r.toJson.pretty 0

/-- The numbers of a report. -/
def summary (r : FunctionReport) : Json :=
  .obj [("len", ofNat r.loops.length), ("empty", .bool r.loops.isEmpty),
    ("counts", .obj (r.patternCounts.map fun (kind, n) => (kind.label, ofNat n))),
    ("vectorizable", ofNat r.vectorizableCount),
    ("review", .arr (r.requiringReview.map (·.header.toJson)))]

end FunctionReport

end LoopAnalysis
