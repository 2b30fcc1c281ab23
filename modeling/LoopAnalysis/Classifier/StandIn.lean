import LoopAnalysis.Classifier.Basic
import LoopAnalysis.Json.Printer

/-!
# Classifiers without a service

Two classifiers for runs without a service: one answers by the label of the pattern, the other reads
its replies off a script.
-/

namespace LoopAnalysis

open Json

/-! ## §1 Answers by label -/

/-- A classifier with a fixed `Response` for each label. -/
structure StandIn where
  responses : List (String × Response)
  /-- The response for all labels without one in `responses`. -/
  fallback  : Response
  /-- A text that is sent instead of any response. -/
  raw       : Option String := none
  delayMs   : Nat := 1
  /-- Every call fails at once. -/
  failing   : Bool := false

namespace StandIn

/-- A `Response` without pattern and transformations. -/
def plainResponse (quality : String) (confidence : Float) (reasoning : String) : Response :=
  { quality := some quality, confidence := some confidence, reasoning := some reasoning }

/-- Responses for independent iterations, reductions and prefix sums. -/
def standard : StandIn where
  responses :=
    [("embarrassingly_parallel",
        { plainResponse "safe_parallel" 0.9 "Iterations are independent" with
          enhancedPattern := some "embarrassingly_parallel_verified"
          suggestedTransformations := ["#pragma omp parallel for"] }),
     ("reduction",
        { plainResponse "safe_parallel" 0.85 "Accumulator can be privatized" with
          enhancedPattern := some "reduction_safe"
          suggestedTransformations := ["#pragma omp parallel for reduction(+:sum)"] }),
     ("prefix_sum", plainResponse "not_parallel" 0.8 "Each element depends on the previous one")]
  fallback := plainResponse "requires_check" 0.5 "No scripted opinion for this pattern"

/-- Uses a `response` for a `label` from now on. -/
def withResponse (s : StandIn) (label : String) (response : Response) : StandIn :=
  { s with responses := (label, response) :: s.responses }

/-- The response for a label: the first one in `responses`, else the `fallback`. -/
def respond (s : StandIn) (label : String) : Response :=
  ((s.responses.find? (·.1 == label)).map (·.2)).getD s.fallback

/-- The reply with a text, or with `raw` in its place; the text is only written out if it is sent.
-/
def reply (s : StandIn) (text : Unit → String) : Reply :=
  if s.failing then { body := .error (.unreachable "Mock classifier configured to fail") }
  else { delayMs := s.delayMs, body := .ok (s.raw.getD (text ())) }

/-- The document in which `respond` answers for each candidate. -/
def batchDocument (s : StandIn) (candidates : List Candidate) : Json :=
  .obj (candidates.zipIdx.map fun (c, i) =>
    ("candidate_" ++ toString (i + 1), (s.respond c.candidateType).toJson))

/-- The classifier, which never changes. -/
def classifier (s : StandIn) (σ : Type) : Classifier σ where
  name := "mock-classifier"
  ask request state := (s.reply fun _ => (s.respond request.pattern).toJson.compact, state)
  askBatch candidates state := (s.reply fun _ => (s.batchDocument candidates).compact, state)

end StandIn

/-! ## §2 Replies off a script -/

namespace Script

/-- The next `Reply` of a script; past its end there is nobody to reach. -/
def next : List Reply → Reply × List Reply
  | [] => ({ body := .error (.unreachable "script exhausted") }, [])
  | r :: rest => (r, rest)

/-- The classifier whose state is the script that remains. -/
def classifier : Classifier (List Reply) where
  name := "scripted"
  ask _ script := next script
  askBatch _ script := next script

end Script

end LoopAnalysis
