import LoopAnalysis.Opinion.Basic
import LoopAnalysis.Classifier.Request

/-!
# Classifiers

A classifier answers questions about loops with raw text, after some time, or fails. It may change
with every call, so it is a pair of transitions on a state of its own.
-/

namespace LoopAnalysis

/-- What comes back from a call, and after how many milliseconds; the `body` is a text or an error.
-/
structure Reply where
  delayMs : Nat := 0
  body    : Except ClassifierError String

/-- A classifier with states in `σ`. -/
structure Classifier (σ : Type) where
  name     : String
  /-- Answers a question about one loop. -/
  ask      : ClassificationRequest → σ → Reply × σ
  /-- Answers for all candidates of a batch, in one text. -/
  askBatch : List Candidate → σ → Reply × σ

namespace Reply

/-- The text of a reply, unless it took longer than `timeoutMs` or failed. -/
def within (timeoutMs : Nat) (r : Reply) : Except ClassifierError String :=
  if timeoutMs < r.delayMs then .error (.timeout timeoutMs) else r.body

end Reply

end LoopAnalysis
