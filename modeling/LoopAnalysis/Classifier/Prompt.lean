import LoopAnalysis.Classifier.Request
import LoopAnalysis.Text.Basic

/-!
# Prompts

The wording in which loops are put to a language model.
-/

namespace LoopAnalysis.Prompt

/-- The general instructions, in front of a `single` or `batch` prompt. -/
def system : String :=
  "You review loops that a static analyzer proposes for parallelization. Answer with a single " ++
  "JSON object and nothing else. Use the quality labels safe_parallel, requires_check or " ++
  "not_parallel. Report confidence as a number between 0 and 1. Prefer requires_check over " ++
  "safe_parallel whenever a loop-carried dependency, aliasing or an impure call cannot be ruled " ++
  "out."

/-- The shape that a response is to have, as `Response.ofJson?` reads it. -/
def responseShape : String :=
  "\x7b\"enhancedPattern\": \"<label>\", \"quality\": \"<label>\", \"confidence\": 0.0, " ++
  "\"reasoning\": \"<text>\", \"suggestedTransformations\": [\"<pragma>\"]\x7d"

/-- The prompt about one loop, with the `responseShape` at its end. -/
def single (r : ClassificationRequest) : String :=
  "Function: " ++ r.function ++ "\nStatic pattern: " ++ r.pattern ++
  "\nLoop context:\n" ++ r.context ++
  "\n\nRespond with JSON shaped as:\n" ++ responseShape

/-- A text on one line, with bars for line breaks. -/
def onOneLine (text : String) : String :=
  String.join (text.toList.map fun c => if c == '\n' then " | " else c.toString)

/-- The paragraph about the `Candidate` with a number, whose patch stands `onOneLine`. -/
def candidate (number : Nat) (c : Candidate) : String :=
  "candidate_" ++ toString number ++ ": " ++ c.candidateType ++ " in " ++ c.file ++ ":" ++
  toString c.line ++ " (" ++ c.function ++ ")\n  reason: " ++ c.reason ++ "\n  proposed: " ++
  onOneLine c.suggestedPatch ++ "\n"

/-- The prompt about a batch of loops, each under the key that `parseBatch` looks for. -/
def batch (candidates : List Candidate) : String :=
  "Classify each of the following " ++ toString candidates.length ++ " loop candidates.\n\n" ++
  String.join (candidates.zipIdx.map fun (c, i) => candidate (i + 1) c) ++
  "\nRespond with one JSON object keyed candidate_1..candidate_" ++ toString candidates.length ++
  ", each value shaped as:\n" ++ responseShape

end LoopAnalysis.Prompt
