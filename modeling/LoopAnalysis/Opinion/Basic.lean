import LoopAnalysis.Profile.Memory
import LoopAnalysis.Json.Decode

/-!
# Opinions from outside

What an external classifier may say about a loop: the response as it is written, the opinion that
is read from it, and the outcome of asking.
-/

namespace LoopAnalysis

open Json

/-! ## §1 Quality -/

/-- What a classifier holds of running a loop in parallel. -/
inductive Quality where
  | safeParallel
  | requiresCheck
  | notParallel
  | error
deriving DecidableEq, Repr

namespace Quality

/-- The spellings of a quality, compared by the characters that `isWordChar` accepts. -/
def spellings : List (String × Quality) :=
  [("safeparallel", .safeParallel), ("safe", .safeParallel), ("parallel", .safeParallel),
   ("requirescheck", .requiresCheck), ("requiresruntimecheck", .requiresCheck),
   ("needscheck", .requiresCheck),
   ("notparallel", .notParallel), ("unsafe", .notParallel), ("unsafeparallel", .notParallel)]

/-- A letter from `a` to `z` in either case, or a digit. -/
def isWordChar (c : Char) : Bool :=
  ('a' ≤ c && c ≤ 'z') || ('A' ≤ c && c ≤ 'Z') || ('0' ≤ c && c ≤ '9')

/-- The quality a label names by its `spellings`; a label that is missing or unknown is an `error`.
-/
def ofLabel (label : Option String) : Quality :=
  match label with
  | none => .error
  | some label =>
    let letters := String.ofList ((label.toList.filter isWordChar).map Text.lowerChar)
    ((spellings.find? (·.1 == letters)).map (·.2)).getD .error

/-- The label of a quality. -/
def label : Quality → String
  | .safeParallel => "safe_parallel"
  | .requiresCheck => "requires_check"
  | .notParallel => "not_parallel"
  | .error => "error"

/-- The written names of the qualities. -/
def names : List (String × Quality) :=
  [("SafeParallel", .safeParallel), ("RequiresCheck", .requiresCheck),
   ("NotParallel", .notParallel), ("Error", .error)]

/-- The written name of a quality, from `names`. -/
def name (q : Quality) : String := ((names.find? (·.2 == q)).map (·.1)).getD ""

end Quality

/-! ## §2 Responses and opinions -/

/-- A response as it is written; every part may be missing. -/
structure Response where
  enhancedPattern          : Option String := none
  quality                  : Option String := none
  confidence               : Option Float := none
  reasoning                : Option String := none
  suggestedTransformations : List String := []

namespace Response

/-- The parts of a `Response` under all the names they go by. -/
def fields : List Field :=
  [⟨"enhancedPattern", ["enhanced_pattern"]⟩, ⟨"quality", ["classification"]⟩, ⟨"confidence", []⟩,
   ⟨"reasoning", []⟩,
   ⟨"suggestedTransformations",
     ["transformations", "code_transformations", "suggested_transformations"]⟩]

/-- Reads a response, whose parts may go by any of the names in `fields`. -/
def ofJson? (j : Json) : Option Response := do
  let r ← record? fields j
  return { enhancedPattern := ← r.defaulted "enhancedPattern" (option? text?) none
           quality := ← r.defaulted "quality" (option? text?) none
           confidence := ← r.defaulted "confidence" (option? number?) none
           reasoning := ← r.defaulted "reasoning" (option? text?) none
           suggestedTransformations := ← r.defaulted "suggestedTransformations" (list? text?) [] }

/-- Writes a response for `ofJson?`. -/
def toJson (r : Response) : Json :=
  .obj [("enhancedPattern", ofOption .str r.enhancedPattern), ("quality", ofOption .str r.quality),
    ("confidence", ofOption .float r.confidence), ("reasoning", ofOption .str r.reasoning),
    ("suggestedTransformations", ofTexts r.suggestedTransformations)]

end Response

/-- What a classifier holds of a loop, once its `Response` has been read. -/
structure Opinion where
  enhancedPattern          : Option String
  quality                  : Quality
  confidence               : Float
  reasoning                : String
  suggestedTransformations : List String

namespace Opinion

/-- A confidence between zero and one; one that is missing or makes no sense is zero. -/
def settleConfidence : Option Float → Float
  | none => 0.0
  | some c =>
    if c.isFinite then clampFloat 0.0 1.0 c
    else if c == 1.0 / 0.0 then 1.0
    else 0.0

/-- The opinion that a response expresses, with its `Quality.ofLabel` and `settleConfidence`. -/
def ofResponse (r : Response) : Opinion :=
  { enhancedPattern := r.enhancedPattern.filter fun p => !(Text.trim p).isEmpty
    quality := .ofLabel r.quality
    confidence := settleConfidence r.confidence
    reasoning := r.reasoning.getD ""
    suggestedTransformations := r.suggestedTransformations }

/-- Reads an opinion from the object that `toJson` writes. -/
def ofJson? (j : Json) : Option Opinion := do
  let r ← record? ["enhanced_pattern", "quality", "confidence", "reasoning",
    "suggested_transformations"] j
  return { enhancedPattern := ← r.optional "enhanced_pattern" text?
           quality := ← r.required "quality" (choice? Quality.names)
           confidence := ← r.required "confidence" number?
           reasoning := ← r.required "reasoning" text?
           suggestedTransformations := ← r.required "suggested_transformations" (list? text?) }

/-- Writes an opinion. -/
def toJson (o : Opinion) : Json :=
  .obj [("enhanced_pattern", ofOption .str o.enhancedPattern), ("quality", .str o.quality.name),
    ("confidence", .float o.confidence), ("reasoning", .str o.reasoning),
    ("suggested_transformations", ofTexts o.suggestedTransformations)]

end Opinion

/-! ## §3 Outcomes -/

/-- Why there is no opinion. -/
inductive Unavailable where
  | notConfigured
  | unreachable
  | malformed
  | timeout
  | rejected
deriving DecidableEq, Repr

namespace Unavailable

/-- The written names of the reasons. -/
def names : List (String × Unavailable) :=
  [("not_configured", .notConfigured), ("unreachable", .unreachable), ("malformed", .malformed),
   ("timeout", .timeout), ("rejected", .rejected)]

/-- The written name of a reason, from `names`. -/
def name (u : Unavailable) : String := ((names.find? (·.2 == u)).map (·.1)).getD ""

/-- The reason in words. -/
def text : Unavailable → String
  | .notConfigured => "not configured"
  | .unreachable => "unreachable"
  | .malformed => "malformed response"
  | .timeout => "timeout"
  | .rejected => "rejected"

end Unavailable

/-- The outcome of asking a classifier: an `Opinion`, or the reason why there is none. -/
inductive Outcome where
  | opinion (o : Opinion)
  | unavailable (reason : Unavailable)

namespace Outcome

/-- The `Opinion`, if there is one. -/
def opinion? : Outcome → Option Opinion
  | .opinion o => some o
  | .unavailable _ => none

/-- Writes an outcome. -/
def toJson : Outcome → Json
  | .opinion o => .obj [("opinion", o.toJson)]
  | .unavailable reason => .obj [("unavailable", .str reason.name)]

end Outcome

/-- What can go wrong when a `Classifier` is asked. -/
inductive ClassifierError where
  | notConfigured
  | unreachable (detail : String)
  | malformed
  | timeout (ms : Nat)
  | api (detail : String)
  | reported (detail : String)
deriving DecidableEq, Repr

namespace ClassifierError

/-- The reason that a failure comes down to in an `Outcome`. -/
def reason : ClassifierError → Unavailable
  | .notConfigured => .notConfigured
  | .unreachable _ => .unreachable
  | .api _ => .unreachable
  | .malformed => .malformed
  | .timeout _ => .timeout
  | .reported _ => .rejected

/-- The failure in words. -/
def message : ClassifierError → String
  | .notConfigured => "external classifier is not configured"
  | .unreachable detail => "external classifier unreachable: " ++ detail
  | .malformed => "malformed classifier response"
  | .timeout ms => "classifier timed out after " ++ toString ms ++ " ms"
  | .api detail => "classifier API error: " ++ detail
  | .reported detail => "classifier reported an error: " ++ detail

end ClassifierError

end LoopAnalysis
