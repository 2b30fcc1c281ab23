import LoopAnalysis.Json.Decode

/-!
# What a classifier is asked

A request is about one loop in full; a candidate is the short form in which many loops are sent
together.
-/

namespace LoopAnalysis

open Json

/-- A question about one loop. -/
structure ClassificationRequest where
  /-- The label of the pattern found by the static analyses. -/
  pattern  : String
  /-- The loop as it is described to others. -/
  context  : String
  function : String
deriving DecidableEq, Repr

namespace ClassificationRequest

/-- Reads a request from the object that `toJson` writes. -/
def ofJson? (j : Json) : Option ClassificationRequest := do
  let r ← record? ["pattern", "context", "function"] j
  return { pattern := ← r.required "pattern" text?
           context := ← r.required "context" text?
           function := ← r.required "function" text? }

/-- Writes a request. -/
def toJson (r : ClassificationRequest) : Json :=
  .obj [("pattern", .str r.pattern), ("context", .str r.context), ("function", .str r.function)]

end ClassificationRequest

/-- One loop of a batch. -/
structure Candidate where
  /-- The label of the pattern found by the static analyses. -/
  candidateType  : String
  /-- Empty where the file is not known. -/
  file           : String
  function       : String
  /-- Zero where the line is not known. -/
  line           : Nat
  reason         : String
  /-- The primary transformation. -/
  suggestedPatch : String
deriving DecidableEq, Repr

namespace Candidate

/-- Reads a candidate from the object that `toJson` writes. -/
def ofJson? (j : Json) : Option Candidate := do
  let r ← record? ["candidateType", "file", "function", "line", "reason", "suggestedPatch"] j
  return { candidateType := ← r.required "candidateType" text?
           file := ← r.required "file" text?
           function := ← r.required "function" text?
           line := ← r.required "line" (nat? 32)
           reason := ← r.required "reason" text?
           suggestedPatch := ← r.required "suggestedPatch" text? }

/-- Writes a candidate. -/
def toJson (c : Candidate) : Json :=
  .obj [("candidateType", .str c.candidateType), ("file", .str c.file),
    ("function", .str c.function), ("line", ofNat c.line), ("reason", .str c.reason),
    ("suggestedPatch", .str c.suggestedPatch)]

end Candidate

end LoopAnalysis
