import LoopAnalysis.Json.Decode

/-!
# Settings of the classifier
-/

namespace LoopAnalysis

open Json

/-- How an external `Classifier` is used. -/
structure ClassifierSettings where
  enabled   : Bool := false
  /-- How long a call may take, in milliseconds. -/
  timeoutMs : Nat := 30000
  /-- How many candidates are sent in one call. -/
  batchSize : Nat := 50
  /-- How many opinions are kept; none for zero. -/
  cacheSize : Nat := 256
  model     : Option String := none
  endpoint  : Option String := none
  apiKey    : Option String := none
deriving DecidableEq, Repr

namespace ClassifierSettings

/-- The timeout in effect: `timeoutMs`, but at least a millisecond. -/
def patience (s : ClassifierSettings) : Nat := max s.timeoutMs 1

/-- Reads settings; what is left out is as in the standard `ClassifierSettings`. -/
def ofJson? (j : Json) : Option ClassifierSettings := do
  let r ← record? ["enabled", "timeout_ms", "batch_size", "cache_size", "model", "endpoint",
    "api_key"] j
  let standard : ClassifierSettings := {}
  return { enabled := ← r.defaulted "enabled" flag? standard.enabled
           timeoutMs := ← r.defaulted "timeout_ms" (nat? 64) standard.timeoutMs
           batchSize := ← r.defaulted "batch_size" (nat? 64) standard.batchSize
           cacheSize := ← r.defaulted "cache_size" (nat? 64) standard.cacheSize
           model := ← r.optional "model" text?
           endpoint := ← r.optional "endpoint" text?
           apiKey := ← r.optional "api_key" text? }

/-- Writes settings for `ofJson?`; absent parts are left out. -/
def toJson (s : ClassifierSettings) : Json :=
  .obj ([("enabled", .bool s.enabled), ("timeout_ms", ofNat s.timeoutMs),
      ("batch_size", ofNat s.batchSize), ("cache_size", ofNat s.cacheSize)] ++
    entryOf "model" .str s.model ++ entryOf "endpoint" .str s.endpoint ++
    entryOf "api_key" .str s.apiKey)

end ClassifierSettings

end LoopAnalysis
