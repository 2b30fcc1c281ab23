import LoopAnalysis.Classifier.Basic
import LoopAnalysis.Classifier.Settings
import LoopAnalysis.Classifier.Cache
import LoopAnalysis.Opinion.Reading

/-!
# Asking a classifier

An adapter stands between the analyses and a classifier. It limits the time of a call, reads the
raw text, remembers opinions on single loops and sends candidates in chunks. Whatever goes wrong
comes out as an outcome without an opinion.
-/

namespace LoopAnalysis

/-! ## §1 Adapters and their states -/

/-- A `Classifier`, if there is one, under its `settings`. -/
structure Adapter (σ : Type) where
  classifier : Option (Classifier σ) := none
  settings   : ClassifierSettings := {}

/-- What changes while an `Adapter` is in use. -/
structure AdapterState (σ : Type) where
  /-- The state of the `Classifier`. -/
  inner : σ
  cache : RecencyCache ClassificationRequest Opinion
  /-- How often the classifier was called. -/
  calls : Nat := 0

namespace Adapter

variable {σ : Type}

/-- The adapter without a `classifier`. -/
def disabled : Adapter σ := {}

/-- The adapter for a classifier under given settings. -/
def ofClassifier (classifier : Classifier σ) (settings : ClassifierSettings) : Adapter σ :=
  { classifier := some classifier, settings }

/-- The state before the first call. -/
def start (a : Adapter σ) (inner : σ) : AdapterState σ :=
  { inner, cache := { capacity := a.settings.cacheSize } }

/-- The most opinions that a cache can have room for: its table has eight places for every seven
opinions and takes a power of two of them, at most `2 ^ 58`. -/
def cacheLimit : Nat := 252201579132747776

/-- Whether the cache stays within `cacheLimit`, which only matters with a classifier. -/
def hasRoom (a : Adapter σ) : Bool := a.classifier.isNone || a.settings.cacheSize ≤ cacheLimit

/-- The `classifier`, if it is there and `enabled`. -/
def active? (a : Adapter σ) : Option (Classifier σ) :=
  if a.settings.enabled then a.classifier else none

/-- Whether there is an `active?` classifier to ask. -/
def isAvailable (a : Adapter σ) : Bool := a.active?.isSome

/-- The name of the classifier, enabled or not. -/
def classifierName? (a : Adapter σ) : Option String := a.classifier.map (·.name)

/-! ## §2 Single loops -/

/-- The opinion in a reply that came `within` the `patience` of the settings, read by
`parseOpinion`. -/
def opinionOf (a : Adapter σ) (r : Reply) : Except ClassifierError Opinion := do
  parseOpinion (← r.within a.settings.patience)

/-- Asks about one loop. An opinion that is in the `cache` is not asked for again, and only opinions
get there. -/
def classify (a : Adapter σ) (request : ClassificationRequest) (s : AdapterState σ) :
    Outcome × AdapterState σ :=
  match a.active? with
  | none => (.unavailable .notConfigured, s)
  | some classifier =>
    match s.cache.use? request with
    | some (o, cache) => (.opinion o, { s with cache })
    | none =>
      let (reply, inner) := classifier.ask request s.inner
      let s := { s with inner, calls := s.calls + 1 }
      match a.opinionOf reply with
      | .ok o => (.opinion o, { s with cache := s.cache.put request o })
      | .error e => (.unavailable e.reason, s)

/-! ## §3 Batches -/

/-- A list in pieces of a size, the last of which may be shorter; zero counts as one. -/
def chunksOf {α : Type} (size : Nat) : List α → List (List α)
  | [] => []
  | x :: rest => (x :: rest.take (size - 1)) :: chunksOf size (rest.drop (size - 1))
termination_by xs => xs.length
decreasing_by
  simp only [List.length_drop, List.length_cons]
  omega

/-- The outcomes for the candidates of a chunk, as `parseBatch` reads them off its reply. -/
def chunkOutcomes (a : Adapter σ) (size : Nat) (r : Reply) : List Outcome :=
  match r.within a.settings.patience with
  | .ok raw => parseBatch raw size
  | .error e => List.replicate size (.unavailable e.reason)

/-- Sends chunks one after another, each by `askBatch`. -/
def classifyChunks (a : Adapter σ) (classifier : Classifier σ) :
    List (List Candidate) → AdapterState σ → List Outcome × AdapterState σ
  | [], s => ([], s)
  | chunk :: rest, s =>
    let (reply, inner) := classifier.askBatch chunk s.inner
    let (outcomes, s) := classifyChunks a classifier rest { s with inner, calls := s.calls + 1 }
    (a.chunkOutcomes chunk.length reply ++ outcomes, s)

/-- Asks about many loops in `chunksOf` the batch size; there is one `Outcome` for each candidate,
in order. -/
def classifyBatch (a : Adapter σ) (candidates : List Candidate) (s : AdapterState σ) :
    List Outcome × AdapterState σ :=
  match a.active? with
  | none => (List.replicate candidates.length (.unavailable .notConfigured), s)
  | some classifier => a.classifyChunks classifier (chunksOf a.settings.batchSize candidates) s

end Adapter

end LoopAnalysis
