import LoopAnalysis.Config
import LoopAnalysis.Report.Function
import LoopAnalysis.Classifier.Adapter
import LoopAnalysis.Program.Nest

/-!
# Engines

An engine analyzes whole functions. Without a classifier each loop is reported on static grounds;
with one, the candidates of all functions are put to it together, and every loop gets the outcome
for its own candidate.
-/

namespace LoopAnalysis

/-- A configured run: an `Analyzer` for loops and an `Adapter` for the classifier. -/
structure Engine (σ : Type) where
  config   : Config
  analyzer : Analyzer
  adapter  : Adapter σ := .disabled

namespace Engine

variable {σ : Type}

/-! ## §1 Setting up -/

/-- The engine for a configuration. `readFile` gives the contents of a file; the signatures of the
configuration are loaded into the store, unless one is already in use there. -/
def ofConfig (config : Config) (store : SignatureStore) (readFile : String → Option String) :
    Except ConfigError (Engine σ × SignatureStore) := do
  let config ← config.validate
  let store ←
    match config.signaturesPath with
    | none => pure store
    | some path =>
      match store.load path (readFile path) with
      | .ok (_, store) => pure store
      | .error e => throw (.signatures e)
  let analyzer : Analyzer :=
    { matcher := .ofPolicy config.policy, weights := config.weights, signatures := store.current.1 }
  return ({ config, analyzer }, store)

/-- Puts a `Classifier` in place, under the settings of the configuration. -/
def withClassifier (e : Engine σ) (classifier : Classifier σ) : Engine σ :=
  { e with adapter := .ofClassifier classifier e.config.classifier }

/-- Understands labels by other `Signatures`. -/
def withSignatures (e : Engine σ) (signatures : Signatures) : Engine σ :=
  { e with analyzer := { e.analyzer with signatures } }

/-! ## §2 Static reports -/

/-- How the classifier fared. -/
def status (e : Engine σ) (opinions unavailable : Nat) : ClassifierStatus :=
  { enabled := e.adapter.isAvailable, name := e.adapter.classifierName?, opinions, unavailable }

/-- The reports on loops on static grounds, by `Analyzer.analyze`. -/
def analyzeLoops (e : Engine σ) (loops : List Loop) : List LoopReport :=
  loops.map e.analyzer.analyze

/-- The report on the loops of a function on static grounds, as `analyzeLoops` gives them. -/
def analyzeFunction (e : Engine σ) (loops : List Loop) : FunctionReport :=
  { loops := e.analyzeLoops loops, classifier := e.status 0 0 }

/-! ## §3 Reports with a classifier -/

/-- How many outcomes have an opinion. -/
def countOpinions (outcomes : List (Option Outcome)) : Nat :=
  (outcomes.filter fun o => (o.bind Outcome.opinion?).isSome).length

/-- How many outcomes lack an opinion. -/
def countUnavailable (outcomes : List (Option Outcome)) : Nat :=
  (outcomes.filter fun o => o.any fun out => out.opinion?.isNone).length

/-- The report on a function, in which `Analyzer.finish` takes each loop's facts and outcome
together. -/
def functionReport (e : Engine σ) (analyses : List LoopFacts) (outcomes : List (Option Outcome)) :
    FunctionReport :=
  { loops := List.zipWith e.analyzer.finish analyses outcomes
    classifier := e.status (countOpinions outcomes) (countUnavailable outcomes) }

/-- Deals outcomes out to functions, one for each loop in order; where none is left the loop has
none. -/
def functionReports (e : Engine σ) : List (List LoopFacts) → List Outcome → List FunctionReport
  | [], _ => []
  | analyses :: rest, outcomes =>
    let own := (List.range analyses.length).map (outcomes[·]?)
    e.functionReport analyses own :: functionReports e rest (outcomes.drop analyses.length)

/-- The facts about the loops of every function. -/
def facts (e : Engine σ) (functions : List (List Loop)) : List (List LoopFacts) :=
  functions.map (·.map e.analyzer.facts)

/-- The `LoopFacts.candidate` of every loop of all functions, in order. -/
def candidates (analyses : List (List LoopFacts)) : List Candidate :=
  analyses.flatten.map LoopFacts.candidate

/-- The reports on functions, given by their loops. All loops are put to the classifier together by
`classifyBatch`; without a classifier none is. -/
def analyzeFunctions (e : Engine σ) (functions : List (List Loop)) (s : AdapterState σ) :
    List FunctionReport × AdapterState σ :=
  let analyses := e.facts functions
  if e.adapter.isAvailable then
    let (outcomes, s) := e.adapter.classifyBatch (candidates analyses) s
    (e.functionReports analyses outcomes, s)
  else (e.functionReports analyses [], s)

/-- The report on one function, for which `analyzeFunctions` is called with it alone. -/
def analyzeFunctionWith (e : Engine σ) (loops : List Loop) (s : AdapterState σ) :
    FunctionReport × AdapterState σ :=
  let (reports, s) := e.analyzeFunctions [loops] s
  (reports.getLast?.getD {}, s)

end Engine

/-! ## §4 One loop at a time -/

namespace Analyzer

variable {σ : Type}

/-- The report on one loop, for which the classifier is asked by `classify`. -/
def analyzeWith (a : Analyzer) (adapter : Adapter σ) (lp : Loop) (s : AdapterState σ) :
    LoopReport × AdapterState σ :=
  let facts := a.facts lp
  if adapter.isAvailable then
    let (outcome, s) := adapter.classify (facts.request lp) s
    (a.finish facts (some outcome), s)
  else (a.finish facts none, s)

end Analyzer

end LoopAnalysis
