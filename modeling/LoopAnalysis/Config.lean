import LoopAnalysis.Verdict.Weights
import LoopAnalysis.Opinion.Signature
import LoopAnalysis.Pattern.Codec
import LoopAnalysis.Classifier.Settings
import LoopAnalysis.Yaml.Parser
import LoopAnalysis.Yaml.Shape
import LoopAnalysis.Yaml.Printer

/-!
# Configuration

The settings of a run, read from YAML or JSON and written as YAML. What is left out takes the
standard value.
-/

namespace LoopAnalysis

open Json

/-! ## §1 Settings -/

/-- The version of the analyses. -/
def version : String := "0.3.0"

/-- The settings of a run, for `Engine.ofConfig`. -/
structure Config where
  /-- Whether loops may be analyzed side by side; the reports are the same either way. -/
  parallelExecution : Bool := true
  policy            : PatternPolicy := .standard
  weights           : Weights := .balanced
  classifier        : ClassifierSettings := {}
  /-- A file with further signatures. -/
  signaturesPath    : Option String := none

/-- The YAML text of the standard `Config` with a comment on each optional setting. -/
def exampleConfig : String :=
  "\n# Loop analysis configuration\n" ++
  "parallel_execution: true\n" ++
  "policy:\n" ++
  "  version: 1\n" ++
  "  order:\n" ++
  "    - matrix_multiply\n" ++
  "    - convolution_2d\n" ++
  "    - image_processing\n" ++
  "    - stencil\n" ++
  "    - matrix_addition\n" ++
  "    - matrix_scaling\n" ++
  "    - frobenius_norm\n" ++
  "    - complex_reduction\n" ++
  "    - prefix_sum\n" ++
  "    - reduction\n" ++
  "    - filter\n" ++
  "    - embarrassingly_parallel\n" ++
  "    - vectorizable\n" ++
  "    - map\n" ++
  "    - simple_parallel\n" ++
  "weights:\n" ++
  "  static_weight: 0.6\n" ++
  "  external_weight: 0.4\n" ++
  "  disagreement_threshold: 0.3\n" ++
  "classifier:\n" ++
  "  enabled: false\n" ++
  "  timeout_ms: 30000\n" ++
  "  batch_size: 50\n" ++
  "  cache_size: 256\n" ++
  "  # model: gpt-4o\n" ++
  "  # endpoint: https://api.openai.com/v1\n" ++
  "  # api_key: sk-...\n" ++
  "# signatures_path: signatures.json\n"

/-! ## §2 Errors -/

/-- Why a `Config` is refused. -/
inductive ConfigError where
  | unparsableYaml
  | unparsableJson
  | unreadableFile (path : String)
  | repeatedKind (version : Nat) (kind : PatternKind)
  | weights (problem : WeightsError)
  | zeroBatchSize
  | zeroTimeout
  | signatures (problem : SignatureError)

namespace ConfigError

/-- The refusal in words. -/
def message : ConfigError → String
  | .unparsableYaml => "Failed to parse YAML config"
  | .unparsableJson => "Failed to parse JSON config"
  | .unreadableFile path => "Failed to read config file: " ++ path
  | .repeatedKind version kind =>
    "invalid configuration: pattern policy v" ++ toString version ++ " lists " ++ kind.label ++
      " twice"
  | .weights problem => "invalid configuration: " ++ problem.text
  | .zeroBatchSize => "classifier.batch_size must be at least 1"
  | .zeroTimeout => "classifier.timeout_ms must be at least 1"
  | .signatures problem => problem.message

/-- Whether the settings can be read but make no sense together, as `problem?` of a policy or of
weights says. -/
def isInvalidSetting : ConfigError → Bool
  | .repeatedKind _ _ | .weights _ => true
  | _ => false

end ConfigError

/-- Why a policy is refused, if it is: `repeated?` finds a kind that it lists twice. -/
def PatternPolicy.problem? (p : PatternPolicy) : Option ConfigError :=
  p.repeated?.map (.repeatedKind p.version)

namespace Config

/-- Why settings are refused, if they are; the first reason counts. -/
def problem? (c : Config) : Option ConfigError :=
  c.policy.problem? <|> c.weights.problem?.map .weights <|>
    (if c.classifier.batchSize = 0 then some .zeroBatchSize
     else if c.classifier.timeoutMs = 0 then some .zeroTimeout
     else none)

/-- The settings, if there is no `problem?` with them. -/
def validate (c : Config) : Except ConfigError Config :=
  match c.problem? with
  | some e => .error e
  | none => .ok c

/-- Whether two configurations are the same; numbers are compared by value. -/
def same (a b : Config) : Bool :=
  a.parallelExecution == b.parallelExecution && a.policy == b.policy &&
    a.weights.staticWeight == b.weights.staticWeight &&
    a.weights.externalWeight == b.weights.externalWeight &&
    a.weights.disagreementThreshold == b.weights.disagreementThreshold &&
    a.classifier == b.classifier && a.signaturesPath == b.signaturesPath

/-! ## §3 Reading and writing -/

/-- Reads a configuration; what is left out is as in the standard `Config`. -/
def ofJson? (j : Json) : Option Config := do
  let r ← record? ["parallel_execution", "policy", "weights", "classifier", "signatures_path"] j
  return { parallelExecution := ← r.defaulted "parallel_execution" flag? true
           policy := ← r.defaulted "policy" PatternPolicy.ofJson? .standard
           weights := ← r.defaulted "weights" Weights.ofJson? .balanced
           classifier := ← r.defaulted "classifier" ClassifierSettings.ofJson? {}
           signaturesPath := ← r.defaulted "signatures_path" (option? text?) none }

/-- Writes a configuration for `ofJson?`. -/
def toJson (c : Config) : Json :=
  .obj ([("parallel_execution", .bool c.parallelExecution), ("policy", c.policy.toJson),
      ("weights", c.weights.toJson), ("classifier", c.classifier.toJson)] ++
    entryOf "signatures_path" .str c.signaturesPath)

/-- The `Yaml.Shape` of a configuration, by which `ofYaml` reads its scalars. -/
def shape : Yaml.Shape :=
  .record [("parallel_execution", .flag),
    ("policy", .record [("version", .whole), ("order", .list .choice)]),
    ("weights", .record [("static_weight", .number), ("external_weight", .number),
      ("disagreement_threshold", .number)]),
    ("classifier", .record [("enabled", .flag), ("timeout_ms", .whole), ("batch_size", .whole),
      ("cache_size", .whole), ("model", .option .text), ("endpoint", .option .text),
      ("api_key", .option .text)]),
    ("signatures_path", .option .text)]

/-- The configuration that a YAML text holds, once `validate` has accepted it. -/
def ofYaml (text : String) : Except ConfigError Config :=
  match (Yaml.parse text).bind fun d => (d.read shape d.root).bind ofJson? with
  | some c => c.validate
  | none => .error .unparsableYaml

/-- The configuration that a JSON text holds, once `validate` has accepted it. -/
def ofJsonText (text : String) : Except ConfigError Config :=
  match (Json.parse text).bind ofJson? with
  | some c => c.validate
  | none => .error .unparsableJson

/-- The configuration as YAML. -/
def toYaml (c : Config) : String := Yaml.write c.toJson

end Config

end LoopAnalysis
