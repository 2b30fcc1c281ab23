import LoopAnalysis.Config
import LoopAnalysis.Report.Function
import LoopAnalysis.Profile.Context
import LoopAnalysis.Program.Codec
import LoopAnalysis.Classifier.Prompt

/-!
# Catalogues

Listings of what the analyses know: operations, patterns, recognizers, and the values in use when
none are given.
-/

namespace LoopAnalysis

open Json

namespace Catalogue

/-- Every `BinaryOp` with its properties. -/
def binaryOps : Json :=
  .arr (BinaryOp.names.map fun (name, op) =>
    .arr [.str name, .str op.mnemonic, .bool op.isAdd, .bool op.isSub, .bool op.isMul,
      .bool op.isBitwise, .bool op.isArithmetic])

/-- Every `Predicate` with its properties. -/
def predicates : Json :=
  .arr (Predicate.names.map fun (name, p) => .arr [.str name, .bool p.isGreater, .bool p.isLess])

/-- Every `PatternKind` with its properties and the remark of `Suggestion.annotation`. -/
def kinds : Json :=
  .arr (PatternKind.all.map fun k =>
    .arr [k.toJson, .str k.label, .str k.label, .bool k.isParallelShape, .bool k.isReductionLike,
      .str (Suggestion.annotation k)])

/-- A recognizer that finds nothing and has nothing to say about itself. -/
def silentRecognizer : Recognizer where
  kind := .unknown
  name := "Silent"
  recognize _ := .ok none

/-- The `Recognizer.standard` ones and the `silentRecognizer` with what they look for. -/
def recognizers : Json :=
  .arr ((Recognizer.standard ++ [silentRecognizer]).map fun r =>
    .arr [r.kind.toJson, .str r.name, .str r.description])

/-- An `AccessPattern` of each sort with its properties. -/
def memoryPatterns : Json :=
  let examples : List AccessPattern :=
    [.sequential, .unitStride, .strided 0, .strided (-3), .gatherScatter, .random, .reduction]
  .arr (examples.map fun p => .arr [p.toJson, .str p.text, ofNat p.rank, .bool p.isPredictable])

/-- Every `DependenceKind` with its properties. -/
def dependenceKinds : Json :=
  .arr (DependenceKind.all.map fun k => .arr [.str k.name, .str k.text, .bool k.isSafe])

/-- Every `ReductionOperator` with its properties. -/
def reductionOperators : Json :=
  .arr (ReductionOperator.names.map fun (name, r) =>
    .arr [.str name, .str r.clauseSymbol, .bool r.isArithmetic])

/-- The signatures that are known without further ado, `Signatures.builtin`. -/
def builtinSignatures : Json := .arr (Signatures.builtin.entries.map Signature.toJson)

/-- The values in use when none are given. -/
def defaults : Json :=
  let settings : ClassifierSettings :=
    { enabled := true, timeoutMs := 5, batchSize := 6, cacheSize := 7 }
  .obj [("config", ({} : Config).toJson), ("classifier", settings.toJson),
    ("memory", MemoryProfile.toJson {}), ("read_only", DependenceProfile.readOnly.toJson),
    ("context", LoopContext.toJson {}), ("version", .str version),
    ("report", FunctionReport.toJson {}), ("response", Response.toJson {})]

/-- The listing of a name. -/
def find? (name : String) : Option Json :=
  match name with
  | "binary_ops" => some binaryOps
  | "predicates" => some predicates
  | "kinds" => some kinds
  | "recognizers" => some recognizers
  | "memory_patterns" => some memoryPatterns
  | "dependency_kinds" => some dependenceKinds
  | "reduction_operators" => some reductionOperators
  | "builtin_signatures" => some builtinSignatures
  | "defaults" => some defaults
  | "example_config" => some (.str exampleConfig)
  | "system_prompt" => some (.str Prompt.system)
  | _ => none

end Catalogue

end LoopAnalysis
