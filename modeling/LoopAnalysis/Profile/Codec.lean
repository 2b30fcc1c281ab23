import LoopAnalysis.Profile.Nesting
import LoopAnalysis.Profile.Vectorization
import LoopAnalysis.Json.Decode

/-!
# Profiles as documents
-/

namespace LoopAnalysis

open Json

/-! ## §1 Memory -/

/-- Reads an access pattern; a stride is tagged `Strided`. -/
def AccessPattern.ofJson? (j : Json) : Option AccessPattern :=
  let plain : List (String × AccessPattern) :=
    [("Sequential", .sequential), ("UnitStride", .unitStride), ("GatherScatter", .gatherScatter),
     ("Random", .random), ("Reduction", .reduction)]
  match choice? plain j with
  | some p => some p
  | none =>
    match tagged? j with
    | some ("Strided", c) => (word? c).map .strided
    | _ => none

/-- Writes an access pattern. -/
def AccessPattern.toJson : AccessPattern → Json
  | .sequential => .str "Sequential"
  | .unitStride => .str "UnitStride"
  | .strided stride => .obj [("Strided", ofWord stride)]
  | .gatherScatter => .str "GatherScatter"
  | .random => .str "Random"
  | .reduction => .str "Reduction"

/-- Reads a set of texts, with `Text.sortedSet` putting them in order. -/
def textSet? (j : Json) : Option (List String) := (list? text? j).map Text.sortedSet

/-- Reads a memory profile. -/
def MemoryProfile.ofJson? (j : Json) : Option MemoryProfile := do
  let r ← record? ["primary_pattern", "predictability", "is_aliasing", "accessed_arrays",
    "access_count"] j
  return { primaryPattern := ← r.required "primary_pattern" AccessPattern.ofJson?
           predictability := ← r.required "predictability" number?
           isAliasing := ← r.required "is_aliasing" flag?
           accessedArrays := ← r.required "accessed_arrays" textSet?
           accessCount := ← r.required "access_count" (nat? 64) }

/-- Writes a memory profile. -/
def MemoryProfile.toJson (m : MemoryProfile) : Json :=
  .obj [("primary_pattern", m.primaryPattern.toJson), ("predictability", .float m.predictability),
    ("is_aliasing", .bool m.isAliasing), ("accessed_arrays", ofTexts m.accessedArrays),
    ("access_count", ofNat m.accessCount)]

/-! ## §2 Dependences -/

/-- The written names of the reduction operators. -/
def ReductionOperator.names : List (String × ReductionOperator) :=
  [("sum", .sum), ("product", .product), ("min", .min), ("max", .max), ("bit_and", .bitAnd),
   ("bit_or", .bitOr), ("bit_xor", .bitXor)]

/-- The written name of a reduction operator. -/
def ReductionOperator.name (r : ReductionOperator) : String :=
  ((names.find? (·.2 == r)).map (·.1)).getD ""

/-- The written names of the kinds of dependence. -/
def DependenceKind.names : List (String × DependenceKind) :=
  [("None", .independent), ("ReadOnly", .readOnly), ("WAR", .war), ("RAW", .raw), ("WAW", .waw),
   ("ComplexFlow", .complexFlow)]

/-- The written name of a kind of dependence. -/
def DependenceKind.name (k : DependenceKind) : String :=
  ((names.find? (·.2 == k)).map (·.1)).getD ""

/-- Reads a dependence. -/
def CarriedDependence.ofJson? (j : Json) : Option CarriedDependence := do
  let r ← record? ["kind", "distance", "variable", "operator", "privatizable"] j
  return { kind := ← r.required "kind" (choice? DependenceKind.names)
           distance := ← r.required "distance" (nat? 32)
           variableName := ← r.required "variable" text?
           operator := ← r.optional "operator" (choice? ReductionOperator.names)
           privatizable := ← r.required "privatizable" flag? }

/-- Writes a dependence; an `operator` that is absent is left out. -/
def CarriedDependence.toJson (d : CarriedDependence) : Json :=
  .obj ([("kind", .str d.kind.name), ("distance", ofNat d.distance),
      ("variable", .str d.variableName)] ++
    entryOf "operator" (fun r => .str r.name) d.operator ++
    [("privatizable", .bool d.privatizable)])

/-- Reads a dependence profile; it may come without `carried` dependences. -/
def DependenceProfile.ofJson? (j : Json) : Option DependenceProfile := do
  let r ← record? ["kind", "distance", "eliminable", "dependent_variables", "carried"] j
  return { kind := ← r.required "kind" (choice? DependenceKind.names)
           distance := ← r.required "distance" (nat? 32)
           eliminable := ← r.required "eliminable" flag?
           dependentVariables := ← r.required "dependent_variables" textSet?
           carried := ← r.defaulted "carried" (list? CarriedDependence.ofJson?) [] }

/-- Writes a dependence profile. -/
def DependenceProfile.toJson (p : DependenceProfile) : Json :=
  .obj [("kind", .str p.kind.name), ("distance", ofNat p.distance),
    ("eliminable", .bool p.eliminable), ("dependent_variables", ofTexts p.dependentVariables),
    ("carried", .arr (p.carried.map CarriedDependence.toJson))]

/-! ## §3 Vectorization and nesting -/

/-- Reads a vectorization verdict. -/
def VectorizationVerdict.ofJson? (j : Json) : Option VectorizationVerdict := do
  let r ← record? ["vectorizable", "recommended_width", "requires_gather", "expected_speedup",
    "limitations"] j
  return { vectorizable := ← r.required "vectorizable" flag?
           recommendedWidth := ← r.required "recommended_width" (nat? 32)
           requiresGather := ← r.required "requires_gather" flag?
           expectedSpeedup := ← r.required "expected_speedup" number?
           limitations := ← r.required "limitations" text? }

/-- Writes a vectorization verdict. -/
def VectorizationVerdict.toJson (v : VectorizationVerdict) : Json :=
  .obj [("vectorizable", .bool v.vectorizable), ("recommended_width", ofNat v.recommendedWidth),
    ("requires_gather", .bool v.requiresGather), ("expected_speedup", .float v.expectedSpeedup),
    ("limitations", .str v.limitations)]

/-- Writes the place of a loop in its nest. -/
def NestPosition.toJson (p : NestPosition) : Json :=
  .obj [("depth", ofNat p.depth), ("sub_loop_count", ofNat p.subLoopCount),
    ("perfect_above", ofNat p.perfectAbove), ("perfect_below", ofNat p.perfectBelow)]

end LoopAnalysis
