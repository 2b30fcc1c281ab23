import LoopAnalysis.Pattern.Evidence
import LoopAnalysis.Profile.Vectorization

/-!
# Suggested transformations

Directives for a loop, from its pattern and its vectorization verdict. The first suggestion is the
primary one; there is always one.
-/

namespace LoopAnalysis.Suggestion

/-- The mark of a transformation that somebody has to check first. -/
def marker : String := "/* requires verification */"

/-- The directive that spreads iterations over threads. -/
def parallelFor : String := "#pragma omp parallel for"

/-- The remark that goes with stencils. -/
def boundaryNote : String := "// Note: boundary conditions may need special handling"

/-- The clause that privatizes an accumulator. -/
def reductionClause (info : ReductionInfo) : String :=
  "reduction(" ++ info.operator.clauseSymbol ++ ":" ++ info.variableName ++ ")"

/-- A `parallelFor` with a `reductionClause`, or with a clause to be filled in. -/
def reductionDirective (reduction : Option ReductionInfo) (otherwise : String) : String :=
  parallelFor ++ " " ++
    match reduction with
    | some info => reductionClause info
    | none => otherwise

/-- The primary suggestion for a pattern. The labels of folded values and of a prefix quote the
variable of the reduction; all others are fixed texts around `parallelFor`. -/
def primary (kind : PatternKind) (reduction : Option ReductionInfo) : String :=
  match kind with
  | .simpleParallel | .embarrassinglyParallel | .map | .filter => parallelFor
  | .vectorizable => "#pragma omp simd\n" ++ parallelFor
  | .reduction | .frobeniusNorm => reductionDirective reduction "reduction(+:sum)"
  | .complexReduction => reductionDirective reduction "reduction(min:var) // or max:var"
  | .prefixSum =>
    match reduction with
    | some info =>
      parallelFor ++ " reduction(inscan, " ++ info.operator.clauseSymbol ++ ":" ++
        info.variableName ++ ")\n// Separate update and use with #pragma omp scan inclusive(" ++
        info.variableName ++ ")"
    | none => "// Sequential prefix dependency: consider a parallel scan algorithm"
  | .matrixAddition | .matrixScaling => parallelFor ++ " collapse(2)\n#pragma omp simd"
  | .matrixMultiply => parallelFor ++ "\n// Consider blocking for cache efficiency"
  | .stencil => parallelFor ++ "\n" ++ boundaryNote
  | .convolution2D => parallelFor ++ " collapse(2)"
  | .imageProcessing => parallelFor ++ " collapse(2)\n" ++ boundaryNote
  | .unknown => parallelFor ++ " // Pattern-specific optimization needed"

/-- The directive for a nest whose levels may be merged by its `collapse`, unless the primary one
merges them. -/
def collapseDirective (first : String) (c : PatternClassification) : List String :=
  match c.evidence.collapse with
  | some depth =>
    if 2 ≤ depth && !Text.contains first "collapse(" && c.kind.isParallelShape then
      [parallelFor ++ " collapse(" ++ toString depth ++ ")"]
    else []
  | none => []

/-- The directive for a loop that is `vectorizable`, unless the primary one says so. -/
def simdDirective (first : String) (c : PatternClassification) (v : VectorizationVerdict) :
    List String :=
  if v.vectorizable && !Text.contains first "simd" then
    ["#pragma omp simd simdlen(" ++ toString v.recommendedWidth ++ ")" ++
      match c.evidence.reduction with
      | some info => " " ++ reductionClause info
      | none => ""]
  else []

/-- The suggestions for a loop: the `primary` one, then `collapseDirective` and `simdDirective`. -/
def suggest (c : PatternClassification) (v : VectorizationVerdict) : List String :=
  let first := primary c.kind c.evidence.reduction
  first :: collapseDirective first c ++ simdDirective first c v

/-- A short remark on a loop of a pattern. -/
def annotation : PatternKind → String
  | .embarrassinglyParallel => "Perfect parallel candidate - no dependencies between iterations"
  | .vectorizable => "Array access with arithmetic operations - good for SIMD"
  | .simpleParallel => "Array access with simple indexing detected"
  | .map => "Elementwise map - each output depends only on its own inputs"
  | .filter => "Conditional store - parallel when the guarded writes do not collide"
  | .reduction => "Reduction - privatize the accumulator with a reduction clause"
  | .prefixSum => "Prefix dependency - needs a scan, not a plain parallel loop"
  | .stencil => "Stencil - neighbouring reads of one array, watch the boundaries"
  | .matrixMultiply => "Matrix multiply - parallelize the outer loop and block for cache"
  | .matrixAddition => "Matrix addition - fully parallel over both dimensions"
  | .matrixScaling => "Matrix scaling - fully parallel over both dimensions"
  | .frobeniusNorm => "Sum of squares - parallel with a sum reduction"
  | .convolution2D => "2-D convolution - collapse the spatial loops"
  | .imageProcessing => "Image neighbourhood filter - collapse rows and columns"
  | .complexReduction => "Min/max or bitwise reduction - use the matching reduction operator"
  | .unknown => "Function calls or complex operations detected"

/-- Whether a transformation carries the `marker`. -/
def isMarked (transformation : String) : Bool := Text.contains transformation marker

/-- Puts the `marker` behind a transformation, unless it `isMarked` already. -/
def mark (transformation : String) : String :=
  if isMarked transformation then transformation else transformation ++ " " ++ marker

end LoopAnalysis.Suggestion
