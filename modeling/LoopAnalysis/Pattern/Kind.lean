import LoopAnalysis.Text.Basic

/-!
# Pattern kinds

The shapes of loops that are told apart, and their labels.
-/

namespace LoopAnalysis

/-- The shape of a loop. -/
inductive PatternKind where
  | simpleParallel
  | reduction
  | vectorizable
  | embarrassinglyParallel
  | map
  | filter
  | prefixSum
  | stencil
  | matrixMultiply
  | matrixAddition
  | matrixScaling
  | frobeniusNorm
  | convolution2D
  | imageProcessing
  | complexReduction
  | unknown
deriving DecidableEq, Repr

namespace PatternKind

/-- All kinds. -/
def all : List PatternKind :=
  [.simpleParallel, .reduction, .vectorizable, .embarrassinglyParallel, .map, .filter, .prefixSum,
   .stencil, .matrixMultiply, .matrixAddition, .matrixScaling, .frobeniusNorm, .convolution2D,
   .imageProcessing, .complexReduction, .unknown]

/-- The label of a kind in reports, which `ofLabel?` reads. -/
def label : PatternKind → String
  | .simpleParallel => "simple_parallel"
  | .reduction => "reduction"
  | .vectorizable => "vectorizable"
  | .embarrassinglyParallel => "embarrassingly_parallel"
  | .map => "map"
  | .filter => "filter"
  | .prefixSum => "prefix_sum"
  | .stencil => "stencil"
  | .matrixMultiply => "matrix_multiply"
  | .matrixAddition => "matrix_addition"
  | .matrixScaling => "matrix_scaling"
  | .frobeniusNorm => "frobenius_norm"
  | .convolution2D => "convolution_2d"
  | .imageProcessing => "image_processing"
  | .complexReduction => "complex_reduction"
  | .unknown => "unknown"

/-- Other names that tools use for some of the kinds. -/
def otherNames : List (String × PatternKind) :=
  [("parallel_loop", .simpleParallel), ("parallel", .simpleParallel),
   ("map_operation", .map), ("elementwise", .map),
   ("scan", .prefixSum), ("prefix_scan", .prefixSum),
   ("matrix_multiplication", .matrixMultiply), ("matmul", .matrixMultiply),
   ("gemm", .matrixMultiply),
   ("matrix_add", .matrixAddition), ("matrix_scale", .matrixScaling),
   ("convolution", .convolution2D), ("conv2d", .convolution2D), ("convolution2d", .convolution2D),
   ("advanced_reduction", .complexReduction), ("min_max_reduction", .complexReduction),
   ("vectorizable_loop", .vectorizable)]

/-- A label in the form in which labels are compared: trimmed, in lower case, words joined by
underscores. -/
def normalize (label : String) : String :=
  String.ofList ((Text.lower (Text.trim label)).toList.map fun c =>
    if c == '-' || c == ' ' then '_' else c)

/-- The kind a label names after `normalize`, also under one of the `otherNames`. -/
def ofLabel? (label : String) : Option PatternKind :=
  let name := normalize label
  match all.find? (·.label == name) with
  | some kind => some kind
  | none => (otherNames.find? (·.1 == name)).map (·.2)

/-- Iterations are independent once reductions have private copies: any kind but `prefixSum` and
`unknown`. -/
def isParallelShape (k : PatternKind) : Bool := k != .prefixSum && k != .unknown

/-- The loop folds its iterations into one value: a `reduction`, or one of its special cases. -/
def isReductionLike (k : PatternKind) : Bool :=
  k == .reduction || k == .complexReduction || k == .frobeniusNorm

end PatternKind

end LoopAnalysis
