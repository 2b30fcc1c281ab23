import LoopAnalysis.Pattern.Stencil

/-!
# Recognizers

One recognizer for each pattern but `unknown`. A recognizer finds evidence, finds none, or reports
that the loop lacks a structure it needs.
-/

namespace LoopAnalysis

/-- What a recognizer finds in a loop: a `MissingStructure` that it lacks, evidence, or none. -/
abbrev Recognition := Except MissingStructure (Option PatternEvidence)

namespace Recognize

/-! ## §1 Values folded over the iterations -/

/-- The evidence of an accumulator, which names it as a `ReductionInfo`. -/
def foldEvidence (summary : String) (acc : Accumulator) : PatternEvidence :=
  { summary, reduction := some ⟨acc.variableName, acc.operator⟩ }

/-- Some value is among the `accumulators`; sums and products are preferred. -/
def reduction (s : Scene) : Recognition := do
  let _ ← s.inductionVariable
  let found := (s.accumulators.find? (·.operator.isArithmetic)).or s.accumulators.head?
  return found.map fun acc =>
    let place := match acc.storage with
      | .register => "a register"
      | .memory => "memory"
    { foldEvidence "Loop-carried value accumulated through an associative operator" acc with
      facts := [acc.variableName ++ " accumulates with '" ++ acc.operator.clauseSymbol ++ "' in " ++
        place] }

/-- A product of equal factors, or a call of an absolute value. -/
def squaresOrMagnitude (s : Scene) (addend : Operand) : Bool :=
  match s.lp.definitionOf addend with
  | some (.binary _ op lhs rhs) => op.isMul && (lhs == rhs || s.lp.render lhs == s.lp.render rhs)
  | some (.call _ (some callee) _ _) => Text.contains (Text.lower callee) "abs"
  | _ => false

/-- A sum of squares or of absolute values: its addend is one of `squaresOrMagnitude`. -/
def frobeniusNorm (s : Scene) : Recognition := do
  let _ ← s.inductionVariable
  let found := s.accumulators.find? fun acc =>
    acc.operator == .sum && squaresOrMagnitude s acc.addend
  return found.map (foldEvidence "Sum of squared (or absolute) elements")

/-- A minimum, a maximum or an operator on bits is accumulated, one for which `isArithmetic` fails.
-/
def complexReduction (s : Scene) : Recognition := do
  let _ ← s.inductionVariable
  let found := s.accumulators.find? (!·.operator.isArithmetic)
  return found.map fun acc =>
    let family := if acc.operator == .min || acc.operator == .max then "Min/max" else "Bitwise"
    foldEvidence (family ++ " reduction beyond a simple sum") acc

/-- Whether a dimension of a read trails that of a write by a constant number of iterations. -/
def trails : IndexTerm → IndexTerm → Bool
  | .affine cw ow, .affine cr or => cw = 1 && cr = 1 && or.toInt < ow.toInt
  | _, _ => false

/-- Whether a read is at the place of a write except for dimensions in which it `trails` it, of
which there is at least one. -/
def readsEarlierElement (write read : List IndexTerm) : Bool :=
  write.length == read.length &&
    (write.zip read).all (fun (w, r) => trails w r || w == r) &&
    (write.zip read).any fun (w, r) => trails w r

/-- A write of an element that `flowsFrom` an earlier element of the same array. -/
def previousElement? (s : Scene) : Option PatternEvidence :=
  s.writes.findSome? fun write => do
    let value ← write.value
    (s.reads.filter (·.base == write.base)).findSome? fun read => do
      let loaded ← read.result
      if readsEarlierElement write.terms read.terms && s.lp.flowsFrom value loaded then
        some { summary := "Each element is computed from the previous one"
               facts := [read.rendered ++ " feeds " ++ write.rendered] }
      else none

/-- An accumulator without `soleUse` whose running value is stored at a moving place. -/
def storesRunningTotal (s : Scene) (acc : Accumulator) : Bool :=
  !acc.soleUse &&
    s.writes.any fun w => w.value.any (·.isValue acc.update) && w.terms.any (·.isAffine)

/-- Each element depends on an earlier one by `previousElement?`, or there is one that
`storesRunningTotal`. -/
def prefixSum (s : Scene) : Recognition := do
  let _ ← s.inductionVariable
  match previousElement? s with
  | some evidence => return some evidence
  | none =>
    return (s.accumulators.find? (storesRunningTotal s)).map fun acc =>
      { foldEvidence "Running total stored every iteration" acc with
        facts := [acc.variableName ++ " is written out after each update"] }

/-! ## §2 Independent iterations -/

/-- The blocks of the loops directly inside a loop. -/
def nestedBlocks (s : Scene) : List BlockId :=
  s.lp.subLoops.flatMap fun sub => sub.blocks.map (·.id)

/-- Whether the branch at the end of a block leads, both ways, to blocks of the loop of which one
stores. -/
def guardsStore (s : Scene) (block : Block) : Bool :=
  match block.instructions.getLast? with
  | some (.branch _ thenBlock elseBlock) =>
    s.lp.containsBlock thenBlock && s.lp.containsBlock elseBlock &&
      (s.lp.blocks.filter fun b => b.id == thenBlock || b.id == elseBlock).any
        (·.instructions.any (·.isStore))
  | _ => false

/-- A branch `guardsStore`. The control flow of inner loops, in `nestedBlocks`, does not count. -/
def filter (s : Scene) : Recognition := do
  let _ ← s.inductionVariable
  let own := s.lp.blocks.filter fun b => !(nestedBlocks s).contains b.id
  return (own.find? (guardsStore s)).map fun block =>
    { summary := "Conditional branch guards a store"
      facts := ["branch in " ++ block.id.text ++ " selects the stored elements"] }

/-- Whether one index of an access is the induction variable by `isOwnIv` and every other one is
invariant. -/
def indexedDirectly (s : Scene) (site : AccessSite) : Bool :=
  site.baseInvariant && (site.indices.filter s.isOwnIv).length == 1 &&
    (site.indices.zip site.terms).all fun (ix, term) => s.isOwnIv ix || term.isInvariant

/-- No calls, no dependences, and every access is `indexedDirectly` by the induction variable. -/
def embarrassinglyParallel (s : Scene) : Recognition := do
  let _ ← s.inductionVariable
  if s.sites.isEmpty || s.hasCalls || !s.dependence.kind.isSafe then return none
  return if s.sites.all (indexedDirectly s) then
      some { summary := "Perfect parallel candidate - no dependencies between iterations"
             facts := ["every access is indexed directly by the induction variable"] }
    else none

/-- Arithmetic other than the step of the induction variable. -/
def isOwnArithmetic (increment : Option ValueId) : Instruction → Bool
  | .binary r _ _ _ => some r != increment
  | .cast _ _ => true
  | _ => false

/-- Arithmetic in a loop whose `vectorization` verdict is positive. -/
def vectorizable (s : Scene) : Recognition := do
  let _ ← s.inductionVariable
  if !s.vectorization.vectorizable || s.hasSideEffectCalls then return none
  return if s.lp.instructions.any (isOwnArithmetic s.latchIncrement?) then
      some { summary := "Array access with arithmetic operations - good for SIMD"
             facts := ["width " ++ toString s.vectorization.recommendedWidth ++ " with ~" ++
               Decimal.fixed 1 s.vectorization.expectedSpeedup ++ "x expected speedup"] }
    else none

/-- Whether some index is the induction variable. -/
def indexedByIv (site : AccessSite) : Bool := site.terms.any (· == .affine 1 0)

/-- Elements are read and written at places `indexedByIv`, without side effects. -/
def map (s : Scene) : Recognition := do
  let _ ← s.inductionVariable
  if s.hasSideEffectCalls || !s.dependence.kind.isSafe then return none
  return if s.reads.any indexedByIv && s.writes.any indexedByIv then
      some { summary := "Element-wise transformation of independent elements"
             facts := if s.hasCalls then ["element function is free of side effects"] else [] }
    else none

/-- Some access is indexed by the induction variable, and its `dependence` does not stand in the
way. -/
def simpleParallel (s : Scene) : Recognition := do
  let _ ← s.inductionVariable
  if s.hasSideEffectCalls then return none
  if !(s.dependence.kind.isSafe || s.dependence.eliminable) then return none
  return if s.sites.any (·.indices.any s.isOwnIv) then
      some { summary := "Array access with simple indexing detected" }
    else none

/-! ## §3 Nests and neighbourhoods -/

/-- Some sum has a product as a term. -/
def hasMultiplyAccumulate (lp : LoopBody) : Bool :=
  let isProduct (op : Operand) : Bool :=
    match lp.definitionOf op with
    | some (.binary _ op _ _) => op.isMul
    | _ => false
  lp.instructions.any fun
    | .binary _ op lhs rhs => op.isAdd && (isProduct lhs || isProduct rhs)
    | _ => false

/-- Three nested loops around a leaf with `hasMultiplyAccumulate`. -/
def matrixMultiply (s : Scene) : Recognition := do
  let _ ← s.inductionVariable
  if s.nesting.perfectChainLength < 3 then throw .tripleNest
  return if s.lp.perfectLeaf.any fun leaf => hasMultiplyAccumulate leaf.toLoopBody then
      some { summary := "Triple-nested multiply-accumulate (C[i][j] += A[i][k] * B[k][j])"
             facts := ["nest depth " ++ toString s.nesting.perfectChainLength ++
               ", loop at level " ++ toString (s.nesting.perfectAbove + 1)]
             collapse := some 2 }
    else none

/-- A `stencilShape?` in a loop that `multipliesByConstant`. -/
def convolution2D (s : Scene) : Recognition := do
  let _ ← s.inductionVariable
  return s.stencilShape?.bind fun shape =>
    if s.multipliesByConstant then
      some { summary := "Neighbourhood weighted by constant kernel coefficients"
             facts := [toString shape.points ++ "-point kernel over " ++ shape.array]
             collapse :=
               if 1 ≤ s.nesting.perfectBelow || 1 ≤ s.nesting.perfectAbove then some 2 else none
             stencil := some shape }
    else none

/-- A `stencilShape?` over two dimensions of a nest. -/
def imageProcessing (s : Scene) : Recognition := do
  let _ ← s.inductionVariable
  if !s.nesting.isNested then throw .loopNest
  return s.stencilShape?.bind fun shape =>
    if 2 ≤ shape.dimensions then
      some { summary := "Two-dimensional neighbourhood filter"
             facts := [toString shape.points ++ " neighbours of " ++ shape.array]
             collapse := some 2
             stencil := some shape }
    else none

/-- Neighbouring elements of one array are read, in a `stencilShape?`. -/
def stencil (s : Scene) : Recognition := do
  let _ ← s.inductionVariable
  return s.stencilShape?.map fun shape =>
    { summary := "Reads neighbouring elements of the same array"
      facts := [toString shape.points ++ " points of " ++ shape.array ++ " within radius " ++
        toString shape.radius]
      stencil := some shape }

/-- Whether an instruction adds. -/
def isSum : Instruction → Bool
  | .binary _ op _ _ => op.isAdd
  | _ => false

/-- A nest that `isTwoLevelNest` stores sums, over three or more arrays. -/
def matrixAddition (s : Scene) : Recognition := do
  let _ ← s.inductionVariable
  if !s.nesting.isTwoLevelNest then throw (.twoLevelNest "matrix addition")
  if s.distinctBases < 3 then return none
  return if s.storesResultOf isSum then
      some { summary := "Element-wise addition of matrices"
             facts := [toString s.distinctBases ++ " arrays involved"]
             collapse := some 2 }
    else none

/-- Whether an instruction multiplies by exactly one factor that the loop does not change. -/
def isScaling (lp : LoopBody) : Instruction → Bool
  | .binary _ op lhs rhs => op.isMul && lp.isInvariant lhs != lp.isInvariant rhs
  | _ => false

/-- A nest that `isTwoLevelNest` stores multiples of elements. -/
def matrixScaling (s : Scene) : Recognition := do
  let _ ← s.inductionVariable
  if !s.nesting.isTwoLevelNest then throw (.twoLevelNest "matrix scaling")
  return if s.storesResultOf (isScaling s.lp.toLoopBody) then
      some { summary := "Matrix scaled by a loop-invariant factor", collapse := some 2 }
    else none

end Recognize

/-- A recognizer with what it is called. -/
structure Recognizer where
  kind        : PatternKind
  name        : String
  description : String := "No description provided"
  recognize   : Scene → Recognition

namespace Recognizer

/-- The recognizers of all patterns but `unknown`, in the order of the kinds. -/
def standard : List Recognizer := [
  ⟨.simpleParallel, "Simple Parallel", "Induction-indexed loop without side-effecting calls",
    Recognize.simpleParallel⟩,
  ⟨.reduction, "Reduction", "Accumulating operation fed by a loop-carried value",
    Recognize.reduction⟩,
  ⟨.vectorizable, "Vectorizable", "SIMD-friendly arithmetic over predictable accesses",
    Recognize.vectorizable⟩,
  ⟨.embarrassinglyParallel, "Embarrassingly Parallel",
    "Induction-indexed loads and stores with no calls", Recognize.embarrassinglyParallel⟩,
  ⟨.map, "Map", "out[i] = f(in[i]) with a pure f", Recognize.map⟩,
  ⟨.filter, "Filter", "Conditional branch guarding a store", Recognize.filter⟩,
  ⟨.prefixSum, "Prefix Sum", "array[i-1] feeding array[i], or a running total",
    Recognize.prefixSum⟩,
  ⟨.stencil, "Stencil", "Three or more offset reads of one array", Recognize.stencil⟩,
  ⟨.matrixMultiply, "Matrix Multiply",
    "Three perfectly nested loops with a multiply-accumulate innermost", Recognize.matrixMultiply⟩,
  ⟨.matrixAddition, "Matrix Addition", "C[i][j] = A[i][j] + B[i][j]", Recognize.matrixAddition⟩,
  ⟨.matrixScaling, "Matrix Scaling", "A[i][j] = A[i][j] * scalar", Recognize.matrixScaling⟩,
  ⟨.frobeniusNorm, "Frobenius Norm", "sum += A[i]*A[i] or sum += abs(A[i])",
    Recognize.frobeniusNorm⟩,
  ⟨.convolution2D, "2D Convolution", "Stencil plus multiplication by compile-time constants",
    Recognize.convolution2D⟩,
  ⟨.imageProcessing, "Image Processing", "2-D neighbourhood reads in a loop nest",
    Recognize.imageProcessing⟩,
  ⟨.complexReduction, "Complex Reduction", "Min/max and bitwise accumulators",
    Recognize.complexReduction⟩]

end Recognizer

end LoopAnalysis
