import LoopAnalysis.Access.Site
import LoopAnalysis.Access.Slice
import LoopAnalysis.Text.Basic

/-!
# Values carried from one iteration to the next

A carried scalar is a phi of the loop header other than the induction variable. It is an
accumulator when the value of the next iteration combines the previous one with something else
through an associative operator. A memory accumulator does the same with a place in memory that
is the same in every iteration.
-/

namespace LoopAnalysis

/-! ## §1 Accumulators -/

/-- The operators of reductions. -/
inductive ReductionOperator where
  | sum | product | min | max | bitAnd | bitOr | bitXor
deriving DecidableEq, Repr

namespace ReductionOperator

/-- All operators. -/
def all : List ReductionOperator := [.sum, .product, .min, .max, .bitAnd, .bitOr, .bitXor]

/-- The operator as it is written in a `reduction` clause. -/
def clauseSymbol : ReductionOperator → String
  | .sum => "+"
  | .product => "*"
  | .min => "min"
  | .max => "max"
  | .bitAnd => "&"
  | .bitOr => "|"
  | .bitXor => "^"

/-- A `sum` or a `product`. -/
def isArithmetic (r : ReductionOperator) : Bool := r == .sum || r == .product

end ReductionOperator

/-- Where an accumulator lives. -/
inductive AccumulatorStorage where
  | register
  | memory
deriving DecidableEq, Repr

/-- A value that is folded over the iterations with its `operator`. -/
structure Accumulator where
  variableName : String
  operator  : ReductionOperator
  /-- The operand folded in by each iteration. -/
  addend    : Operand
  /-- The value at the end of an iteration. -/
  update    : ValueId
  /-- The previous value is read only by the update, and the update only feeds the next
  iteration. -/
  soleUse   : Bool
  storage   : AccumulatorStorage
deriving Repr

/-- A phi of the loop header other than the `inductionVariable`. -/
structure CarriedScalar where
  phi         : ValueId
  name        : String
  update      : Option Operand
  accumulator : Option Accumulator
deriving Repr

/-! ## §2 Matching -/

/-- The shape `previous ⊕ addend`, with the values that make up the expression. -/
structure Accumulation where
  operator   : ReductionOperator
  addend     : Operand
  expression : List ValueId
deriving Repr

/-- The reduction a binary operator stands for; `isSub` counts as a sum. -/
def BinaryOp.reduction? (op : BinaryOp) : Option ReductionOperator :=
  if op.isAdd || op.isSub then some .sum
  else if op.isMul then some .product
  else
    match op with
    | .and => some .bitAnd
    | .or => some .bitOr
    | .xor => some .bitXor
    | _ => none

/-- The reduction that a function of two arguments stands for, by a name with `max` or `min` in it.
-/
def calleeReduction? (callee : String) : Option ReductionOperator :=
  let name := Text.lower callee
  if Text.contains name "max" then some .max
  else if Text.contains name "min" then some .min
  else none

namespace LoopBody

/-- Reads the `definition` of `update` as `previous ⊕ addend`: a binary operator, a comparison with
a selection of the same operands, or a call of a minimum or maximum. -/
def matchAccumulation (lp : LoopBody) (previous update : ValueId) : Option Accumulation :=
  match lp.definition update with
  | some (.binary _ op lhs rhs) => do
    let addend ←
      if lhs.isValue previous then some rhs
      else if rhs.isValue previous && !op.isSub then some lhs
      else none
    return ⟨← op.reduction?, addend, [update]⟩
  | some (.select _ condition onTrue onFalse) => do
    let other ←
      if onTrue.isValue previous then some onFalse
      else if onFalse.isValue previous then some onTrue
      else none
    let comparison ← condition.value?
    match lp.definition comparison with
    | some (.compare _ predicate lhs rhs) =>
      let operandsMatch :=
        (lhs.isValue previous && rhs == other) || (rhs.isValue previous && lhs == other)
      if !operandsMatch || !(predicate.isGreater || predicate.isLess) then none
      else
        let picksLhs := onTrue == lhs
        let operator : ReductionOperator := if predicate.isGreater == picksLhs then .max else .min
        some ⟨operator, other, [update, comparison]⟩
    | _ => none
  | some (.call _ (some callee) [a, b] _) => do
    let operator ← calleeReduction? callee
    let addend ← [a, b].find? fun arg => !arg.isValue previous
    if [a, b].any (·.isValue previous) then some ⟨operator, addend, [update]⟩ else none
  | _ => none

/-- All of `usersOf` a value define one of the given values. -/
def usesConfined (lp : LoopBody) (v : ValueId) (expression : List ValueId) : Bool :=
  (lp.usersOf v).all fun user => user.result.any fun r => expression.contains r

/-- Whether an instruction is the phi of a value. -/
def isPhiOf (v : ValueId) : Instruction → Bool
  | .phi r _ => r == v
  | _ => false

/-- The accumulator behind a header phi that is updated with a value, if `matchAccumulation` finds
one. -/
def registerAccumulator? (lp : LoopBody) (phi update : ValueId) (name : String) :
    Option Accumulator := do
  let m ← lp.matchAccumulation phi update
  let soleUse := lp.usesConfined phi m.expression && (lp.usersOf update).all (isPhiOf phi)
  return { variableName := name, operator := m.operator, addend := m.addend, update, soleUse
           storage := .register }

/-- The phi of a carried scalar, with the accumulator behind what comes in along its `backEdge`. -/
def carriedScalar (lp : LoopBody) (phi : ValueId) (incoming : List (Operand × BlockId)) :
    CarriedScalar :=
  let name := lp.render (.value phi)
  let update := lp.backEdge incoming
  { phi, name, update
    accumulator := (update.bind Operand.value?).bind fun u => lp.registerAccumulator? phi u name }

/-- The `carriedScalar` that an instruction of the header is. -/
def carriedScalar? (lp : LoopBody) : Instruction → Option CarriedScalar
  | .phi r incoming =>
    if some r = lp.inductionVariable then none else some (lp.carriedScalar r incoming)
  | _ => none

/-- The phis of the loop header other than the induction variable, in order. -/
def carriedScalars (lp : LoopBody) : List CarriedScalar :=
  match lp.blocks.find? (·.id == lp.header) with
  | none => []
  | some header => header.instructions.filterMap lp.carriedScalar?

/-- The first read in the `sameLocation` that a store completes to an accumulation, and the shape of
it. -/
def matchedRead? (lp : LoopBody) (sites : List AccessSite) (write : AccessSite) (update : ValueId) :
    Option (ValueId × Accumulation) :=
  sites.findSome? fun read => do
    let loaded ← read.result
    if !read.isRead || write.order < read.order || !read.sameLocation write then none
    else return (loaded, ← lp.matchAccumulation loaded update)

/-- The accumulator behind a store to a place that is the same in every iteration, by its
`matchedRead?`. -/
def memoryAccumulator? (lp : LoopBody) (sites : List AccessSite) (write : AccessSite) :
    Option Accumulator := do
  let update ← write.value.bind Operand.value?
  let (loaded, m) ← lp.matchedRead? sites write update
  let soleUse := lp.usesConfined loaded m.expression && (lp.usersOf update).all (·.isStore)
  return { variableName := write.rendered, operator := m.operator, addend := m.addend
           update, soleUse, storage := .memory }

/-- The memory accumulators of a loop, each with the `order` of its store. -/
def memoryAccumulators (lp : LoopBody) (sites : List AccessSite) : List (Nat × Accumulator) :=
  (sites.filter fun s => s.isWrite && s.isUniform).filterMap fun write =>
    (lp.memoryAccumulator? sites write).map (write.order, ·)

end LoopBody

end LoopAnalysis
