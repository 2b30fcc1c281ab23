import LoopAnalysis.Pattern.Evidence
import LoopAnalysis.Profile.Nesting
import LoopAnalysis.Profile.Vectorization

/-!
# What recognizers look at

Everything about one loop that a recognizer may ask for, computed once.
-/

namespace LoopAnalysis

/-- A loop with its profiles, accesses and accumulators. -/
structure Scene where
  lp            : Loop
  memory        : MemoryProfile
  dependence    : DependenceProfile
  nesting       : NestPosition
  vectorization : VectorizationVerdict
  sites         : List AccessSite
  accumulators  : List Accumulator

namespace Scene

/-- The scene of a loop under given profiles, from which `VectorizationVerdict.assess` reads its
verdict. -/
def ofProfiles (lp : Loop) (memory : MemoryProfile) (dependence : DependenceProfile)
    (nesting : NestPosition) : Scene :=
  let sites := lp.accesses
  { lp, memory, dependence, nesting, sites
    vectorization := .assess memory dependence
    accumulators := lp.carriedScalars.filterMap (·.accumulator) ++
      (lp.memoryAccumulators sites).map (·.2) }

/-- The scene of a loop under its own profiles, by `ofProfiles`. -/
def of (lp : Loop) : Scene := ofProfiles lp lp.memoryProfile lp.dependenceProfile (.of lp)

/-- The induction variable, which most recognizers need, or `MissingStructure.inductionVariable`. -/
def inductionVariable (s : Scene) : Except MissingStructure ValueId :=
  match s.lp.inductionVariable with
  | some iv => .ok iv
  | none => .error .inductionVariable

/-- The value that the induction variable takes in the next iteration, along its `backEdge`. -/
def latchIncrement? (s : Scene) : Option ValueId := do
  let iv ← s.lp.inductionVariable
  match ← s.lp.definition iv with
  | .phi _ incoming => (s.lp.backEdge incoming).bind Operand.value?
  | _ => none

/-- Some instruction is a call. -/
def hasCalls (s : Scene) : Bool := s.lp.instructions.any (·.isCall)

/-- Some call is not known to be pure: it `hasSideEffects`. -/
def hasSideEffectCalls (s : Scene) : Bool :=
  s.lp.instructions.any fun i => i.isCall && i.hasSideEffects

/-- The loads. -/
def reads (s : Scene) : List AccessSite := s.sites.filter (·.isRead)

/-- The stores. -/
def writes (s : Scene) : List AccessSite := s.sites.filter (·.isWrite)

/-- How many arrays are accessed. -/
def distinctBases (s : Scene) : Nat := (Text.sortedSet (s.sites.map (·.base))).length

/-- Whether an operand is the `inductionVariable` of the loop, or a cast of it. -/
def isOwnIv (s : Scene) (op : Operand) : Bool :=
  match s.lp.inductionVariable with
  | none => false
  | some iv =>
    op.isValue iv ||
      match s.lp.definitionOf op with
      | some (.cast _ inner) => inner.isValue iv
      | _ => false

/-- Some stored operand has a `definitionOf` with a property. -/
def storesResultOf (s : Scene) (property : Instruction → Bool) : Bool :=
  s.writes.any fun w => (w.value.bind s.lp.definitionOf).any property

/-- Some product has a factor that `isConstant`, a number written in the program. -/
def multipliesByConstant (s : Scene) : Bool :=
  s.lp.instructions.any fun
    | .binary _ op lhs rhs => op.isMul && (lhs.isConstant || rhs.isConstant)
    | _ => false

/-- The level and the offset of an index that is one of the `nestIvs`, of this loop (level zero) or
of one around it, plus a constant. -/
def nestOffset? (s : Scene) (index : Operand) : Option (Nat × Int64) :=
  s.nesting.nestIvs.zipIdx.findSome? fun (iv, level) => do
    let a ← s.lp.affineIn index (← iv)
    if a.coefficient = 1 then some (level, a.offset) else none

end Scene

end LoopAnalysis
