import LoopAnalysis.Profile.Memory
import LoopAnalysis.Profile.Dependence

/-!
# Vectorization

Whether a loop can be run on vectors, read off a table over its memory and dependence profiles.
-/

namespace LoopAnalysis

/-- Whether and how well a loop can be vectorized. -/
structure VectorizationVerdict where
  vectorizable     : Bool
  recommendedWidth : Nat
  requiresGather   : Bool
  expectedSpeedup  : Float
  limitations      : String

namespace VectorizationVerdict

/-- What stands in the way of vectorizing: a dependence that is not `eliminable`, or else the access
pattern. -/
def limitation (pattern : AccessPattern) (dep : DependenceProfile) : String :=
  if !dep.kind.isSafe && !dep.eliminable then
    if 0 < dep.distance then
      "Loop-carried " ++ dep.kind.text ++ " dependency (distance " ++ toString dep.distance ++ ")"
    else "Loop-carried " ++ dep.kind.text ++ " dependency"
  else
    match pattern with
    | .gatherScatter => "Indirect (gather/scatter) memory access"
    | .random => "Unpredictable memory access pattern"
    | .reduction => "Accumulation into a single memory location"
    | .unitStride => "Offset neighbour accesses overlap across lanes"
    | _ => "Complex memory access pattern or dependencies"

/-- A loop that is run one element at a time. -/
def scalar (requiresGather : Bool) (limitations : String) : VectorizationVerdict :=
  ⟨false, 1, requiresGather, 1.0, limitations⟩

/-- Assesses a loop from its two profiles, by a table over the `primaryPattern`. -/
def assess (mem : MemoryProfile) (dep : DependenceProfile) : VectorizationVerdict :=
  let gather := mem.primaryPattern == .gatherScatter
  match mem.primaryPattern with
  | .sequential =>
    if dep.kind.isSafe then ⟨true, 4, gather, 3.5, "None"⟩
    else if dep.eliminable then
      ⟨true, 4, gather, 2.5, "Loop-carried accumulator requires reduction privatization"⟩
    else scalar gather (limitation .sequential dep)
  | .strided stride =>
    if dep.kind.isSafe then ⟨true, 2, gather, 1.8, "Strided access reduces efficiency"⟩
    else scalar gather (limitation (.strided stride) dep)
  | pattern => scalar gather (limitation pattern dep)

end VectorizationVerdict

end LoopAnalysis
