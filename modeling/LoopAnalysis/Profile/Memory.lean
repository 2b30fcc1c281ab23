import LoopAnalysis.Access.Site
import LoopAnalysis.Text.Basic

/-!
# How a loop walks memory

Each access has a pattern, and the least predictable one stands for the loop.
-/

namespace LoopAnalysis

/-- How an access moves through memory. -/
inductive AccessPattern where
  | sequential
  | unitStride
  /-- The stride in elements; zero when each step crosses a whole row. -/
  | strided (stride : Int64)
  | gatherScatter
  | random
  | reduction
deriving DecidableEq, Repr

namespace AccessPattern

/-- Higher is less predictable. -/
def rank : AccessPattern → Nat
  | .sequential => 0
  | .unitStride => 1
  | .strided _ => 2
  | .reduction => 3
  | .gatherScatter => 4
  | .random => 5

/-- Neighbouring elements are touched one after the other: `sequential` or `unitStride`. -/
def isPredictable : AccessPattern → Bool
  | .sequential => true
  | .unitStride => true
  | _ => false

/-- The pattern in words. -/
def text : AccessPattern → String
  | .sequential => "sequential"
  | .unitStride => "unit-stride"
  | .strided stride =>
    if stride = 0 then "strided (row)" else "strided (" ++ toString stride.toInt ++ ")"
  | .gatherScatter => "gather/scatter"
  | .random => "random"
  | .reduction => "reduction"

/-- The less predictable of two patterns by `rank`, the second on a tie. -/
def worse (p q : AccessPattern) : AccessPattern := if p.rank ≤ q.rank then q else p

/-- The least predictable pattern of a list, the last one on a tie, by `worse`. -/
def worst? : List AccessPattern → Option AccessPattern
  | [] => none
  | p :: ps => some (ps.foldl worse p)

end AccessPattern

/-- How a loop walks memory. -/
structure MemoryProfile where
  primaryPattern : AccessPattern := .random
  /-- The share of accesses that are predictable. -/
  predictability : Float := 0.0
  isAliasing     : Bool := false
  /-- The arrays in ascending order. -/
  accessedArrays : List String := []
  accessCount    : Nat := 0

/-- The arrays of the accesses that are writes, by their `base`. -/
def writtenBases (sites : List AccessSite) : List String :=
  (sites.filter (·.isWrite)).map (·.base)

/-- The index that decides how an access moves, with those that follow it: the last one for which
`isUniform` fails. -/
def decidingTerm : List IndexTerm → Option (IndexTerm × List IndexTerm)
  | [] => none
  | t :: ts =>
    match decidingTerm ts with
    | some found => some found
    | none => if t.isUniform then none else some (t, ts)

/-- The pattern of a single access, given the arrays that are written to: that of its
`decidingTerm`. -/
def AccessSite.pattern (written : List String) (s : AccessSite) : AccessPattern :=
  if !s.baseInvariant then .random
  else if s.isUniform then
    if written.contains s.base then .reduction else .sequential
  else
    match decidingTerm s.terms with
    | none => .random
    | some (term, after) =>
      match term with
      | .indirect => .gatherScatter
      | .unresolved => .random
      | .affine coefficient offset =>
        if after.any (·.isInvariant) then .strided 0
        else if coefficient = 1 then
          if offset = 0 then .sequential else .unitStride
        else .strided coefficient
      | .invariant _ => .sequential
      | .swept _ => .sequential

/-- Some access may reach a place that another one reaches under a different name. -/
def mayAlias (sites : List AccessSite) : Bool :=
  sites.any (!·.baseInvariant) ||
    sites.any fun s => (writtenBases sites).contains s.base && s.terms.any (!·.isResolved)

/-- Keeps a double between two bounds; a value that is not a number stays as it is. -/
def clampFloat (lo hi x : Float) : Float := if x < lo then lo else if hi < x then hi else x

/-- How a loop with the given accesses walks memory; the `worst?` of their patterns stands for it.
-/
def MemoryProfile.ofSites (hasIv : Bool) (sites : List AccessSite) : MemoryProfile :=
  let arrays := Text.sortedSet (sites.map (·.base))
  if !hasIv || sites.isEmpty then { accessedArrays := arrays, accessCount := sites.length }
  else
    let patterns := sites.map (AccessSite.pattern (writtenBases sites))
    let predictable := (patterns.filter (·.isPredictable)).length
    { primaryPattern := (AccessPattern.worst? patterns).getD .random
      predictability := clampFloat 0.0 1.0 (Float.ofNat predictable / Float.ofNat patterns.length)
      isAliasing := mayAlias sites
      accessedArrays := arrays
      accessCount := sites.length }

/-- How a loop walks memory, with its own `accesses`. -/
def Loop.memoryProfile (lp : Loop) : MemoryProfile :=
  .ofSites lp.inductionVariable.isSome lp.accesses

end LoopAnalysis
