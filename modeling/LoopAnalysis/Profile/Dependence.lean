import LoopAnalysis.Access.Recurrence

/-!
# Dependences between iterations

Every store is compared with every other access of the same array. Affine indices with equal
coefficients give the exact distance in iterations; whatever cannot be resolved makes the loop
ambiguous, and so does a call that is not known to be pure.

## Main definitions

- `relate`: how the places touched by two accesses lie to each other;
- `DependenceProfile.of`: the dependences of a loop and their summary.
-/

namespace LoopAnalysis

/-! ## §1 Kinds and profiles -/

/-- How iterations depend on each other. -/
inductive DependenceKind where
  | independent
  | readOnly
  /-- An iteration overwrites what an earlier one read. -/
  | war
  /-- An iteration reads what an earlier one wrote. -/
  | raw
  /-- Two iterations write the same place. -/
  | waw
  | complexFlow
deriving DecidableEq, Repr

namespace DependenceKind

/-- All kinds. -/
def all : List DependenceKind := [.independent, .readOnly, .war, .raw, .waw, .complexFlow]

/-- Iterations may run in any order: the kind is `independent` or `readOnly`. -/
def isSafe (k : DependenceKind) : Bool := k == .independent || k == .readOnly

/-- The kind in words. -/
def text : DependenceKind → String
  | .independent => "no loop-carried dependency"
  | .readOnly => "read-only"
  | .war => "write-after-read"
  | .raw => "read-after-write"
  | .waw => "write-after-write"
  | .complexFlow => "complex flow"

end DependenceKind

/-- One dependence between iterations. -/
structure CarriedDependence where
  kind         : DependenceKind
  distance     : Nat
  variableName : String
  operator     : Option ReductionOperator := none
  /-- It goes away when each worker has a copy of its own. -/
  privatizable : Bool := false
deriving DecidableEq, Repr

/-- The dependences of a loop and their summary. -/
structure DependenceProfile where
  kind               : DependenceKind
  distance           : Nat
  eliminable         : Bool
  /-- The variables and callees involved, in ascending order. -/
  dependentVariables : List String
  carried            : List CarriedDependence
deriving Repr

namespace DependenceProfile

/-- A loop that writes nothing and carries nothing. -/
def readOnly : DependenceProfile := ⟨.readOnly, 0, false, [], []⟩

/-- The one accumulator of a profile whose dependence is `eliminable`. -/
def accumulator? (p : DependenceProfile) : Option CarriedDependence :=
  if p.eliminable then p.carried.head? else none

end DependenceProfile

/-! ## §2 Two accesses -/

/-- How the places touched by two accesses lie to each other. -/
inductive Relation where
  | independent
  | sameIteration
  /-- The second access touches the first one's place that many iterations later. -/
  | distance (d : Int64)
  /-- Both touch one place in every iteration. -/
  | uniform
deriving DecidableEq, Repr

/-- Why two accesses cannot be compared. -/
inductive Ambiguity where
  | varyingBase
  | indexShapes
  | overflow
  | invariantIndices
  | unresolvedOverlap
deriving DecidableEq, Repr

/-- What one dimension says about two accesses. -/
inductive DimensionRelation where
  /-- The indices never meet. -/
  | apart
  /-- The indices may meet in any two iterations. -/
  | free
  /-- The indices meet exactly that many iterations apart. -/
  | shift (d : Int64)
deriving DecidableEq, Repr

/-- Compares one dimension of two accesses. -/
def relateDimension (a b : IndexTerm) (x y : Operand) : Except Ambiguity DimensionRelation :=
  match a, b with
  | .affine ca oa, .affine cb ob =>
    if ca = cb then
      match Word.sub? oa ob with
      | none => .error .overflow
      | some delta =>
        match Word.rem? delta ca, Word.div? delta ca with
        | some r, some d => if r = 0 then .ok (.shift d) else .ok .apart
        | _, _ => .error .overflow
    else .error .unresolvedOverlap
  | .invariant _, .invariant _ =>
    if x == y then .ok .free
    else
      match x, y with
      | .int _, .int _ => .ok .apart
      | _, _ => .error .invariantIndices
  | .swept _, .swept _ => .ok .free
  | .invariant _, .swept _ => .ok .free
  | .swept _, .invariant _ => .ok .free
  | _, _ => .error .unresolvedOverlap

/-- Compares the dimensions of two accesses from the left with `relateDimension`, given the distance
found so far. -/
def relateDimensions : Option Int64 → List ((IndexTerm × IndexTerm) × (Operand × Operand)) →
    Except Ambiguity Relation
  | none, [] => .ok .uniform
  | some d, [] => .ok (if d = 0 then .sameIteration else .distance d)
  | found, ((a, b), (x, y)) :: rest =>
    match relateDimension a b x y with
    | .error e => .error e
    | .ok .apart => .ok .independent
    | .ok .free => relateDimensions found rest
    | .ok (.shift d) =>
      match found with
      | none => relateDimensions (some d) rest
      | some previous => if previous = d then relateDimensions (some d) rest else .ok .independent

/-- How the places touched by two accesses of one array lie to each other, by `relateDimensions`
over their terms. -/
def relate (first second : AccessSite) : Except Ambiguity Relation :=
  if !first.baseInvariant || !second.baseInvariant then .error .varyingBase
  else if first.terms.length ≠ second.terms.length then .error .indexShapes
  else relateDimensions none
    ((first.terms.zip second.terms).zip (first.indices.zip second.indices))

/-! ## §3 All accesses -/

/-- Dependences found, and whether something could not be resolved. -/
structure Findings where
  carried   : List CarriedDependence := []
  ambiguous : Bool := false
deriving Repr

namespace Findings

/-- Findings of one thing after the other. -/
def append (f g : Findings) : Findings := ⟨f.carried ++ g.carried, f.ambiguous || g.ambiguous⟩

/-- Findings of many things in order. -/
def concat (fs : List Findings) : Findings := fs.foldl append {}

/-- A single dependence. -/
def one (d : CarriedDependence) : Findings := ⟨[d], false⟩

/-- Nothing but doubt. -/
def doubt : Findings := ⟨[], true⟩

end Findings

/-- The largest distance that is recorded. -/
def distanceLimit : Nat := 4294967295

/-- A store compared by `relate` with itself in other iterations. -/
def relateSelf (write : AccessSite) : Findings :=
  match relate write write with
  | .ok .uniform => .one { kind := .waw, distance := 1, variableName := write.base }
  | .ok _ => {}
  | .error _ => .doubt

/-- A store and another access that meet a fixed number of iterations apart, recorded up to
`distanceLimit`. -/
def shiftedDependence (write other : AccessSite) (d : Int64) : CarriedDependence :=
  { kind := if other.isRead then (if 0 < d.toInt then .raw else .war) else .waw
    distance := min (Word.magnitude d) distanceLimit
    variableName := write.base }

/-- A store and another access of one place. A read before the store of an accumulator is the
accumulation itself. -/
def uniformDependence (write other : AccessSite) (accumulator : Option Accumulator) :
    CarriedDependence :=
  let kind : DependenceKind :=
    if other.isWrite then .waw else if other.order < write.order then .raw else .war
  match accumulator, kind with
  | some acc, .raw =>
    { kind, distance := 1, variableName := acc.variableName, operator := some acc.operator
      privatizable := acc.soleUse }
  | _, _ => { kind, distance := 1, variableName := write.base }

/-- A store compared with an access by `relate`. Two stores are compared once, and a store that
completes an accumulator is not compared with itself. -/
def relatePair (write : AccessSite) (accumulator : Option Accumulator) (other : AccessSite) :
    Findings :=
  if other.order = write.order then
    if accumulator.isNone then relateSelf write else {}
  else if other.isWrite && other.order < write.order then {}
  else if other.base ≠ write.base then
    if write.baseInvariant && other.baseInvariant then {} else .doubt
  else
    match relate write other with
    | .ok .independent => {}
    | .ok .sameIteration => {}
    | .ok (.distance d) => .one (shiftedDependence write other d)
    | .ok .uniform => .one (uniformDependence write other accumulator)
    | .error _ => .doubt

/-- The accumulator that a store completes, by the `order` of the store. -/
def accumulatorAt? (accumulators : List (Nat × Accumulator)) (write : AccessSite) :
    Option Accumulator :=
  (accumulators.find? (·.1 == write.order)).map (·.2)

/-- Every store compared with every access by `relatePair`. -/
def memoryFindings (accumulators : List (Nat × Accumulator)) (sites : List AccessSite) : Findings :=
  .concat ((sites.filter (·.isWrite)).flatMap fun write =>
    sites.map (relatePair write (accumulatorAt? accumulators write)))

/-- The dependence that a carried scalar is; it is privatizable where its accumulator has `soleUse`.
-/
def CarriedScalar.dependence (s : CarriedScalar) : CarriedDependence :=
  { kind := .raw, distance := 1, variableName := s.name
    operator := s.accumulator.map (·.operator)
    privatizable := s.accumulator.any (·.soleUse) }

/-- The callees of each `call` that is not known to be pure. -/
def LoopBody.impureCallees (lp : LoopBody) : List String :=
  lp.instructions.filterMap fun
    | .call _ callee _ false => some (callee.getD "<indirect call>")
    | _ => none

/-- The `DependenceKind` that stands for a set of dependences. -/
def summaryKind (f : Findings) : DependenceKind :=
  let has (k : DependenceKind) : Bool := f.carried.any (·.kind == k)
  if f.ambiguous || (has .raw && has .war) then .complexFlow
  else if has .raw then .raw
  else if has .war then .war
  else if has .waw then .waw
  else .independent

/-- The smallest distance, or zero without dependences. -/
def leastDistance (carried : List CarriedDependence) : Nat :=
  ((carried.map (·.distance)).min?).getD 0

/-- A lone dependence that is `privatizable`, with nothing in doubt. -/
def isEliminable (f : Findings) : Bool :=
  !f.ambiguous &&
    match f.carried with
    | [d] => d.privatizable
    | _ => false

/-- The `DependenceProfile` of what was found, with the callees of impure calls. -/
def Findings.summarize (f : Findings) (effects : List String) : DependenceProfile :=
  { kind := summaryKind f
    distance := leastDistance f.carried
    eliminable := isEliminable f
    dependentVariables := Text.sortedSet (f.carried.map (·.variableName) ++ effects)
    carried := f.carried }

/-- The findings of a loop: its `impureCallees`, then the `memoryFindings`, then its
`carriedScalars`. -/
def LoopBody.findings (lp : LoopBody) (sites : List AccessSite) : Findings :=
  .concat [
    { ambiguous := !lp.impureCallees.isEmpty },
    memoryFindings (lp.memoryAccumulators sites) sites,
    { carried := lp.carriedScalars.map CarriedScalar.dependence }]

/-- The dependences of a loop with the given accesses, by its `findings`. -/
def DependenceProfile.ofSites (lp : LoopBody) (sites : List AccessSite) : DependenceProfile :=
  if !(sites.any (·.isWrite)) && lp.carriedScalars.isEmpty && lp.impureCallees.isEmpty then readOnly
  else (lp.findings sites).summarize lp.impureCallees

/-- The dependences of a loop with its own `accesses`. -/
def Loop.dependenceProfile (lp : Loop) : DependenceProfile :=
  .ofSites lp.toLoopBody lp.accesses

end LoopAnalysis
