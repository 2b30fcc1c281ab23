import LoopAnalysis.Program.Loop

/-!
# The place of a loop in its nest
-/

namespace LoopAnalysis

/-- Where a loop stands in its nest. -/
structure NestPosition where
  /-- One for an outermost loop. -/
  depth        : Nat
  subLoopCount : Nat
  /-- How many loops around it, counted outwards, contain exactly one loop each. -/
  perfectAbove : Nat
  /-- How many levels below it form a chain of single loops. -/
  perfectBelow : Nat
  /-- The induction variables of the loop and of those around it, from the inside out. -/
  nestIvs      : List (Option ValueId)
deriving Repr

namespace NestPosition

/-- The place of a loop, read off the loops `enclosing` it and its `subLoops`. -/
def of (lp : Loop) : NestPosition :=
  { depth := lp.depth
    subLoopCount := lp.subLoops.length
    perfectAbove := (lp.enclosing.takeWhile (·.subLoopCount == 1)).length
    perfectBelow := lp.perfectBelow
    nestIvs := lp.inductionVariable :: lp.enclosing.map (·.inductionVariable) }

/-- The loop contains no other, so its `subLoopCount` is zero. -/
def isInnermost (p : NestPosition) : Bool := p.subLoopCount == 0

/-- How many levels the chain of single loops has that the loop belongs to: those of `perfectAbove`
and `perfectBelow`, and its own. -/
def perfectChainLength (p : NestPosition) : Nat := p.perfectAbove + 1 + p.perfectBelow

/-- Either loop of a nest of two. -/
def isTwoLevelNest (p : NestPosition) : Bool :=
  (p.depth == 2 && p.isInnermost && p.perfectAbove == 1) ||
    (p.depth == 1 && p.perfectBelow == 1 && p.subLoopCount == 1)

/-- The loop is inside another or contains one. -/
def isNested (p : NestPosition) : Bool := 1 < p.depth || 0 < p.subLoopCount

end NestPosition

end LoopAnalysis
