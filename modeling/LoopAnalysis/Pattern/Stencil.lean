import LoopAnalysis.Pattern.Scene

/-!
# Stencils

The neighbourhood a loop reads of one array: three or more distinct vectors of small offsets from
the induction variables of the nest, at least one offset not zero.
-/

namespace LoopAnalysis

/-- Offsets beyond this are not neighbours. -/
def stencilRadius : Nat := 3

/-- One level and offset for each dimension. -/
abbrev OffsetVector := List (Nat × Int64)

namespace Scene

/-- The offsets at which an access reads, if every index has a `nestOffset?`. -/
def offsets? (s : Scene) (read : AccessSite) : Option OffsetVector :=
  if read.baseInvariant && !read.indices.isEmpty then read.indices.mapM s.nestOffset? else none

/-- The distinct `offsets?` at which an array is read. -/
def pointsOf (s : Scene) (array : String) : List OffsetVector :=
  ((s.reads.filter (·.base == array)).filterMap s.offsets?).eraseDups

/-- The arrays of the `reads`, in ascending order. -/
def readArrays (s : Scene) : List String := Text.sortedSet (s.reads.map (·.base))

end Scene

/-- Whether vectors of offsets make up a stencil: three or more, all offsets within `stencilRadius`,
one of them not zero. -/
def isStencil (points : List OffsetVector) : Bool :=
  3 ≤ points.length &&
    points.flatten.all (fun (_, offset) => Word.magnitude offset ≤ stencilRadius) &&
    points.flatten.any (fun (_, offset) => offset != 0)

/-- The `StencilShape` of the neighbourhood that vectors of offsets make up. -/
def StencilShape.ofPoints (array : String) (points : List OffsetVector) : StencilShape :=
  { array
    points := points.length
    radius := ((points.flatten.map fun (_, offset) => Word.magnitude offset).max?).getD 0
    dimensions := (((points.flatten.filter (·.2 != 0)).map (·.1)).eraseDups).length }

/-- The shape with the most points, the last one on a tie. -/
def StencilShape.largest? : List StencilShape → Option StencilShape
  | [] => none
  | shape :: shapes =>
    some (shapes.foldl (fun best next => if best.points ≤ next.points then next else best) shape)

/-- The largest neighbourhood that a loop reads of one of its `readArrays`. -/
def Scene.stencilShape? (s : Scene) : Option StencilShape :=
  StencilShape.largest? (s.readArrays.filterMap fun array =>
    let points := s.pointsOf array
    if isStencil points then some (.ofPoints array points) else none)

end LoopAnalysis
