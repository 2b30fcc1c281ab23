import LoopAnalysis.Program.Codec
import LoopAnalysis.Program.Nest

/-!
# Listing a function
-/

namespace LoopAnalysis

open Json

namespace Function

/-- How many values are looked at for their names in a listing. -/
def listedValues : Nat := 200

/-- The listing of the `LoopEntry` at a position, unless a link above it is broken. -/
def listLoop (f : Function) (position : Nat) (e : LoopEntry) : Except BrokenLink Json := do
  match f.brokenAncestor position with
  | some link => throw link
  | none => pure ()
  return .obj [("header", e.header.toJson), ("blocks", .arr (e.blocks.map BlockId.toJson)),
    ("iv", ofOption ValueId.toJson e.inductionVariable), ("parent", ofOption ofNat e.parent),
    ("children", .arr (e.children.map ofNat)), ("line", ofOption ofNat e.line),
    ("depth", ofNat ((f.enclosingFrom .indexed f.loops.length e.parent).length + 1)),
    ("index", ofNat position), ("location", ofOption SourceLocation.toJson (f.locationOf e))]

/-- The names of the first `listedValues` values. -/
def listNames (f : Function) : List Json :=
  (List.range listedValues).filterMap fun n =>
    (f.valueName? ⟨n⟩).map fun name => .arr [ofNat n, .str name]

/-- The blocks, names and loops of a function. -/
def list (f : Function) : Except BrokenLink Json := do
  let loops ← f.loops.zipIdx.mapM fun (e, position) => f.listLoop position e
  let preorder ← f.preorder
  return .obj [("name", .str f.name), ("file", ofOption .str f.file),
    ("blocks", .arr (f.blocks.map fun b =>
      .obj [("block", b.toJson), ("successors", .arr (b.successors.map BlockId.toJson))])),
    ("names", .arr f.listNames), ("loops", .arr loops), ("preorder", .arr (preorder.map ofNat)),
    ("top_level", .arr (f.topLevel.map ofNat))]

end Function

end LoopAnalysis
