import LoopAnalysis.Program.Function
import LoopAnalysis.Program.Loop

/-!
# The loops of a function

Turns the loop entries of a function, which refer to each other by position, into loops within
their nests. A position that names no loop is a broken link.

## Main definitions

- `Function.loop?`: the loop at a position, seen in one of three ways;
- `Function.loopsInOrder`: every loop, an outer loop before those inside it, or the broken link
  that stands in the way;
- `Function.brokenAncestor`, `Function.brokenChild`, `Function.brokenChain`,
  `Function.brokenBelow`: the broken links on the ways that analyses take through a nest.
-/

namespace LoopAnalysis

/-- How much a loop offers of the function it belongs to. -/
inductive LoopView where
  /-- Everything, with membership and definitions answered from the tables of the function. -/
  | indexed
  /-- Only what every host has to offer: no names, no source location, membership by scanning. -/
  | scanned
  /-- As `scanned`, without an induction variable and outside of any nest. -/
  | detached
deriving DecidableEq, Repr

/-- A loop refers to a position at which there is no loop. -/
structure BrokenLink where
  position : Nat
deriving DecidableEq, Repr

namespace Function

/-! ## §1 Single loops -/

/-- A `LoopBody` for the entry of a loop, under a view. -/
def body (f : Function) (view : LoopView) (entry : LoopEntry) : LoopBody :=
  match view with
  | .indexed =>
    { header := entry.header
      blocks := f.blocksOf entry
      inductionVariable := entry.inductionVariable
      definition := f.definition?
      functionName := f.name
      location := f.locationOf entry
      valueName := f.valueName?
      containsBlock := fun b => entry.blocks.contains b
      defines := fun v => (f.definedAt? v).any fun (b, _) => entry.blocks.contains b }
  | .scanned =>
    { header := entry.header
      blocks := f.blocksOf entry
      inductionVariable := entry.inductionVariable
      definition := f.definition?
      functionName := f.name }
  | .detached =>
    { header := entry.header
      blocks := f.blocksOf entry
      inductionVariable := none
      definition := f.definition?
      functionName := f.name }

/-! ## §2 Links between loops -/

/-- How many loops a loop contains, by its `children`. Seen through the tables of its function, a
link counts even where it is broken. -/
def subLoopCount (f : Function) (view : LoopView) (e : LoopEntry) : Nat :=
  match view with
  | .indexed => e.children.length
  | _ => (e.children.filter (· < f.loops.length)).length

/-- The loops around a loop, given its parent. The chain ends where a link is broken; a function
has no longer chain than it has loops. -/
def enclosingFrom (f : Function) (view : LoopView) :
    (fuel : Nat) → Option Nat → List EnclosingLoop
  | _, none => []
  | 0, some _ => []
  | fuel + 1, some p =>
    match f.loops[p]? with
    | none => []
    | some e =>
      ⟨e.header, e.inductionVariable, f.subLoopCount view e⟩ :: f.enclosingFrom view fuel e.parent

/-- What stands at a broken link among `subLoops`, so that the link is counted: a loop without
blocks. -/
def vacant (f : Function) : Loop :=
  { header := ⟨0⟩, blocks := [], inductionVariable := none, definition := f.definition?
    functionName := f.name, enclosing := [], subLoops := [] }

/-- The loop at a position with what `enclosingFrom` finds around it and the loops inside it, down
to a number of levels. -/
def loopAt (f : Function) (view : LoopView) : (levels : Nat) → Nat → Option Loop
  | 0, _ => none
  | levels + 1, p => do
    let e ← f.loops[p]?
    let enclosing := if view = .detached then [] else f.enclosingFrom view f.loops.length e.parent
    let subLoops := match view with
      | .indexed => e.children.map fun c => (f.loopAt view levels c).getD f.vacant
      | .scanned => e.children.filterMap (f.loopAt view levels)
      | .detached => []
    return { f.body view e with enclosing, subLoops }

/-- The loop at a position, by `loopAt`. A nest has no more levels than the function has loops. -/
def loop? (f : Function) (view : LoopView) (p : Nat) : Option Loop :=
  f.loopAt view f.loops.length p

/-- The first `BrokenLink` on the way from a parent to the outermost loop. -/
def brokenAbove (f : Function) : (fuel : Nat) → Option Nat → Option BrokenLink
  | _, none => none
  | 0, some p => some ⟨p⟩
  | fuel + 1, some p =>
    match f.loops[p]? with
    | none => some ⟨p⟩
    | some e => f.brokenAbove fuel e.parent

/-- The first broken link on the way from a loop to the outermost one, by `brokenAbove` from its
parent. -/
def brokenAncestor (f : Function) (p : Nat) : Option BrokenLink :=
  f.brokenAbove f.loops.length ((f.loops[p]?).bind (·.parent))

/-- The first of the `children` of a loop that is a broken link. -/
def brokenChild (f : Function) (p : Nat) : Option BrokenLink :=
  ((f.loops[p]?).bind (·.children.find? (f.loops.length ≤ ·))).map BrokenLink.mk

/-- The first broken link along the chain of single loops that starts at a position, which has no
more levels than the function has loops. -/
def brokenChain (f : Function) : (levels : Nat) → Nat → Option BrokenLink
  | 0, p => some ⟨p⟩
  | levels + 1, p =>
    match f.loops[p]? with
    | none => some ⟨p⟩
    | some e =>
      match e.children with
      | [c] => f.brokenChain levels c
      | _ => none

/-! ## §3 All loops -/

/-- The positions of a loop and of every loop inside it, outer ones first. -/
def preorderFrom (f : Function) : (levels : Nat) → Nat → Except BrokenLink (List Nat)
  | 0, p => .error ⟨p⟩
  | levels + 1, p =>
    match f.loops[p]? with
    | none => .error ⟨p⟩
    | some e => do
      let below ← e.children.mapM (f.preorderFrom levels)
      return p :: below.flatten

/-- The first broken link at a position or anywhere below it, where `preorderFrom` stops. -/
def brokenBelow (f : Function) (p : Nat) : Option BrokenLink :=
  match f.preorderFrom (f.loops.length + 1) p with
  | .ok _ => none
  | .error link => some link

/-- The positions of all loops, by `preorderFrom` each of the `topLevel` ones: outer loops first and
siblings in order. -/
def preorder (f : Function) : Except BrokenLink (List Nat) := do
  let trees ← f.topLevel.mapM (f.preorderFrom f.loops.length)
  return trees.flatten

/-- All loops with their positions in `preorder`. When a loop is seen through the tables of its
function, every link around it has to hold, so that `brokenAncestor` finds none. -/
def loopsInOrder (f : Function) (view : LoopView) : Except BrokenLink (List (Nat × Loop)) := do
  let positions ← f.preorder
  if view = .indexed then
    match positions.findSome? f.brokenAncestor with
    | some link => throw link
    | none => pure ()
  return positions.filterMap fun p => (f.loop? view p).map (p, ·)

end Function

end LoopAnalysis
