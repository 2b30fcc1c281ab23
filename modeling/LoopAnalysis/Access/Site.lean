import LoopAnalysis.Access.Render

/-!
# Memory accesses

The loads and stores of a loop, each with its array and with its indices decoded relative to the
loop's induction variable.
-/

namespace LoopAnalysis

/-! ## §1 Index terms -/

/-- What an index does as the loop runs. -/
inductive IndexTerm where
  /-- `coefficient * iv + offset`, the coefficient not zero. -/
  | affine (coefficient offset : Int64)
  | invariant (text : String)
  /-- Varies with an inner loop only, so every iteration covers the same range. -/
  | swept (text : String)
  /-- Loaded from memory inside the loop. -/
  | indirect
  /-- Anything else. -/
  | unresolved
deriving DecidableEq, Repr

namespace IndexTerm

/-- The same places are touched in every iteration, by an `invariant` or a `swept` index. -/
def isUniform : IndexTerm → Bool
  | .invariant _ => true
  | .swept _ => true
  | _ => false

/-- The index is understood: it is neither `indirect` nor `unresolved`. -/
def isResolved : IndexTerm → Bool
  | .indirect => false
  | .unresolved => false
  | _ => true

/-- An affine index. -/
def isAffine : IndexTerm → Bool
  | .affine _ _ => true
  | _ => false

/-- An index that does not change. -/
def isInvariant : IndexTerm → Bool
  | .invariant _ => true
  | _ => false

end IndexTerm

/-- Whether an operand is computed inside the loop from something a `load` defines there. -/
def LoopBody.readsMemory (lp : LoopBody) : (levels : Nat) → Operand → Bool
  | 0, _ => false
  | levels + 1, op =>
    match op.value? with
    | none => false
    | some v =>
      if !lp.defines v then false
      else
        match lp.definition v with
        | some (.load _ _) => true
        | some (.cast _ operand) => lp.readsMemory levels operand
        | some (.binary _ _ lhs rhs) => lp.readsMemory levels lhs || lp.readsMemory levels rhs
        | _ => false

/-- What an index does, as far as the loop itself tells: invariant, affine in its induction variable
by `affineIn`, or loaded from memory by `readsMemory`. -/
def LoopBody.classifyOwn (lp : LoopBody) (index : Operand) : Option IndexTerm :=
  if lp.isInvariant index then some (.invariant (lp.render index))
  else
    let affine : Option IndexTerm := do
      let iv ← lp.inductionVariable
      let a ← lp.affineIn index iv
      if a.coefficient = 0 then none else some (.affine a.coefficient a.offset)
    match affine with
    | some term => some term
    | none => if lp.readsMemory exprLevels index then some .indirect else none

/-- What an index does as the loop runs: what `classifyOwn` says, or else whether one of `nestedIvs`
sweeps it. -/
def Loop.classifyIndex (lp : Loop) (index : Operand) : IndexTerm :=
  match lp.classifyOwn index with
  | some term => term
  | none =>
    let sweeps (iv : ValueId) : Bool :=
      (lp.affineWith iv lp.isOuterSymbol exprLevels index).any (·.coefficient != 0)
    if lp.nestedIvs.any sweeps then .swept (lp.render index) else .unresolved

/-! ## §2 Sites -/

/-- Whether memory is read or written. -/
inductive AccessKind where
  | read
  | write
deriving DecidableEq, Repr

/-- A load or a store of a loop. -/
structure AccessSite where
  kind          : AccessKind
  /-- The position of the instruction in body order. -/
  order         : Nat
  /-- The text of the array. -/
  base          : String
  baseInvariant : Bool
  indices       : List Operand
  terms         : List IndexTerm
  /-- The text of the whole access. -/
  rendered      : String
  /-- The operand a store writes. -/
  value         : Option Operand
  /-- The value a load defines. -/
  result        : Option ValueId
deriving Repr

namespace AccessSite

/-- A load. -/
def isRead (s : AccessSite) : Bool := s.kind == .read

/-- A store. -/
def isWrite (s : AccessSite) : Bool := s.kind == .write

/-- The same places are touched in every iteration: all `terms` are uniform, in an array that stays
where it is. -/
def isUniform (s : AccessSite) : Bool := s.baseInvariant && s.terms.all (·.isUniform)

/-- The same text in `rendered` and the very same index operands. -/
def sameLocation (s t : AccessSite) : Bool := s.rendered == t.rendered && s.indices == t.indices

end AccessSite

namespace Loop

/-- The array and the indices behind an address, by its `elementPtr`. -/
def resolveAddress (lp : Loop) (address : Operand) : Operand × List Operand :=
  match lp.definitionOf address with
  | some (.elementPtr _ base indices) => (base, indices)
  | _ => (address, [])

/-- The access through an address, whose array and indices `resolveAddress` finds. -/
def siteOf (lp : Loop) (kind : AccessKind) (order : Nat) (address : Operand)
    (value : Option Operand) (result : Option ValueId) : AccessSite :=
  let (base, indices) := lp.resolveAddress address
  { kind, order, indices, value, result
    base := lp.render base
    baseInvariant := lp.isInvariant base
    terms := indices.map lp.classifyIndex
    rendered := lp.render address }

/-- The access an instruction makes, if it is a `load` or a `store`. -/
def siteOf? (lp : Loop) (order : Nat) : Instruction → Option AccessSite
  | .load r address => some (lp.siteOf .read order address none (some r))
  | .store address v => some (lp.siteOf .write order address (some v) none)
  | _ => none

/-- The accesses of a loop in body order, one for each instruction with a `siteOf?`. -/
def accesses (lp : Loop) : List AccessSite :=
  lp.instructions.zipIdx.filterMap fun (i, order) => lp.siteOf? order i

end Loop

end LoopAnalysis
