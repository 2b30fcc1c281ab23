import LoopAnalysis.Program.Loop
import LoopAnalysis.Word

/-!
# Affine expressions

Follows the definitions of an operand through casts, sums, differences, products and shifts and
reduces it to `coefficient * iv + offset`. Definitions may be cyclic, so at most nine levels of
them are unfolded, and every step is checked against the range of a 64-bit word.
-/

namespace LoopAnalysis

/-- The number of levels that are unfolded when an expression is read. -/
def exprLevels : Nat := 9

/-- The expression `coefficient * iv + offset`. -/
structure Affine where
  coefficient : Int64
  offset      : Int64
deriving DecidableEq, Repr

namespace Affine

/-- An expression without the induction variable. -/
def constant (c : Int64) : Affine := ⟨0, c⟩

/-- The induction variable itself. -/
def iteration : Affine := ⟨1, 0⟩

/-- Sum by `Word.add?`, term by term. -/
def add? (a b : Affine) : Option Affine := do
  return ⟨← Word.add? a.coefficient b.coefficient, ← Word.add? a.offset b.offset⟩

/-- Difference by `Word.sub?`, term by term. -/
def sub? (a b : Affine) : Option Affine := do
  return ⟨← Word.sub? a.coefficient b.coefficient, ← Word.sub? a.offset b.offset⟩

/-- Product with a constant, by `Word.mul?`. -/
def scale? (a : Affine) (c : Int64) : Option Affine := do
  return ⟨← Word.mul? a.coefficient c, ← Word.mul? a.offset c⟩

/-- The expression an operator makes of two expressions. A product needs a constant side that is
not symbolic, a shift a constant distance below 32. -/
def combine? (op : BinaryOp) (l r : Affine) (lSymbolic rSymbolic : Bool) : Option Affine :=
  match op with
  | .add => l.add? r
  | .sub => l.sub? r
  | .mul =>
    if l.coefficient = 0 && !lSymbolic then r.scale? l.offset
    else if r.coefficient = 0 && !rSymbolic then l.scale? r.offset
    else none
  | .shl =>
    if r.coefficient = 0 && 0 ≤ r.offset.toInt && r.offset.toInt < 32 then
      l.scale? (Int64.ofInt (Nat.pow 2 r.offset.toInt.toNat))
    else none
  | _ => none

end Affine

namespace LoopBody

/-- The affine form of an operand in `iv`, with `Affine.combine?` at each operator. Operands of an
operator that `symbolic` accepts count as terms that contribute neither to the coefficient nor to
the offset. -/
def affineWith (lp : LoopBody) (iv : ValueId) (symbolic : Operand → Bool) :
    (levels : Nat) → Operand → Option Affine
  | 0, _ => none
  | levels + 1, op =>
    match op with
    | .int c => some (.constant c)
    | .float _ => none
    | .symbol _ => none
    | .value v =>
      if v = iv then some .iteration
      else
        match lp.definition v with
        | some (.cast _ operand) => lp.affineWith iv symbolic levels operand
        | some (.binary _ op lhs rhs) => do
          let l ← if symbolic lhs && !lhs.isValue iv then some (.constant 0)
            else lp.affineWith iv symbolic levels lhs
          let r ← if symbolic rhs && !rhs.isValue iv then some (.constant 0)
            else lp.affineWith iv symbolic levels rhs
          Affine.combine? op l r (symbolic lhs) (symbolic rhs)
        | _ => none

/-- The affine form of an operand in `iv`, if it has one with constant terms down to `exprLevels`.
-/
def affineIn (lp : LoopBody) (op : Operand) (iv : ValueId) : Option Affine :=
  lp.affineWith iv (fun _ => false) exprLevels op

/-- An operand that `isInvariant`, but not one written in the program. -/
def isOuterSymbol (lp : LoopBody) (op : Operand) : Bool := !op.isConstant && lp.isInvariant op

end LoopBody

end LoopAnalysis
