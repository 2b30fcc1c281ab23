import LoopAnalysis.Program.Instruction
import Mathlib.Tactic.Common

/-!
# Comparing operands

Operands are compared as the program would compare them, so the comparison is not equality where
fractional constants are concerned: zero has two signs, and a constant that is not a number differs
from itself. It is still symmetric, and among all other operands it is equality.

## Main statements

- `Operand.beq_symm`: the comparison is symmetric;
- `Operand.eq_or_float_of_beq`: operands that compare equal are equal or fractional constants.
-/

namespace LoopAnalysis

open Float.Model in
private theorem compare_symm {a b : UnpackedFloat} (h : a.compare b = some .eq) :
    b.compare a = some .eq := by
  cases a with
  | notANumber => cases h
  | infinity s =>
    cases b with
    | notANumber => cases h
    | infinity t => cases s <;> cases t <;> cases h <;> rfl
    | zero => cases s <;> cases h
    | finite => cases s <;> cases h
  | zero s =>
    cases b with
    | notANumber => cases h
    | infinity t => cases t <;> cases h
    | zero => rfl
    | finite t => cases t <;> cases h
  | finite s m e =>
    cases b with
    | notANumber => cases h
    | infinity t => cases s <;> cases t <;> cases h
    | zero => cases s <;> cases h
    | finite t n f =>
      -- Two numbers of one sign are equal only if exponent and mantissa are.
      have hcompare : s = t ∧ (compare e f).then (compare m n) = .eq := by
        cases s <;> cases t
        · exact ⟨rfl, Ordering.swap_eq_eq.mp (Option.some.inj h)⟩
        · cases h
        · cases h
        · exact ⟨rfl, Option.some.inj h⟩
      obtain ⟨rfl, hthen⟩ := hcompare
      have heq : e = f ∧ m = n := by simpa using hthen
      obtain ⟨rfl, rfl⟩ := heq
      exact h

theorem float_beq_symm {x y : Float} (h : (x == y) = true) : (y == x) = true := by
  have hcompare : x.toModel.unpack.compare y.toModel.unpack = some .eq := beq_iff_eq.mp h
  have hback : (y.toModel.unpack.compare x.toModel.unpack == some .eq) = true :=
    beq_iff_eq.mpr (compare_symm hcompare)
  exact hback

namespace Operand

variable {x y : Operand}

theorem eq_or_float_of_beq (h : (x == y) = true) :
    x = y ∨ ∃ a b, x = .float a ∧ y = .float b ∧ (a == b) = true := by
  -- Operands of two kinds never compare equal, and only fractions are compared as floats.
  cases x <;> cases y <;> simp [BEq.beq, instBEqOperand.beq] at h
  · exact .inl (by rw [h])
  · exact .inl (by rw [h])
  · exact .inr ⟨_, _, rfl, rfl, h⟩
  · exact .inl (by rw [h])

theorem beq_symm (h : (x == y) = true) : (y == x) = true := by
  rcases eq_or_float_of_beq h with rfl | ⟨a, b, rfl, rfl, hab⟩
  · exact h
  · exact float_beq_symm hab

/-- What compares equal to `value v` is that value. -/
theorem eq_value_of_beq {v : ValueId} (h : (x == .value v) = true) : x = .value v := by
  rcases eq_or_float_of_beq h with rfl | ⟨a, b, -, hb, -⟩
  · rfl
  · cases hb

/-- A `float` constant, the one kind of operand on which the comparison is not equality. -/
def isFractional : Operand → Bool
  | .float _ => true
  | _ => false

/-- Every operand that is not `isFractional` compares equal to itself. -/
theorem beq_self (h : x.isFractional = false) : (x == x) = true := by
  cases x with
  | float a => cases h
  | _ => simp [BEq.beq, instBEqOperand.beq]

/-- What compares equal to an operand that is not `isFractional` is that operand. -/
theorem eq_of_beq_of_not_fractional (hxy : (x == y) = true) (hy : y.isFractional = false) :
    x = y := by
  rcases eq_or_float_of_beq hxy with rfl | ⟨a, b, -, rfl, -⟩
  · rfl
  · cases hy

theorem eq_of_beq_of_all {xs ys : List Operand} (h : (xs == ys) = true)
    (hxs : xs.all (!·.isFractional) = true) : xs = ys := by
  -- Lists are compared entry by entry, so induct on the first and let the second vary.
  induction xs generalizing ys with
  | nil => simpa using (List.length_eq_of_beq h).symm
  | cons x xs ih =>
    cases ys with
    | nil => cases h
    | cons y ys =>
      rw [List.cons_beq_cons, Bool.and_eq_true] at h
      rw [List.all_cons, Bool.and_eq_true] at hxs
      rcases eq_or_float_of_beq h.1 with rfl | ⟨a, b, rfl, -, -⟩
      · rw [ih h.2 hxs.2]
      · cases hxs.1

theorem isValue_iff {v : ValueId} : x.isValue v = true ↔ x = .value v := by
  cases x <;> simp [isValue, value?]

end Operand

end LoopAnalysis
