import LoopAnalysis.Access.Site
import LoopAnalysis.Proofs.Word
import Mathlib.Tactic.Ring

/-!
# What index expressions mean

Gives values and symbols of a loop integers, so that one iteration is one such valuation, and shows
that an affine form has the value of the expression it was read from.

## Main definitions

- `Valuation`: integers for everything an operand can refer to;
- `Valuation.Respects`: the valuation solves the definitions that a loop sees;
- `Valuation.AgreeOutside`: two valuations that differ only in what the loop defines.

## Main statements

- `affineIn_eval`: an affine form has the value of its expression;
- `classifyIndex_cases`: what the term of an index can be, and why;
- `classifyIndex_affine_eval`: an affine index has the value of its term.
-/

namespace LoopAnalysis

/-! ## §1 Valuations -/

/-- Integers for everything that an operand can refer to. Fractional constants have a value as
well, about which nothing is assumed. -/
structure Valuation where
  value    : ValueId → Int
  symbol   : String → Int
  fraction : Float → Int

/-- The value of an operand under a valuation. -/
def Valuation.eval (r : Valuation) : Operand → Int
  | .value v => r.value v
  | .int c => c.toInt
  | .float x => r.fraction x
  | .symbol name => r.symbol name

/-- The integer function behind an operator that index arithmetic follows. A shift `shl` multiplies
by a power of two; by 32 and more it is left open. -/
def BinaryOp.meaning? (op : BinaryOp) (x y : Int) : Option Int :=
  match op with
  | .add => some (x + y)
  | .sub => some (x - y)
  | .mul => some (x * y)
  | .shl => if 0 ≤ y ∧ y < 32 then some (x * 2 ^ y.toNat) else none
  | _ => none

/-- The integer that an instruction computes, for `cast` and `binary` index arithmetic. -/
def Instruction.meaning? (r : Valuation) : Instruction → Option Int
  | .cast _ operand => some (r.eval operand)
  | .binary _ op lhs rhs => op.meaning? (r.eval lhs) (r.eval rhs)
  | _ => none

namespace Valuation

/-- A valuation of one iteration: every value has what its definition computes by `meaning?`. -/
def Respects (r : Valuation) (lp : LoopBody) : Prop :=
  ∀ v i z, lp.definition v = some i → i.meaning? r = some z → r.value v = z

/-- Two valuations that agree on everything a loop does not define. -/
structure AgreeOutside (lp : LoopBody) (r₁ r₂ : Valuation) : Prop where
  value    : ∀ v, lp.defines v = false → r₁.value v = r₂.value v
  symbol   : r₁.symbol = r₂.symbol
  fraction : r₁.fraction = r₂.fraction

/-- An operand that a loop does not define has one value in valuations that `AgreeOutside` of it. -/
theorem AgreeOutside.eval_eq {lp : LoopBody} {r₁ r₂ : Valuation} {x : Operand}
    (h : AgreeOutside lp r₁ r₂) (hinvariant : lp.isInvariant x = true) :
    r₁.eval x = r₂.eval x := by
  cases x with
  | value v => exact h.value v (by simpa [LoopBody.isInvariant] using hinvariant)
  | int c => rfl
  | float z => exact congrFun h.fraction z
  | symbol name => exact congrFun h.symbol name

end Valuation

/-! ## §2 Affine forms -/

namespace Affine

/-- The value of an affine form in iteration `n`. -/
def valueAt (a : Affine) (n : Int) : Int := a.coefficient.toInt * n + a.offset.toInt

@[simp] theorem valueAt_constant (c : Int64) (n : Int) : (constant c).valueAt n = c.toInt := by
  simp [valueAt, constant]

@[simp] theorem valueAt_iteration (n : Int) : iteration.valueAt n = n := by
  simp [valueAt, iteration]

/-- A form with coefficient zero does not change. -/
theorem valueAt_of_coefficient_eq_zero {a : Affine} (h : a.coefficient = 0) (n : Int) :
    a.valueAt n = a.offset.toInt := by
  simp [valueAt, h]

theorem valueAt_add? {a b c : Affine} (h : a.add? b = some c) (n : Int) :
    c.valueAt n = a.valueAt n + b.valueAt n := by
  simp only [add?, bind, Option.bind_eq_some_iff, pure, Option.some.injEq] at h
  obtain ⟨k, hk, o, ho, rfl⟩ := h
  simp only [valueAt, Word.add?_eq_some_iff.mp hk, Word.add?_eq_some_iff.mp ho]
  ring

theorem valueAt_sub? {a b c : Affine} (h : a.sub? b = some c) (n : Int) :
    c.valueAt n = a.valueAt n - b.valueAt n := by
  simp only [sub?, bind, Option.bind_eq_some_iff, pure, Option.some.injEq] at h
  obtain ⟨k, hk, o, ho, rfl⟩ := h
  simp only [valueAt, Word.sub?_eq_some_iff.mp hk, Word.sub?_eq_some_iff.mp ho]
  ring

theorem valueAt_scale? {a c : Affine} {w : Int64} (h : a.scale? w = some c) (n : Int) :
    c.valueAt n = a.valueAt n * w.toInt := by
  simp only [scale?, bind, Option.bind_eq_some_iff, pure, Option.some.injEq] at h
  obtain ⟨k, hk, o, ho, rfl⟩ := h
  simp only [valueAt, Word.mul?_eq_some_iff.mp hk, Word.mul?_eq_some_iff.mp ho]
  ring

/-- What `combine?` makes of two forms has the value that the operator computes. -/
theorem meaning?_of_combine? {op : BinaryOp} {l r a : Affine} {ls rs : Bool}
    (h : combine? op l r ls rs = some a) (n : Int) :
    op.meaning? (l.valueAt n) (r.valueAt n) = some (a.valueAt n) := by
  -- Products and shifts have a form only if one side is constant.
  cases op with
  | add => rw [BinaryOp.meaning?, valueAt_add? h]
  | sub => rw [BinaryOp.meaning?, valueAt_sub? h]
  | mul =>
    simp only [combine?, Bool.and_eq_true, decide_eq_true_eq] at h
    split at h
    · next hl =>
      rw [BinaryOp.meaning?, valueAt_scale? h, valueAt_of_coefficient_eq_zero hl.1, Int.mul_comm]
    · split at h
      · next hr =>
        rw [BinaryOp.meaning?, valueAt_scale? h, valueAt_of_coefficient_eq_zero hr.1]
      · cases h
  | shl =>
    simp only [combine?, Bool.and_eq_true, decide_eq_true_eq] at h
    split at h
    · next hr =>
      obtain ⟨⟨hzero, hlow⟩, hhigh⟩ := hr
      have hpow := Word.toInt_twoPow (show r.offset.toInt.toNat < 32 by omega)
      rw [BinaryOp.meaning?, valueAt_of_coefficient_eq_zero hzero, if_pos ⟨hlow, hhigh⟩,
        valueAt_scale? h, hpow]
    · cases h
  | _ => cases h

end Affine

namespace LoopBody

variable {lp : LoopBody} {r : Valuation} {iv : ValueId}

/-- **Affine forms are exact**: where every operand is followed to the end, `affineWith` gives a
form with the value of the operand in each valuation that `Respects` the definitions. -/
theorem affineWith_eval (hr : r.Respects lp) {levels : Nat} {op : Operand} {a : Affine}
    (h : lp.affineWith iv (fun _ => false) levels op = some a) :
    r.eval op = a.valueAt (r.value iv) := by
  -- The levels bound the depth of the unfolding, so the induction is on them.
  induction levels generalizing op a with
  | zero => cases h
  | succ levels ih =>
    cases op with
    | int c =>
      cases h
      simp [Valuation.eval]
    | float x => cases h
    | symbol name => cases h
    | value v =>
      simp only [affineWith] at h
      split at h
      · next hv =>
        cases h
        simp [Valuation.eval, hv]
      · split at h
        · next operand hdef =>
          rw [Valuation.eval, hr v _ _ hdef rfl]
          exact ih h
        · next bop lhs rhs hdef =>
          simp only [Bool.false_and, Bool.false_eq_true, if_false, bind,
            Option.bind_eq_some_iff] at h
          -- Both sides have forms, so the operator combines their values.
          obtain ⟨l, hl, s, hs, hcombine⟩ := h
          have hmeaning := Affine.meaning?_of_combine? hcombine (r.value iv)
          rw [← ih hl, ← ih hs] at hmeaning
          exact hr v _ _ hdef hmeaning
        · cases h

/-- The form that `affineIn` finds for an operand has the value of the operand. -/
theorem affineIn_eval (hr : r.Respects lp) {op : Operand} {a : Affine}
    (h : lp.affineIn op iv = some a) : r.eval op = a.valueAt (r.value iv) :=
  affineWith_eval hr h

end LoopBody

/-! ## §3 Index terms -/

namespace Loop

variable {lp : Loop} {r : Valuation} {iv : ValueId}

/-- Everything that `classifyIndex` can say of an index, and why. -/
theorem classifyIndex_cases (lp : Loop) (index : Operand) :
    (lp.isInvariant index = true ∧ lp.classifyIndex index = .invariant (lp.render index)) ∨
    (∃ iv a, lp.inductionVariable = some iv ∧ lp.affineIn index iv = some a ∧
      a.coefficient ≠ 0 ∧ lp.classifyIndex index = .affine a.coefficient a.offset) ∨
    lp.classifyIndex index = .indirect ∨
    (∃ iv ∈ lp.nestedIvs, ∃ a, lp.affineWith iv lp.isOuterSymbol exprLevels index = some a ∧
      lp.classifyIndex index = .swept (lp.render index)) ∨
    lp.classifyIndex index = .unresolved := by
  unfold classifyIndex
  cases hown : lp.classifyOwn index with
  | some term =>
    -- The loop itself decides: invariant, affine, or loaded from memory.
    dsimp only
    unfold LoopBody.classifyOwn at hown
    split at hown
    · next hinvariant => exact .inl ⟨hinvariant, (Option.some.inj hown).symm⟩
    · dsimp only at hown
      split at hown
      · next found haffine =>
        cases hown
        simp only [bind, Option.bind_eq_some_iff] at haffine
        obtain ⟨iv, hiv, a, ha, hmoves⟩ := haffine
        split at hmoves
        · cases hmoves
        · next hne => exact .inr (.inl ⟨iv, a, hiv, ha, hne, (Option.some.inj hmoves).symm⟩)
      · -- Otherwise a loop inside may sweep over the index.
        split at hown
        · exact .inr (.inr (.inl (Option.some.inj hown).symm))
        · cases hown
  | none =>
    dsimp only
    split
    · next hswept =>
      obtain ⟨iv, hiv, hform⟩ := List.any_eq_true.mp hswept
      obtain ⟨a, ha, -⟩ := (Option.any_eq_true _ _).mp hform
      exact .inr (.inr (.inr (.inl ⟨iv, hiv, a, ha, rfl⟩)))
    · exact .inr (.inr (.inr (.inr rfl)))

/-- An `affine` term comes from an affine form in the induction variable that really moves. -/
theorem exists_affineIn_of_classifyIndex {index : Operand} {c o : Int64}
    (h : lp.classifyIndex index = .affine c o) :
    ∃ iv, lp.inductionVariable = some iv ∧ lp.affineIn index iv = some ⟨c, o⟩ ∧ c ≠ 0 := by
  obtain ⟨-, hterm⟩ | ⟨iv, a, hiv, ha, hne, hterm⟩ | hterm | ⟨iv, -, a, -, hterm⟩ | hterm :=
    lp.classifyIndex_cases index <;> cases h.symm.trans hterm
  exact ⟨iv, hiv, ha, hne⟩

theorem classifyIndex_eq_affine (hiv : lp.inductionVariable = some iv) {index : Operand}
    {c o : Int64} (h : lp.classifyIndex index = .affine c o) :
    lp.affineIn index iv = some ⟨c, o⟩ ∧ c ≠ 0 := by
  obtain ⟨iv', hiv', hform⟩ := exists_affineIn_of_classifyIndex h
  obtain rfl : iv' = iv := Option.some.inj (hiv'.symm.trans hiv)
  exact hform

theorem isInvariant_of_classifyIndex {index : Operand} {text : String}
    (h : lp.classifyIndex index = .invariant text) : lp.isInvariant index = true := by
  obtain ⟨hinvariant, -⟩ | ⟨iv, a, -, -, -, hterm⟩ | hterm | ⟨iv, -, a, -, hterm⟩ | hterm :=
    lp.classifyIndex_cases index
  · exact hinvariant
  all_goals cases h.symm.trans hterm

/-- A `swept` index is affine in the induction variable of a loop inside, apart from operands that
the loop does not define. -/
theorem exists_affineWith_of_swept {index : Operand} {text : String}
    (h : lp.classifyIndex index = .swept text) :
    ∃ iv ∈ lp.nestedIvs, ∃ a, lp.affineWith iv lp.isOuterSymbol exprLevels index = some a := by
  obtain ⟨-, hterm⟩ | ⟨iv, a, -, -, -, hterm⟩ | hterm | ⟨iv, hiv, a, ha, -⟩ | hterm :=
    lp.classifyIndex_cases index
  case inr.inr.inr.inl => exact ⟨iv, hiv, a, ha⟩
  all_goals cases h.symm.trans hterm

/-- An index with an `affine` term has the value that the term gives for the iteration. -/
theorem classifyIndex_affine_eval (hiv : lp.inductionVariable = some iv)
    (hr : r.Respects lp.toLoopBody) {index : Operand} {c o : Int64}
    (h : lp.classifyIndex index = .affine c o) :
    r.eval index = c.toInt * r.value iv + o.toInt :=
  LoopBody.affineIn_eval hr (classifyIndex_eq_affine hiv h).1

end Loop

end LoopAnalysis
