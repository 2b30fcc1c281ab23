import LoopAnalysis.Proofs.Program.Execution
import LoopAnalysis.Proofs.Program.Operand
import LoopAnalysis.Proofs.Recurrence.Observers

/-!
# The operators of accumulators

The operator that is matched for an update is the one that the update computes. For a binary
operator the previous value may stand on either side, except on the right of a difference. For a
comparison with a selection, eight ways to write the sides and the arms, with two directions of the
comparison each, come down to a minimum or a maximum.

## Main definitions

- `Valuation.Computes`: a value has what its definition computes;
- `LoopBody.subtracts`: the definition of a value is a difference.

## Main statements

- `Predicate.select_eq`: what a selection by a comparison computes;
- `LoopBody.Folds.value_eq`: an update computes what was matched;
- `LoopBody.matchAccumulation_of_binary`, `LoopBody.matchAccumulation_of_select`: which updates are
  matched;
- `LoopBody.matched_operator_computed`: both for every update.
-/

namespace LoopAnalysis

/-! ## §1 Operators on integers -/

theorem int_land_comm (x y : Int) : x.land y = y.land x := by
  cases x <;> cases y <;> simp [Int.land, Nat.land_comm, Nat.lor_comm]

theorem int_lor_comm (x y : Int) : x.lor y = y.lor x := by
  cases x <;> cases y <;> simp [Int.lor, Nat.land_comm, Nat.lor_comm]

theorem int_xor_comm (x y : Int) : x.xor y = y.xor x := by
  cases x <;> cases y <;> simp [Int.xor, Nat.xor_comm]

theorem ReductionOperator.apply_comm (red : ReductionOperator) (x y : Int) :
    red.apply x y = red.apply y x := by
  cases red with
  | sum => exact Int.add_comm x y
  | product => exact Int.mul_comm x y
  | min => exact Int.min_comm x y
  | max => exact Int.max_comm x y
  | bitAnd => exact int_land_comm x y
  | bitOr => exact int_lor_comm x y
  | bitXor => exact int_xor_comm x y

/-- An operator with a `reduction?` computes it, up to the sign of a difference. -/
theorem BinaryOp.apply_of_reduction? {op : BinaryOp} {red : ReductionOperator}
    (h : op.reduction? = some red) (x y : Int) :
    op.apply x y = red.apply x (if op.isSub then -y else y) := by
  cases op <;> cases h <;> rfl

/-- The `reduction?` of a difference is a sum. -/
theorem BinaryOp.reduction?_of_isSub {op : BinaryOp} (h : op.isSub = true) :
    op.reduction? = some .sum := by
  simp [reduction?, h]

/-- Choosing by a comparison that `isGreater` or `isLess` gives the larger or the smaller of two
numbers. -/
theorem Predicate.select_eq {p : Predicate} (hordered : p.isGreater = true ∨ p.isLess = true)
    (x y : Int) :
    (if p.holds x y then x else y) = (if p.isGreater then max x y else min x y) ∧
      (if p.holds x y then y else x) = (if p.isGreater then min x y else max x y) := by
  cases p <;> simp [isGreater, isLess] at hordered <;> simp [holds, isGreater] <;> omega

/-! ## §2 Updates -/

/-- A value has what its `definition` computes, where this is an operator, a comparison, a selection
or a call of a minimum or maximum. A comparison that holds may be any number but zero. -/
def Valuation.Computes (r : Valuation) (lp : LoopBody) (v : ValueId) : Prop :=
  match lp.definition v with
  | some (.binary _ op lhs rhs) => r.value v = op.apply (r.eval lhs) (r.eval rhs)
  | some (.compare _ p lhs rhs) =>
    r.value v ≠ 0 ↔ p.holds (r.eval lhs) (r.eval rhs) = true
  | some (.select _ condition onTrue onFalse) =>
    r.value v = if r.eval condition = 0 then r.eval onFalse else r.eval onTrue
  | some (.call _ (some callee) [a, b] _) =>
    ∀ red, calleeReduction? callee = some red → r.value v = red.apply (r.eval a) (r.eval b)
  | _ => True

namespace LoopBody

variable {lp : LoopBody} {previous update : ValueId} {m : Accumulation} {r : Valuation}

/-- Whether the `definition` of a value is a difference. -/
def subtracts (lp : LoopBody) (v : ValueId) : Bool :=
  match lp.definition v with
  | some (.binary _ op _ _) => op.isSub
  | _ => false

/-- The arms of a selection that folds are the sides of its comparison, in the order that
`onTrue == lhs` tells, and these are the previous value and the addend. -/
private theorem arms_eq_sides {onTrue onFalse lhs rhs addend : Operand}
    (hequal : ∀ x, (x == addend) = true → r.eval x = r.eval addend)
    (harms : onTrue.isValue previous = true ∧ addend = onFalse ∨
      onFalse.isValue previous = true ∧ addend = onTrue)
    (hsides : lhs.isValue previous = true ∧ (rhs == addend) = true ∨
      rhs.isValue previous = true ∧ (lhs == addend) = true) :
    (r.eval onTrue, r.eval onFalse) =
        (if onTrue == lhs then (r.eval lhs, r.eval rhs) else (r.eval rhs, r.eval lhs)) ∧
      ((r.eval lhs, r.eval rhs) = (r.value previous, r.eval addend) ∨
        (r.eval lhs, r.eval rhs) = (r.eval addend, r.value previous)) := by
  have hself : ((Operand.value previous) == (Operand.value previous)) = true := by
    simp [BEq.beq, instBEqOperand.beq]
  simp only [Operand.isValue_iff] at harms hsides
  rcases harms with ⟨rfl, rfl⟩ | ⟨rfl, rfl⟩ <;> rcases hsides with ⟨rfl, hb⟩ | ⟨rfl, hb⟩
  -- The previous value is the first arm and the left side.
  · rw [if_pos hself, hequal rhs hb]
    exact ⟨rfl, .inl rfl⟩
  -- It is the first arm and the right side; the two operands may still be one.
  · refine ⟨?_, .inr (by rw [hequal lhs hb]; rfl)⟩
    split
    · next hpick =>
      obtain rfl := Operand.eq_value_of_beq (Operand.beq_symm hpick)
      rw [← hequal _ hb]
    · rw [hequal lhs hb]
  -- It is the second arm and the left side; here too the operands may be one.
  · refine ⟨?_, .inl (by rw [hequal rhs hb]; rfl)⟩
    split
    · next hpick =>
      obtain rfl := Operand.eq_value_of_beq hpick
      rw [hequal rhs hb]
    · rw [hequal rhs hb]
  -- It is the second arm and the right side.
  · rw [if_pos (Operand.beq_symm hb), hequal lhs hb]
    exact ⟨rfl, .inr rfl⟩

/-- **An update computes what was matched**: where the values of its `expression` have what their
definitions compute, it is the operator applied to the previous value and the addend. -/
theorem Folds.value_eq (h : lp.Folds previous update m)
    (hvalues : ∀ v ∈ m.expression, r.Computes lp v)
    (hequal : ∀ x, (x == m.addend) = true → r.eval x = r.eval m.addend) :
    r.value update = m.operator.apply (r.value previous)
      (if lp.subtracts update then -r.eval m.addend else r.eval m.addend) := by
  cases h with
  -- One case for each shape in which an update folds.
  | binary _ op lhs rhs hdef hsides hop hexpr =>
    have hupdate := hvalues update (by simp [hexpr])
    simp only [Valuation.Computes, hdef] at hupdate
    simp only [subtracts, hdef]
    rw [hupdate, BinaryOp.apply_of_reduction? hop]
    rcases hsides with ⟨hl, ha⟩ | ⟨hr, hsub, ha⟩
    · rw [Operand.isValue_iff.mp hl, ha]
      rfl
    · -- The previous value stands on the right of an operator that commutes.
      rw [Operand.isValue_iff.mp hr, ha, hsub]
      exact ReductionOperator.apply_comm _ _ _
  | select _ c rc onTrue onFalse lhs rhs p hdef hcompare harms hsides hordered hop hexpr =>
    have hupdate := hvalues update (by simp [hexpr])
    have houtcome := hvalues c (by simp [hexpr])
    simp only [Valuation.Computes, hdef] at hupdate
    simp only [Valuation.Computes, hcompare] at houtcome
    obtain ⟨harms, hsides⟩ := arms_eq_sides hequal harms hsides
    obtain ⟨hmax, hmin⟩ := p.select_eq hordered (r.eval lhs) (r.eval rhs)
    have hselect : r.value update =
        if p.holds (r.eval lhs) (r.eval rhs) then r.eval onTrue else r.eval onFalse := by
      rw [hupdate]
      show (if r.value c = 0 then _ else _) = _
      split
      · next hzero => rw [if_neg (fun hholds => houtcome.mpr hholds hzero)]
      · next hnonzero => rw [if_pos (houtcome.mp hnonzero)]
    -- The selection takes the larger or the smaller side of the comparison.
    have hsides' : r.value update = m.operator.apply (r.eval lhs) (r.eval rhs) := by
      rw [hselect, hop]
      cases hpick : onTrue == lhs with
      | true =>
        obtain ⟨ht, hf⟩ : _ ∧ _ := by simpa [hpick] using harms
        rw [ht, hf, hmax]
        cases p.isGreater <;> rfl
      | false =>
        obtain ⟨ht, hf⟩ : _ ∧ _ := by simpa [hpick] using harms
        rw [ht, hf, hmin]
        cases p.isGreater <;> rfl
    simp only [subtracts, hdef, Bool.false_eq_true, if_false]
    rcases hsides with heq | heq
    · obtain ⟨hl, hr⟩ := Prod.mk.inj heq
      rw [hsides', hl, hr]
    · obtain ⟨hl, hr⟩ := Prod.mk.inj heq
      rw [hsides', hl, hr, ReductionOperator.apply_comm]
  | call _ callee a b isPure hdef hsides haddend hop hexpr =>
    have hupdate := hvalues update (by simp [hexpr])
    simp only [Valuation.Computes, hdef] at hupdate
    simp only [subtracts, hdef, Bool.false_eq_true, if_false]
    rw [hupdate _ hop]
    rcases haddend with ⟨ha, hnot⟩ | ⟨hb, hnot⟩
    · -- The addend is the first argument of the call, and the previous value the second.
      have hprevious : b = .value previous := by simpa [hnot, Operand.isValue_iff] using hsides
      rw [ha, hprevious]
      exact ReductionOperator.apply_comm _ _ _
    · have hprevious : a = .value previous := by simpa [hnot, Operand.isValue_iff] using hsides
      rw [hb, hprevious]
      rfl

/-- Only a sum is matched for a value that `subtracts` tells to be a difference. -/
theorem Folds.operator_of_subtracts (h : lp.Folds previous update m)
    (hsub : lp.subtracts update = true) : m.operator = .sum := by
  cases h with
  | binary _ op lhs rhs hdef _ hop _ =>
    simp only [subtracts, hdef] at hsub
    rw [BinaryOp.reduction?_of_isSub hsub] at hop
    exact (Option.some.inj hop).symm
  | select _ c rc onTrue onFalse lhs rhs p hdef => simp [subtracts, hdef] at hsub
  | call _ callee a b isPure hdef => simp [subtracts, hdef] at hsub

/-! ## §3 Which updates are matched -/

variable {w c wc : ValueId} {op : BinaryOp} {red : ReductionOperator} {p : Predicate}
  {lhs rhs onTrue onFalse x : Operand}

/-- A binary operator that stands for a reduction is matched by `matchAccumulation` with the
previous value on either side, unless that is the right side of a difference. -/
theorem matchAccumulation_of_binary (hdef : lp.definition update = some (.binary w op lhs rhs))
    (hop : op.reduction? = some red)
    (hsides : lhs = .value previous ∨ rhs = .value previous ∧ op.isSub = false) :
    ∃ m, lp.matchAccumulation previous update = some m := by
  simp only [matchAccumulation, hdef, hop, bind, pure, Option.bind_some]
  rcases hsides with rfl | ⟨rfl, hsub⟩
  · rw [if_pos (Operand.isValue_iff.mpr rfl)]
    exact ⟨_, rfl⟩
  · split
    · exact ⟨_, rfl⟩
    · rw [if_pos (by simp [hsub, Operand.isValue_iff])]
      exact ⟨_, rfl⟩

/-- A selection between the previous value and another operand is matched by `matchAccumulation`
where its condition is an ordered comparison of the two, whichever way round either of them is
written. -/
theorem matchAccumulation_of_select
    (hdef : lp.definition update = some (.select w (.value c) onTrue onFalse))
    (hcompare : lp.definition c = some (.compare wc p lhs rhs))
    (hordered : p.isGreater = true ∨ p.isLess = true) (hx : x.isFractional = false)
    (harms : onTrue = .value previous ∧ onFalse = x ∨ onTrue = x ∧ onFalse = .value previous)
    (hsides : lhs = .value previous ∧ rhs = x ∨ lhs = x ∧ rhs = .value previous) :
    ∃ m, lp.matchAccumulation previous update = some m := by
  have hkind : (p.isGreater || p.isLess) = true := by simpa using hordered
  have hshape :
      ((lhs.isValue previous && rhs == x) || (rhs.isValue previous && lhs == x)) = true := by
    rcases hsides with ⟨rfl, rfl⟩ | ⟨rfl, rfl⟩ <;>
      simp [Operand.isValue_iff.mpr, Operand.beq_self hx]
  simp only [matchAccumulation, hdef, bind, Operand.value?, Option.bind_some, hcompare]
  rcases harms with ⟨rfl, rfl⟩ | ⟨rfl, rfl⟩
  · rw [if_pos (Operand.isValue_iff.mpr rfl), hshape, hkind]
    exact ⟨_, rfl⟩
  · split
    · next hp =>
      -- Both arms are the previous value, so it does not matter which of them is the other one.
      obtain rfl := Operand.isValue_iff.mp hp
      rw [hshape, hkind]
      exact ⟨_, rfl⟩
    · rw [if_pos (Operand.isValue_iff.mpr rfl), hshape, hkind]
      exact ⟨_, rfl⟩

/-! ## §4 Every update -/

/-- **The operator that is matched is the one that is computed.** Let `matchAccumulation` match an
update with a previous value, and let the addend be no fractional constant. Wherever the update and,
for a selection, its comparison have what their definitions compute, the update is the operator
applied to the previous value and the addend, or their difference, which is matched as a sum, where
it is defined by one. And the updates that are matched are all those that combine the previous value
with an operand by an operator of a reduction, or choose between the two by an ordered comparison of
them, whichever side the previous value stands on, whichever way round the comparison is written,
and whichever arm of the selection the previous value is. -/
theorem matched_operator_computed (lp : LoopBody) (previous update : ValueId) :
    (∀ m, lp.matchAccumulation previous update = some m → m.addend.isFractional = false →
      ∀ r : Valuation, (∀ v ∈ m.expression, r.Computes lp v) →
        (lp.subtracts update = false →
          r.value update = m.operator.apply (r.value previous) (r.eval m.addend)) ∧
        (lp.subtracts update = true →
          m.operator = .sum ∧ r.value update = r.value previous - r.eval m.addend)) ∧
    (∀ w op lhs rhs red, lp.definition update = some (.binary w op lhs rhs) →
      op.reduction? = some red →
      (lhs = .value previous ∨ rhs = .value previous ∧ op.isSub = false) →
      ∃ m, lp.matchAccumulation previous update = some m) ∧
    (∀ w c onTrue onFalse wc p lhs rhs x,
      lp.definition update = some (.select w (.value c) onTrue onFalse) →
      lp.definition c = some (.compare wc p lhs rhs) →
      (p.isGreater = true ∨ p.isLess = true) → x.isFractional = false →
      (onTrue = .value previous ∧ onFalse = x ∨ onTrue = x ∧ onFalse = .value previous) →
      (lhs = .value previous ∧ rhs = x ∨ lhs = x ∧ rhs = .value previous) →
      ∃ m, lp.matchAccumulation previous update = some m) := by
  refine ⟨?_, ?_, ?_⟩
  · intro m hmatch hplain r hvalues
    have hfolds := folds_of_matchAccumulation hmatch
    have hvalue := hfolds.value_eq hvalues fun x hx => by
      rw [Operand.eq_of_beq_of_not_fractional hx hplain]
    refine ⟨fun hsub => ?_, fun hsub => ?_⟩
    · simpa [hsub] using hvalue
    · have hsum := hfolds.operator_of_subtracts hsub
      refine ⟨hsum, ?_⟩
      rw [hvalue, hsum, if_pos hsub]
      exact (Int.sub_eq_add_neg).symm
  · intro w op lhs rhs red hdef hop hsides
    exact matchAccumulation_of_binary hdef hop hsides
  · intro w c onTrue onFalse wc p lhs rhs x hdef hcompare hordered hx harms hsides
    exact matchAccumulation_of_select hdef hcompare hordered hx harms hsides

end LoopBody

namespace Loop

/-- An iteration of `keepsMaximum`, with `best` as the running value and `x` as the element that is
read. A comparison that holds is written as `-1`. -/
def keepsMaximumAt (best x : Int) : Valuation where
  value v :=
    [0, best, 0, x, if best < x then -1 else 0, if best < x then x else best, 1].getD v.index 0
  symbol _ := 0
  fraction _ := 0

/-- The theorem at `keepsMaximum`, with the running value on the right of the comparison and as the
second arm of the selection. -/
theorem maximum_computed :
    (keepsMaximum []).matchAccumulation ⟨1⟩ ⟨5⟩ = some ⟨.max, .value ⟨3⟩, [⟨5⟩, ⟨4⟩]⟩ ∧
      ∀ best x : Int,
        (∀ v ∈ [⟨5⟩, ⟨4⟩], (keepsMaximumAt best x).Computes (keepsMaximum []).toLoopBody v) ∧
        (keepsMaximumAt best x).value ⟨5⟩ = max best x := by
  refine ⟨rfl, fun best x => ?_⟩
  have hvalues :
      ∀ v ∈ [⟨5⟩, ⟨4⟩], (keepsMaximumAt best x).Computes (keepsMaximum []).toLoopBody v := by
    rw [List.forall_mem_cons, List.forall_mem_singleton]
    constructor
    · show (if best < x then x else best) = if (if best < x then -1 else 0) = 0 then best else x
      split <;> simp
    · show (if best < x then -1 else 0) ≠ 0 ↔ decide (best < x) = true
      split <;> simp_all
  obtain ⟨hcomputed, -⟩ := LoopBody.matched_operator_computed (keepsMaximum []).toLoopBody ⟨1⟩ ⟨5⟩
  exact ⟨hvalues, (hcomputed _ rfl rfl (keepsMaximumAt best x) hvalues).1 rfl⟩

end Loop

end LoopAnalysis
