import LoopAnalysis.Access.Slice
import LoopAnalysis.Proofs.Program.SingleAssignment

/-!
# What slices contain

Every value of a slice is defined in the loop and leads to the operand that was sliced, each step
being a use in a definition other than a phi.

## Main statements

- `LoopBody.sliceFrom_induction`: what a slice starts with and what its steps keep holds of it all;
- `LoopBody.feeds_of_flowsFrom`: a value that an operand flows from is that operand or feeds it;
- `LoopBody.flowsFrom_of_sliceStep`: an operand flows from the value that its definition uses last.
-/

namespace LoopAnalysis.LoopBody

variable {lp : LoopBody} {u v : ValueId}

/-- The value `u` stands in `Feeds` to `v`, and the definition of `v` stands inside the loop. -/
def FeedsWithin (lp : LoopBody) (u v : ValueId) : Prop := lp.defines v = true ∧ lp.Feeds u v

theorem feeds_of_mem_sliceStep (h : u ∈ lp.sliceStep v) : lp.Feeds u v := by
  unfold sliceStep at h
  split at h
  · cases h
  · next i hphi hdef =>
    have huse : i.uses u = true := by
      obtain ⟨x, hx, hxu⟩ := List.mem_filterMap.mp (List.mem_reverse.mp h)
      exact List.any_eq_true.mpr ⟨x, hx, by simp [Operand.isValue, hxu]⟩
    refine ⟨i, hdef, ?_, huse⟩
    cases i with
    | phi r incoming => exact absurd rfl (hphi r incoming)
    | _ => rfl
  · cases h

/-- What holds of all that `sliceFrom` starts with, and is passed on from a value inside the loop to
what it is computed from, holds of the whole slice. -/
theorem sliceFrom_induction {P : ValueId → Prop} {stack seen : List ValueId}
    (hstep : ∀ u v, P v → lp.FeedsWithin u v → P u) (hstack : ∀ v ∈ stack, P v)
    (hseen : ∀ v ∈ seen, P v) : ∀ v ∈ lp.sliceFrom stack seen, P v := by
  fun_induction lp.sliceFrom stack seen with
  | case1 seen => exact hseen
  | case2 seen v rest _ ih => exact ih (fun u hu => hstack u (List.mem_cons_of_mem v hu)) hseen
  | case3 seen v rest hgrow ih =>
    -- The value on top joins the slice, and what its definition uses waits next.
    have hv : P v := hstack v List.mem_cons_self
    have hdefined : lp.defines v = true := by
      by_contra hnot
      exact hgrow (.inr (.inl (by simpa using hnot)))
    apply ih
    · intro u hu
      rcases List.mem_append.mp hu with hnew | hrest
      · exact hstep u v hv ⟨hdefined, feeds_of_mem_sliceStep hnew⟩
      · exact hstack u (List.mem_cons_of_mem v hrest)
    · intro u hu
      rcases List.mem_cons.mp hu with rfl | hold
      · exact hv
      · exact hseen u hold

/-- A value that an operand flows from feeds it, in any number of `FeedsWithin` steps. -/
theorem feeds_of_flowsFrom {x : Operand} (h : lp.flowsFrom x u = true) :
    ∃ v, x = .value v ∧ Relation.ReflTransGen lp.FeedsWithin u v := by
  simp only [flowsFrom, Bool.or_eq_true, List.contains_iff_mem] at h
  cases x with
  | value v =>
    refine ⟨v, rfl, ?_⟩
    rcases h with hslice | hself
    · -- The values of the slice are those from which a chain leads to `v`.
      refine sliceFrom_induction (P := fun u => Relation.ReflTransGen lp.FeedsWithin u v) ?_ ?_ ?_
        u hslice
      · intro a b hb hab
        exact .head hab hb
      · intro a ha
        obtain rfl : a = v := by simpa [Operand.value?] using ha
        exact .refl
      · intro a ha
        cases ha
    · obtain rfl : v = u := by simpa [Operand.isValue, Operand.value?] using hself
      exact .refl
  | int | float | symbol =>
    rcases h with hslice | hself
    · simp [expressionValues, Operand.value?, sliceFrom] at hslice
    · cases hself

/-- A slice keeps what it has `seen`. -/
theorem mem_sliceFrom_of_mem {stack seen : List ValueId} (h : u ∈ seen) :
    u ∈ lp.sliceFrom stack seen := by
  fun_induction lp.sliceFrom stack seen with
  | case1 seen => exact h
  | case2 seen v rest _ ih => exact ih h
  | case3 seen v rest _ ih => exact ih (List.mem_cons_of_mem v h)

/-- An operand flows from the value inside the loop that its definition uses last, the first of
`sliceStep`. -/
theorem flowsFrom_of_sliceStep {v : ValueId} {rest : List ValueId} (hv : lp.defines v = true)
    (hu : lp.defines u = true) (h : lp.sliceStep v = u :: rest) :
    lp.flowsFrom (.value v) u = true := by
  have hstart : lp.expressionValues (.value v) = lp.sliceFrom (u :: rest) [v] := by
    rw [expressionValues, show (Operand.value v).value?.toList = [v] from rfl, sliceFrom,
      if_neg (by simp [hv]), h, List.append_nil]
  simp only [flowsFrom, Bool.or_eq_true, List.contains_iff_mem, hstart]
  refine .inl ?_
  rw [sliceFrom]
  split
  · next hskip =>
    -- One value is below every limit, so only a value that uses itself is skipped.
    have hself : u = v := by simpa [sliceLimit, hu] using hskip
    exact mem_sliceFrom_of_mem (by simp [hself])
  · exact mem_sliceFrom_of_mem List.mem_cons_self

end LoopAnalysis.LoopBody
