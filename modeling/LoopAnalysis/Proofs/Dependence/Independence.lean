import LoopAnalysis.Proofs.Dependence.Findings
import LoopAnalysis.Proofs.Dependence.Relation
import LoopAnalysis.Proofs.Program.Straight

/-!
# Loops without dependences

A loop whose profile is `independent` or `readOnly` may run its iterations in any order: it calls
nothing impure, carries no scalar, and no store of one iteration touches what another iteration
accesses in the same array.

## Main definitions

- `Loop.NeverMeet`: two accesses touch different places in any two different iterations.

## Main statements

- `Loop.neverMeet_of_relate`: the relations that give no dependence keep accesses apart;
- `Loop.apart_of_clear`: a store and an access without findings are kept apart;
- `Loop.independent_iterations_of_safe_kind`: all of it for a whole loop.
-/

namespace LoopAnalysis

/-! ## §1 Calls and accumulators -/

/-- A loop lists no `impureCallees` exactly when it makes no impure call. -/
theorem LoopBody.impureCallees_eq_nil_iff {lp : LoopBody} :
    lp.impureCallees = [] ↔
      ∀ i ∈ lp.instructions, ¬(i.isCall = true ∧ i.hasSideEffects = true) := by
  simp only [impureCallees, List.filterMap_eq_nil_iff]
  refine forall₂_congr fun i _ => ?_
  cases i with
  | call r callee args isPure =>
    cases isPure <;> simp [Instruction.isCall, Instruction.hasSideEffects]
  | _ => simp [Instruction.isCall]

/-- A store that completes no accumulator has none. -/
theorem accumulatorAt?_eq_none {accumulators : List (Nat × Accumulator)} {write : AccessSite}
    (h : ∀ acc, (write.order, acc) ∉ accumulators) : accumulatorAt? accumulators write = none := by
  rw [accumulatorAt?, Option.map_eq_none_iff, List.find?_eq_none]
  rintro ⟨order, acc⟩ hmem horder
  rw [beq_iff_eq] at horder
  dsimp only at horder
  subst horder
  exact h acc hmem

namespace Loop

variable {lp : Loop} {iv : ValueId} {w o : AccessSite}

/-! ## §2 Accesses that never meet -/

/-- In any two different iterations of one run of the loop, `w` and `o` touch different places of an
array. -/
def NeverMeet (lp : Loop) (iv : ValueId) (w o : AccessSite) : Prop :=
  ∀ r₁ r₂ : Valuation, r₁.Respects lp.toLoopBody → r₂.Respects lp.toLoopBody →
    Valuation.AgreeOutside lp.toLoopBody r₁ r₂ → r₁.value iv ≠ r₂.value iv →
    w.indices.map r₁.eval ≠ o.indices.map r₂.eval

theorem NeverMeet.symm (h : lp.NeverMeet iv w o) : lp.NeverMeet iv o w := by
  intro r₁ r₂ h₁ h₂ hagree hne heq
  have hback : Valuation.AgreeOutside lp.toLoopBody r₂ r₁ :=
    ⟨fun v hv => (hagree.value v hv).symm, hagree.symbol.symm, hagree.fraction.symm⟩
  exact h r₂ r₁ h₂ h₁ hback hne.symm heq.symm

/-- Accesses that are `independent`, or meet in the `sameIteration` only, never meet in two. -/
theorem neverMeet_of_relate (hiv : lp.inductionVariable = some iv) (hw : w ∈ lp.accesses)
    (ho : o ∈ lp.accesses)
    (h : relate w o = .ok .independent ∨ relate w o = .ok .sameIteration) :
    lp.NeverMeet iv w o := by
  intro r₁ r₂ h₁ h₂ _ hne hmeet
  rcases h with hrel | hrel
  · exact relate_sound hiv h₁ h₂ hw ho hrel hmeet
  · -- Meeting would make the two iterations one.
    have hgap : r₂.value iv - r₁.value iv = 0 := relate_sound hiv h₁ h₂ hw ho hrel hmeet
    omega

/-- A store compared with itself is either `uniform`, at one place in every iteration, or never at
the same place twice. -/
theorem neverMeet_self (hiv : lp.inductionVariable = some iv) (hw : w ∈ lp.accesses)
    {rel : Relation} (hrel : relate w w = .ok rel) (hmoves : rel ≠ .uniform) :
    lp.NeverMeet iv w w := by
  apply neverMeet_of_relate hiv hw hw
  cases rel with
  | independent => exact .inl hrel
  | sameIteration => exact .inr hrel
  | distance d => exact absurd hrel relate_self_ne_distance
  | uniform => exact absurd rfl hmoves

/-! ## §3 From findings to iterations -/

/-- A store and another access whose findings are `Clear` lie in arrays that do not move. In one
array they were compared by `relate`, in one order or the other, and found apart. -/
theorem compared_of_clear
    (hclear : (memoryFindings (lp.memoryAccumulators lp.accesses) lp.accesses).Clear)
    (hw : w ∈ lp.accesses) (hwrite : w.isWrite = true) (ho : o ∈ lp.accesses)
    (horder : o.order ≠ w.order) :
    w.baseInvariant = true ∧ o.baseInvariant = true ∧
      (w.base = o.base →
        (relate w o = .ok .independent ∨ relate w o = .ok .sameIteration) ∨
        (relate o w = .ok .independent ∨ relate o w = .ok .sameIteration)) := by
  rw [clear_memoryFindings_iff] at hclear
  by_cases hlater : o.isWrite = true → w.order < o.order
  · obtain ⟨hwi, hoi, hrel⟩ := relate_of_clear_relatePair horder hlater (hclear w hw hwrite o ho)
    exact ⟨hwi, hoi, fun hbase => .inl (hrel hbase.symm)⟩
  · -- An earlier store: the pair was compared the other way round.
    push Not at hlater
    obtain ⟨howrite, hle⟩ := hlater
    obtain ⟨hoi, hwi, hrel⟩ := relate_of_clear_relatePair horder.symm
      (fun _ => by omega) (hclear o ho howrite w hw)
    exact ⟨hwi, hoi, fun hbase => .inr (hrel hbase)⟩

/-- **A store and an access whose findings are `Clear` are kept apart**: their arrays do not move,
and in one array they never meet. -/
theorem apart_of_clear (hiv : lp.inductionVariable = some iv)
    (hclear : (memoryFindings (lp.memoryAccumulators lp.accesses) lp.accesses).Clear)
    (hw : w ∈ lp.accesses) (hwrite : w.isWrite = true) (ho : o ∈ lp.accesses)
    (hself : o = w → ∀ acc, (w.order, acc) ∉ lp.memoryAccumulators lp.accesses) :
    w.baseInvariant = true ∧ o.baseInvariant = true ∧ (w.base = o.base → lp.NeverMeet iv w o) := by
  by_cases heq : o = w
  · -- The store against itself, which is compared because it completes no accumulator.
    subst heq
    have hpair := clear_memoryFindings_iff.mp hclear o hw hwrite o ho
    rw [accumulatorAt?_eq_none (hself rfl), relatePair, if_pos rfl, Option.isNone_none,
      if_pos rfl] at hpair
    obtain ⟨hinvariant, rel, hrel, hmoves⟩ := relate_of_clear_relateSelf hpair
    exact ⟨hinvariant, hinvariant, fun _ => neverMeet_self hiv hw hrel hmoves⟩
  · have horder : o.order ≠ w.order := fun h => heq (eq_of_order_eq ho hw h)
    obtain ⟨hwi, hoi, hcompared⟩ := compared_of_clear hclear hw hwrite ho horder
    refine ⟨hwi, hoi, fun hbase => ?_⟩
    rcases hcompared hbase with hrel | hrel
    · exact neverMeet_of_relate hiv hw ho hrel
    · exact (neverMeet_of_relate hiv ho hw hrel).symm

/-- **A safe profile is right**: a loop of the kind `independent` or `readOnly` has no impure call
and no carried scalar, and every store is kept apart from every access in all other iterations. -/
theorem independent_iterations_of_safe_kind (lp : Loop) (iv : ValueId)
    (hiv : lp.inductionVariable = some iv)
    (hkind : lp.dependenceProfile.kind = .independent ∨ lp.dependenceProfile.kind = .readOnly) :
    (∀ i ∈ lp.instructions, ¬(i.isCall = true ∧ i.hasSideEffects = true)) ∧
    lp.carriedScalars = [] ∧
    ∀ w ∈ lp.accesses, w.isWrite = true → ∀ o ∈ lp.accesses,
      (o = w → ∀ acc, (w.order, acc) ∉ lp.memoryAccumulators lp.accesses) →
      w.baseInvariant = true ∧ o.baseInvariant = true ∧
        (w.base = o.base →
          ∀ r₁ r₂ : Valuation, r₁.Respects lp.toLoopBody → r₂.Respects lp.toLoopBody →
            Valuation.AgreeOutside lp.toLoopBody r₁ r₂ → r₁.value iv ≠ r₂.value iv →
            w.indices.map r₁.eval ≠ o.indices.map r₂.eval) := by
  have hsafe : lp.dependenceProfile.kind.isSafe = true := by
    rcases hkind with h | h <;> rw [h] <;> rfl
  obtain ⟨hcalls, hscalars, hclear⟩ := LoopBody.clear_of_isSafe hsafe
  refine ⟨LoopBody.impureCallees_eq_nil_iff.mp hcalls, hscalars, ?_⟩
  intro w hw hwrite o ho hself
  exact apart_of_clear hiv hclear hw hwrite ho hself

/-! ## §4 A loop that is safe by parity -/

/-- `for i: B[2 * i] = B[2 * i + 1]`, with the double of `i` written as a shift. -/
def evenFromOdd : Loop :=
  straight ⟨0⟩ [
    .phi ⟨0⟩ [(.int 0, ⟨0⟩), (.value ⟨6⟩, ⟨1⟩)],
    .binary ⟨1⟩ .shl (.value ⟨0⟩) (.int 1),
    .binary ⟨2⟩ .add (.value ⟨1⟩) (.int 1),
    .elementPtr ⟨3⟩ (.symbol "B") [.value ⟨2⟩],
    .load ⟨4⟩ (.value ⟨3⟩),
    .elementPtr ⟨5⟩ (.symbol "B") [.value ⟨1⟩],
    .store (.value ⟨5⟩) (.value ⟨4⟩),
    .binary ⟨6⟩ .add (.value ⟨0⟩) (.int 1)]

/-- Iteration `n` of `evenFromOdd`. -/
def evenFromOddAt (n : Int) : Valuation where
  value v := [n, 2 * n, 2 * n + 1, 0, 0, 0, n + 1].getD v.index 0
  symbol _ := 0
  fraction _ := 0

theorem respects_evenFromOddAt (n : Int) : (evenFromOddAt n).Respects evenFromOdd.toLoopBody := by
  intro v i z hdef hz
  obtain ⟨hmem, hresult⟩ := mem_of_straight_definition hdef
  simp only [List.mem_cons, List.not_mem_nil, or_false] at hmem
  -- Only the shift and the two sums have a meaning to check.
  rcases hmem with rfl | rfl | rfl | rfl | rfl | rfl | rfl | rfl <;> cases hresult <;>
    simp [Instruction.meaning?, BinaryOp.meaning?, Valuation.eval, evenFromOddAt] at hz ⊢ <;>
    omega

theorem agreeOutside_evenFromOddAt (m n : Int) :
    Valuation.AgreeOutside evenFromOdd.toLoopBody (evenFromOddAt m) (evenFromOddAt n) := by
  refine ⟨fun v hv => ?_, rfl, rfl⟩
  have hdefined := straight_defines_eq_false_iff.mp hv
  simp only [List.mem_cons, List.not_mem_nil, or_false, forall_eq_or_imp, forall_eq,
    Instruction.result, ne_eq, Option.some.injEq, reduceCtorEq, not_false_eq_true,
    true_and] at hdefined
  obtain ⟨k⟩ := v
  have hlarge : 7 ≤ k := by
    simp only [ValueId.mk.injEq] at hdefined
    omega
  simp [evenFromOddAt, hlarge]

/-- The theorem at a loop whose store and load share an array and are told apart by parity. -/
theorem evenFromOdd_independent :
    evenFromOdd.dependenceProfile.kind = .independent ∧
    ∀ w ∈ evenFromOdd.accesses, w.isWrite = true → ∀ o ∈ evenFromOdd.accesses,
      ∀ m n : Int, m ≠ n →
        w.indices.map (evenFromOddAt m).eval ≠ o.indices.map (evenFromOddAt n).eval := by
  have hkind : evenFromOdd.dependenceProfile.kind = .independent := by decide
  have hbase : ∀ s ∈ evenFromOdd.accesses, s.base = "B" := by decide
  have hplain : evenFromOdd.memoryAccumulators evenFromOdd.accesses = [] := rfl
  have hloop := independent_iterations_of_safe_kind evenFromOdd ⟨0⟩ rfl (.inl hkind)
  refine ⟨hkind, fun w hw hwrite o ho m n hne => ?_⟩
  have hpair := hloop.2.2 w hw hwrite o ho (fun _ acc => by simp [hplain])
  exact hpair.2.2 ((hbase w hw).trans (hbase o ho).symm) _ _ (respects_evenFromOddAt m)
    (respects_evenFromOddAt n) (agreeOutside_evenFromOddAt m n) hne

end Loop

end LoopAnalysis
