import LoopAnalysis.Proofs.Dependence.Accumulators
import LoopAnalysis.Proofs.Program.Straight

/-!
# Totals kept in memory

A total in memory can be given to each worker when the running total goes nowhere but into its own
place. The check asks that every use of the update is in a store; a loop that also stores the
running total somewhere else passes it.

## Main definitions

- `LoopBody.UsedOnlyAt`, `LoopBody.StoredOnlyAt`: the uses of a value, or those in stores, stand at
  one position.

## Main statements

- `Loop.usedOnlyAt_iff_storedOnlyAt`: the exact gap between the check and confinement;
- `Loop.not_eliminable_of_shared_total`: a total that fails the check is never eliminated;
- `Loop.memory_total_confined_iff`: both for every memory accumulator.
-/

namespace LoopAnalysis

/-! ## §1 Uses at one position -/

namespace LoopBody

/-- The only instruction that `uses` a value stands at the given position. -/
def UsedOnlyAt (lp : LoopBody) (v : ValueId) (order : Nat) : Prop :=
  ∀ n i, lp.instructions[n]? = some i → i.uses v = true → n = order

/-- The only store that `uses` a value, as address or as what it writes, stands at the given
position. -/
def StoredOnlyAt (lp : LoopBody) (v : ValueId) (order : Nat) : Prop :=
  ∀ n i, lp.instructions[n]? = some i → i.isStore = true → i.uses v = true → n = order

end LoopBody

namespace Loop

variable {lp : Loop} {order : Nat} {acc : Accumulator} {write read : AccessSite} {loaded : ValueId}
  {m : Accumulation}

/-- The store of a total that is completed stands at its `order` and writes the update. -/
theorem Completes.store (h : lp.Completes acc write read loaded m) :
    ∃ address, lp.instructions[write.order]? = some (.store address (.value acc.update)) := by
  obtain ⟨address, v, hi, hv⟩ := store_of_isWrite h.write_mem h.isWrite
  obtain rfl : v = .value acc.update := Option.some.inj (hv.symm.trans h.value)
  exact ⟨address, hi⟩

/-- Where all uses are in stores, `UsedOnlyAt` and `StoredOnlyAt` say the same. -/
theorem usedOnlyAt_iff_storedOnlyAt {v : ValueId}
    (hstores : ∀ i ∈ lp.instructions, i.uses v = true → i.isStore = true) :
    lp.UsedOnlyAt v order ↔ lp.StoredOnlyAt v order := by
  constructor
  · intro h n i hi _ huse
    exact h n i hi huse
  · intro h n i hi huse
    exact h n i hi (hstores i (List.mem_of_getElem? hi) huse) huse

/-- Where the position of the store is the only one of all uses of the update, all of them are in
stores. -/
theorem Completes.stores_of_usedOnlyAt (h : lp.Completes acc write read loaded m)
    (honly : lp.UsedOnlyAt acc.update write.order) :
    ∀ i ∈ lp.instructions, i.uses acc.update = true → i.isStore = true := by
  intro i hi huse
  -- Whatever uses the update stands where the store stands.
  obtain ⟨n, hn⟩ := List.mem_iff_getElem?.mp hi
  obtain ⟨address, hstore⟩ := h.store
  rw [honly n i hn huse, hstore] at hn
  cases hn
  rfl

/-! ## §2 Confined totals -/

/-- **A total that fails the check is never eliminated**: without `soleUse` the dependence that it
gives would be the only one of the loop, and it is not privatizable. -/
theorem not_eliminable_of_shared_total (h : lp.Completes acc write read loaded m)
    (hmem : (write.order, acc) ∈ lp.memoryAccumulators lp.accesses) (hshared : acc.soleUse = false)
    (hbase : read.base = write.base) : lp.dependenceProfile.eliminable = false := by
  rw [Bool.eq_false_iff]
  intro helim
  obtain ⟨d, hd, hprivate, -⟩ := LoopBody.lone_dependence_of_eliminable helim
  obtain rfl := h.dependence_eq hmem hbase helim hd
  exact absurd hprivate (by simp [Accumulator.dependence, hshared])

/-- **What the check of a total in memory guarantees, and what it misses.** Behind each of the
`memoryAccumulators` stands a store of its update at its position, and a read whose value the update
folds. If the accumulator is reported with `soleUse`, the uses of the value read belong to the
update, and the own store is the only user of the update exactly when no other store uses it.
Conversely, uses that are confined in this way are reported so, and a total that is not reported so
is not eliminated. -/
theorem memory_total_confined_iff (lp : Loop) (order : Nat) (acc : Accumulator)
    (hacc : (order, acc) ∈ lp.memoryAccumulators lp.accesses) :
    ∃ write read loaded m, write.order = order ∧ lp.Completes acc write read loaded m ∧
      (∃ address, lp.instructions[order]? = some (.store address (.value acc.update))) ∧
      (acc.soleUse = true →
        (∀ i ∈ lp.instructions, i.uses loaded = true → ∃ v ∈ m.expression, i.result = some v) ∧
        (lp.UsedOnlyAt acc.update order ↔ lp.StoredOnlyAt acc.update order)) ∧
      ((∀ i ∈ lp.instructions, i.uses loaded = true → ∃ v ∈ m.expression, i.result = some v) →
        lp.UsedOnlyAt acc.update order → acc.soleUse = true) ∧
      (acc.soleUse = false → read.base = write.base →
        lp.dependenceProfile.eliminable = false) := by
  obtain ⟨write, read, loaded, m, rfl, hcompletes, hiff⟩ := completes_of_mem_memoryAccumulators hacc
  rw [LoopBody.usesConfined_iff] at hiff
  refine ⟨write, read, loaded, m, rfl, hcompletes, hcompletes.store, fun hsole => ?_,
    fun hloaded honly => ?_, fun hshared hbase => ?_⟩
  · -- What was checked is that all uses of the update are in stores, not in which.
    obtain ⟨hloaded, hstores⟩ := hiff.mp hsole
    exact ⟨hloaded, usedOnlyAt_iff_storedOnlyAt hstores⟩
  · exact hiff.mpr ⟨hloaded, hcompletes.stores_of_usedOnlyAt honly⟩
  · exact not_eliminable_of_shared_total hcompletes hacc hshared hbase

/-! ## §3 Two loops that keep a total -/

/-- `for i: *total += A[i]`, followed by what else the body does. -/
def keepsTotal (rest : List Instruction) : Loop :=
  straight ⟨0⟩ ([
    .phi ⟨0⟩ [(.int 0, ⟨0⟩), (.value ⟨5⟩, ⟨1⟩)],
    .elementPtr ⟨1⟩ (.symbol "A") [.value ⟨0⟩],
    .load ⟨2⟩ (.value ⟨1⟩),
    .load ⟨3⟩ (.symbol "total"),
    .binary ⟨4⟩ .fadd (.value ⟨3⟩) (.value ⟨2⟩),
    .store (.symbol "total") (.value ⟨4⟩),
    .binary ⟨5⟩ .add (.value ⟨0⟩) (.int 1)] ++ rest)

/-- The loop of `keepsTotal` that also stores each running total, `B[i] = *total`. -/
def runningTotals : Loop :=
  keepsTotal [.elementPtr ⟨6⟩ (.symbol "B") [.value ⟨0⟩], .store (.value ⟨6⟩) (.value ⟨4⟩)]

/-- The total of `keepsTotal`, whatever else the body does. -/
def keptTotal : Accumulator :=
  { variableName := "total", operator := .sum, addend := .value ⟨2⟩, update := ⟨4⟩, soleUse := true
    storage := .memory }

/-- The theorem at the plain sum of `keepsTotal`: its store is the only user of the update. -/
theorem total_confined :
    (5, keptTotal) ∈ (keepsTotal []).memoryAccumulators (keepsTotal []).accesses ∧
      keptTotal.soleUse = true ∧ (keepsTotal []).UsedOnlyAt keptTotal.update 5 := by
  have hmem : (5, keptTotal) ∈ (keepsTotal []).memoryAccumulators (keepsTotal []).accesses :=
    List.mem_singleton.mpr rfl
  obtain ⟨write, read, loaded, m, -, -, -, hsole, -⟩ :=
    memory_total_confined_iff (keepsTotal []) 5 keptTotal hmem
  refine ⟨hmem, rfl, (hsole rfl).2.mpr fun n i hi hstore _ => ?_⟩
  rw [keepsTotal, straight_instructions] at hi
  -- Position 5 holds the only store of the body.
  match n, hi with
  | 0, hi | 1, hi | 2, hi | 3, hi | 4, hi | 6, hi => cases hi; cases hstore
  | 5, _ => rfl

/-- **A reported total can escape**: the total of `runningTotals` is said to be used by its update
alone and the loop to be free of dependences but for it, yet a second store writes every running
total elsewhere. -/
theorem runningTotals_escape :
    (5, keptTotal) ∈ runningTotals.memoryAccumulators runningTotals.accesses ∧
      keptTotal.soleUse = true ∧
      runningTotals.instructions[8]? = some (.store (.value ⟨6⟩) (.value keptTotal.update)) ∧
      ¬ runningTotals.UsedOnlyAt keptTotal.update 5 ∧
      runningTotals.dependenceProfile.eliminable = true := by
  have hsecond :
      runningTotals.instructions[8]? = some (.store (.value ⟨6⟩) (.value keptTotal.update)) := rfl
  refine ⟨List.mem_singleton.mpr rfl, rfl, hsecond, fun honly => ?_, by decide⟩
  -- The second store stands behind the one of the total.
  have h := honly 8 _ hsecond rfl
  omega

end Loop

end LoopAnalysis
