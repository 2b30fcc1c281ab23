import LoopAnalysis.Proofs.Access.Base
import LoopAnalysis.Proofs.Dependence.Accumulators
import LoopAnalysis.Proofs.Dependence.Independence
import LoopAnalysis.Proofs.Recurrence.MemoryTotals

/-!
# Totals in memory and the dependences that record them

A store that completes a total is not compared with itself, because the pair of the store and the
read that it completes stands for the total. The read is found by the text of its address, while
the pair is looked at only if both are of one array, by the text of the array. Where the two texts
agree every total is recorded; a name given to an address takes the two apart.

## Main statements

- `Loop.Completes.recorded`, `Loop.Completes.in_doubt`: what a total in one array leaves behind;
- `Loop.Completes.base_eq`: addresses that are spelled out are of one array;
- `Loop.totals_apart_of_independent`: the only stores to one place that a loop without dependences
  can make;
- `Loop.memory_totals_recorded`: all of it for every loop.
-/

namespace LoopAnalysis.Loop

variable {lp : Loop} {acc : Accumulator} {write read : AccessSite} {loaded : ValueId}
  {m : Accumulation}

/-! ## §1 What a total leaves behind -/

/-- A total in one array is among the `carried` dependences of its loop. -/
theorem Completes.recorded (h : lp.Completes acc write read loaded m)
    (hmem : (write.order, acc) ∈ lp.memoryAccumulators lp.accesses)
    (hbase : read.base = write.base) (hinvariant : read.baseInvariant = true) :
    acc.dependence ∈ lp.dependenceProfile.carried := by
  rw [dependenceProfile, LoopBody.carried_ofSites, mem_carried_findings_iff,
    mem_carried_memoryFindings_iff]
  refine .inl ⟨write, h.write_mem, h.isWrite, read, h.read_mem, ?_⟩
  rw [h.relatePair_eq hmem hbase, if_pos hinvariant]
  exact List.mem_singleton_self _

/-- Where the array of its read seems to move, the total makes the flow of the loop a `complexFlow`.
-/
theorem Completes.in_doubt (h : lp.Completes acc write read loaded m)
    (hmem : (write.order, acc) ∈ lp.memoryAccumulators lp.accesses)
    (hbase : read.base = write.base) (hmoves : read.baseInvariant = false) :
    lp.dependenceProfile.kind = .complexFlow := by
  apply LoopBody.kind_of_ambiguous_relatePair h.write_mem h.isWrite h.read_mem
  rw [h.relatePair_eq hmem hbase, hmoves]
  rfl

/-- A total whose addresses are both `isSpelledOut` is kept in one array. -/
theorem Completes.base_eq {a b : Operand} (h : lp.Completes acc write read loaded m)
    (ha : lp.addressOf? read = some a) (hb : lp.addressOf? write = some b)
    (hread : lp.isSpelledOut a = true) (hwrite : lp.isSpelledOut b = true) :
    read.base = write.base := by
  obtain ⟨a', hra⟩ := exists_address h.read_mem
  obtain ⟨b', hwb⟩ := exists_address h.write_mem
  obtain rfl : a' = a := Option.some.inj (hra.addressOf.symm.trans ha)
  obtain rfl : b' = b := Option.some.inj (hwb.addressOf.symm.trans hb)
  exact base_eq_of_spelledOut hra hwb hread hwrite h.same

/-! ## §2 Stores to one place -/

/-- A store to one place that completes no total always shows up in `relateSelf`. -/
theorem not_clear_relateSelf (huniform : write.isUniform = true) : ¬ (relateSelf write).Clear := by
  intro hclear
  obtain ⟨-, rel, hrel, hmoves⟩ := relate_of_clear_relateSelf hclear
  exact hmoves (relate_self_of_isUniform huniform hrel)

/-- **Only a total that seems to span two arrays goes unnoticed**: a store to one place in a loop of
the kind `independent` completes a total, and every read that it completes is of another array by
its text. -/
theorem totals_apart_of_independent (hw : write ∈ lp.accesses) (hwrite : write.isWrite = true)
    (huniform : write.isUniform = true) (hkind : lp.dependenceProfile.kind = .independent) :
    ∃ acc, (write.order, acc) ∈ lp.memoryAccumulators lp.accesses ∧
      ∀ read loaded m, lp.Completes acc write read loaded m → read.base ≠ write.base := by
  have hsafe : lp.dependenceProfile.kind.isSafe = true := by
    rw [hkind]
    rfl
  have hclear := clear_memoryFindings_iff.mp (LoopBody.clear_of_isSafe hsafe).2.2 write hw hwrite
  -- Compared with itself the store would have shown up, so it completes some total.
  have hexists : ∃ acc, (write.order, acc) ∈ lp.memoryAccumulators lp.accesses := by
    by_contra hnone
    have hself := hclear write hw
    rw [accumulatorAt?_eq_none (not_exists.mp hnone), relatePair, if_pos rfl, Option.isNone_none,
      if_pos rfl] at hself
    exact not_clear_relateSelf huniform hself
  obtain ⟨acc, hmem⟩ := hexists
  refine ⟨acc, hmem, fun read loaded m hcompletes hbase => ?_⟩
  -- A read of the same array would have been recorded, or would have left a doubt.
  have hpair := hclear read hcompletes.read_mem
  rw [hcompletes.relatePair_eq hmem hbase] at hpair
  split at hpair
  · cases hpair.carried
  · cases hpair.ambiguous

/-! ## §3 All totals of a loop -/

/-- **Totals and recorded dependences agree where texts tell arrays apart.** Behind every memory
accumulator stand a store and a read (`Completes`). If the two are of one array, the accumulator is
recorded as a dependence of distance one, with its name, its operator and whether it can be
privatized, unless the array of the read moves, which makes the flow complex. They are of one array
wherever both addresses are spelled out. And a store to one place never leaves a loop without
dependences unless it completes a total whose reads are all of another array by their texts. -/
theorem memory_totals_recorded (lp : Loop) :
    (∀ order acc, (order, acc) ∈ lp.memoryAccumulators lp.accesses →
      (∃ write read loaded m, write.order = order ∧ lp.Completes acc write read loaded m) ∧
      ∀ write read loaded m, write.order = order → lp.Completes acc write read loaded m →
        (read.base = write.base →
          (read.baseInvariant = true → acc.dependence ∈ lp.dependenceProfile.carried) ∧
          (read.baseInvariant = false → lp.dependenceProfile.kind = .complexFlow)) ∧
        ∀ a b, lp.addressOf? read = some a → lp.addressOf? write = some b →
          lp.isSpelledOut a = true → lp.isSpelledOut b = true → read.base = write.base) ∧
    (∀ write ∈ lp.accesses, write.isWrite = true → write.isUniform = true →
      lp.dependenceProfile.kind = .independent →
      ∃ acc, (write.order, acc) ∈ lp.memoryAccumulators lp.accesses ∧
        ∀ read loaded m, lp.Completes acc write read loaded m → read.base ≠ write.base) := by
  constructor
  · intro order acc hmem
    obtain ⟨write, read, loaded, m, horder, hcompletes, -⟩ :=
      completes_of_mem_memoryAccumulators hmem
    refine ⟨⟨write, read, loaded, m, horder, hcompletes⟩, ?_⟩
    rintro write read loaded m rfl hcompletes
    refine ⟨fun hbase => ⟨?_, ?_⟩, fun a b ha hb => hcompletes.base_eq ha hb⟩
    · exact hcompletes.recorded hmem hbase
    · exact hcompletes.in_doubt hmem hbase
  · intro write hw hwrite huniform hkind
    exact totals_apart_of_independent hw hwrite huniform hkind

/-- The theorem at a plain sum, whose total is recorded. -/
theorem total_recorded :
    (5, keptTotal) ∈ (keepsTotal []).memoryAccumulators (keepsTotal []).accesses ∧
      keptTotal.dependence ∈ (keepsTotal []).dependenceProfile.carried := by
  have hmem : (5, keptTotal) ∈ (keepsTotal []).memoryAccumulators (keepsTotal []).accesses :=
    List.mem_singleton.mpr rfl
  have hsteady : ∀ s ∈ (keepsTotal []).accesses, s.baseInvariant = true := by decide
  have hspell : ∀ s ∈ (keepsTotal []).accesses,
      ((keepsTotal []).addressOf? s).any (keepsTotal []).isSpelledOut = true := by decide
  obtain ⟨⟨write, read, loaded, m, horder, hcompletes⟩, hall⟩ :=
    (memory_totals_recorded (keepsTotal [])).1 5 keptTotal hmem
  obtain ⟨hrecorded, hbase⟩ := hall write read loaded m horder hcompletes
  obtain ⟨a, ha, hread⟩ := (Option.any_eq_true _ _).mp (hspell read hcompletes.read_mem)
  obtain ⟨b, hb, hwrite⟩ := (Option.any_eq_true _ _).mp (hspell write hcompletes.write_mem)
  refine ⟨hmem, (hrecorded (hbase a b ha hb hread hwrite)).1 ?_⟩
  exact hsteady read hcompletes.read_mem

/-! ## §4 A cell copied under one name -/

/-- Computes `for i: B[0] = A[0] + 1`, with both addresses named `cell`. -/
def copiesCell : Loop :=
  { straight ⟨0⟩ [
      .phi ⟨0⟩ [(.int 0, ⟨0⟩), (.value ⟨5⟩, ⟨1⟩)],
      .elementPtr ⟨1⟩ (.symbol "A") [.int 0],
      .load ⟨2⟩ (.value ⟨1⟩),
      .binary ⟨3⟩ .add (.value ⟨2⟩) (.int 1),
      .elementPtr ⟨4⟩ (.symbol "B") [.int 0],
      .store (.value ⟨4⟩) (.value ⟨3⟩),
      .binary ⟨5⟩ .add (.value ⟨0⟩) (.int 1)] with
    valueName := fun v => if v = ⟨1⟩ ∨ v = ⟨4⟩ then some "cell" else none }

/-- The total that the two cells are taken for. -/
def copiedCell : Accumulator :=
  { variableName := "cell", operator := .sum, addend := .int 1, update := ⟨3⟩, soleUse := true
    storage := .memory }

/-- **A total can go unrecorded**: the cells of `copiesCell` are matched as one total although they
lie in two arrays, so the store to one place is compared with nothing and the loop is said to carry
no dependence. -/
theorem copiesCell_unrecorded :
    (5, copiedCell) ∈ copiesCell.memoryAccumulators copiesCell.accesses ∧
      copiesCell.accesses.map (·.base) = ["A", "B"] ∧
      (∃ write ∈ copiesCell.accesses, write.isWrite = true ∧ write.isUniform = true) ∧
      copiesCell.dependenceProfile.kind = .independent ∧
      copiesCell.dependenceProfile.carried = [] := by
  exact ⟨List.mem_singleton.mpr rfl, by decide, by decide, by decide, by decide⟩

end LoopAnalysis.Loop
