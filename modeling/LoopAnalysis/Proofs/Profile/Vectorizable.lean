import LoopAnalysis.Proofs.Dependence.Accumulators
import LoopAnalysis.Proofs.Dependence.Independence
import LoopAnalysis.Proofs.Profile.Vectorization
import LoopAnalysis.Proofs.Recurrence.Observers

/-!
# What a positive verdict says about the loop

The verdict on vectorization is a table over two summaries. Read backwards, a positive entry says
how every single access of the loop behaves, and that the loop carries nothing, or one accumulator
in a register.

## Main statements

- `Loop.steady_of_vectorizable`: the accesses of a vectorized loop;
- `Loop.scalar_of_eliminable`: the dependence to eliminate where no total is kept in memory;
- `Loop.guarantees_of_vectorizable`: all that the verdict guarantees.
-/

namespace LoopAnalysis

/-! ## §1 Accesses -/

namespace Loop

variable {lp : Loop} {s : AccessSite}

/-- The `primaryPattern` of a vectorized loop is sequential or strided. -/
theorem rank_le_two_of_vectorizable
    (h : (VectorizationVerdict.assess lp.memoryProfile lp.dependenceProfile).vectorizable = true) :
    lp.memoryProfile.primaryPattern ≠ .random ∧ lp.memoryProfile.primaryPattern.rank ≤ 2 := by
  rcases VectorizationVerdict.cases_of_vectorizable h with ⟨hseq, -⟩ | ⟨⟨stride, hstride⟩, -⟩
  · rw [hseq]
    exact ⟨by simp, by decide⟩
  · rw [hstride]
    exact ⟨by simp, Nat.le_refl 2⟩

/-- Every access of a vectorized loop is of an array that stays where it is, and none that shares
its array with a store satisfies `isUniform`. -/
theorem steady_of_vectorizable
    (h : (VectorizationVerdict.assess lp.memoryProfile lp.dependenceProfile).vectorizable = true)
    (hs : s ∈ lp.accesses) :
    s.baseInvariant = true ∧ (s.base ∈ writtenBases lp.accesses → s.isUniform = false) := by
  obtain ⟨hwalks, hrank⟩ := rank_le_two_of_vectorizable h
  have hle := (rank_pattern_le hwalks hs).trans hrank
  constructor
  · by_contra hbase
    rw [pattern_of_not_baseInvariant (by simpa using hbase)] at hle
    exact absurd hle (by decide)
  · intro hwritten
    rw [Bool.eq_false_iff]
    intro huniform
    rw [pattern_of_uniform huniform hwritten] at hle
    exact absurd hle (by decide)

/-- So it has no `memoryAccumulators`: the store of such a total would stay in one place. -/
theorem memoryAccumulators_of_vectorizable
    (h : (VectorizationVerdict.assess lp.memoryProfile lp.dependenceProfile).vectorizable = true) :
    lp.memoryAccumulators lp.accesses = [] := by
  apply List.eq_nil_iff_forall_not_mem.mpr
  rintro ⟨order, acc⟩ hmem
  obtain ⟨write, read, loaded, m, -, hcompletes, -⟩ := completes_of_mem_memoryAccumulators hmem
  have hwritten : write.base ∈ writtenBases lp.accesses :=
    mem_writtenBases_iff.mpr ⟨write, hcompletes.write_mem, hcompletes.isWrite, rfl⟩
  have hmoves := (steady_of_vectorizable h hcompletes.write_mem).2 hwritten
  rw [hcompletes.isUniform] at hmoves
  cases hmoves

/-! ## §2 Dependences -/

/-- In a loop without `memoryAccumulators`, the dependence to eliminate is one of the
`carriedScalars`, and nothing comes from its accesses. -/
theorem scalar_of_eliminable (hplain : lp.memoryAccumulators lp.accesses = [])
    (helim : lp.dependenceProfile.eliminable = true) :
    ∃ s ∈ lp.carriedScalars, ∃ acc, s.accumulator = some acc ∧ acc.soleUse = true ∧
      acc.storage = .register ∧ lp.dependenceProfile.carried = [s.dependence] ∧
      (memoryFindings (lp.memoryAccumulators lp.accesses) lp.accesses).carried = [] := by
  obtain ⟨d, -, hprivate, hfound, -⟩ := LoopBody.lone_dependence_of_eliminable helim
  -- Whatever came from the accesses would be the one dependence, which is privatizable.
  have hmemory :
      (memoryFindings (lp.memoryAccumulators lp.accesses) lp.accesses).carried = [] := by
    apply List.eq_nil_iff_forall_not_mem.mpr
    intro e he
    obtain rfl : e = d := by simpa [hfound] using mem_carried_findings_iff.mpr (.inl he)
    obtain ⟨order, acc, hmem, -⟩ := mem_accumulators_of_privatizable he hprivate
    rw [hplain] at hmem
    cases hmem
  -- The one dependence that was found is a scalar, and its accumulator has no other use.
  have hmem : d ∈ (lp.findings lp.accesses).carried := by
    rw [hfound]
    exact List.mem_singleton_self d
  rcases mem_carried_findings_iff.mp hmem with haccess | ⟨s, hs, rfl⟩
  · rw [hmemory] at haccess
    cases haccess
  · obtain ⟨acc, hacc, hsole, hcarried⟩ := scalar_accumulates_of_eliminable hs helim
    have hregister := LoopBody.storage_of_mem_carriedScalars hs hacc
    exact ⟨s, hs, acc, hacc, hsole, hregister, hcarried, hmemory⟩

/-- A vectorized loop has no `impureCallees`, whichever row of the table it stands in. -/
theorem impureCallees_of_vectorizable
    (h : (VectorizationVerdict.assess lp.memoryProfile lp.dependenceProfile).vectorizable = true) :
    lp.impureCallees = [] := by
  have hcases : lp.dependenceProfile.kind.isSafe = true ∨
      lp.dependenceProfile.eliminable = true := by
    rcases VectorizationVerdict.cases_of_vectorizable h with ⟨-, hdep⟩ | ⟨-, hsafe⟩
    · exact hdep
    · exact .inl hsafe
  rcases hcases with hsafe | helim
  · exact (LoopBody.clear_of_isSafe hsafe).1
  · exact LoopBody.impureCallees_of_eliminable helim

/-! ## §3 The verdict -/

/-- **What a positive verdict guarantees.** A loop that `assess` vectorizes has an induction
variable and makes accesses, all of them to arrays that it does not move; none of those that share
their array with a store stays in one place, and nothing impure is called. It carries no dependence,
or it is sequential and carries exactly one: that of a header phi whose accumulator has `soleUse`.
No access contributes to that dependence, and there are no `memoryAccumulators`. -/
theorem guarantees_of_vectorizable (lp : Loop)
    (h : (VectorizationVerdict.assess lp.memoryProfile lp.dependenceProfile).vectorizable = true) :
    lp.inductionVariable.isSome = true ∧ lp.accesses ≠ [] ∧
    (∀ s ∈ lp.accesses, s.baseInvariant = true) ∧
    (∀ w ∈ lp.accesses, w.isWrite = true → ∀ s ∈ lp.accesses, s.base = w.base →
      s.isUniform = false) ∧
    (∀ i ∈ lp.instructions, ¬(i.isCall = true ∧ i.hasSideEffects = true)) ∧
    (lp.dependenceProfile.carried = [] ∨
      lp.memoryProfile.primaryPattern = .sequential ∧
      ∃ d, lp.dependenceProfile.carried = [d] ∧ d.kind = .raw ∧ d.distance = 1 ∧
        (∃ s ∈ lp.carriedScalars, s.dependence = d ∧
          ∃ acc, s.accumulator = some acc ∧ acc.soleUse = true ∧ acc.storage = .register) ∧
        (memoryFindings (lp.memoryAccumulators lp.accesses) lp.accesses).carried = [] ∧
        lp.memoryAccumulators lp.accesses = []) := by
  obtain ⟨hiv, haccesses⟩ := walked_of_primaryPattern (rank_le_two_of_vectorizable h).1
  have hcalls := LoopBody.impureCallees_eq_nil_iff.mp (impureCallees_of_vectorizable h)
  refine ⟨hiv, haccesses, fun s hs => (steady_of_vectorizable h hs).1, ?_, hcalls, ?_⟩
  · intro w hw hwrite s hs hbase
    exact (steady_of_vectorizable h hs).2 (mem_writtenBases_iff.mpr ⟨w, hw, hwrite, hbase.symm⟩)
  · -- Only a sequential loop may carry something, and then it is the scalar.
    rcases VectorizationVerdict.cases_of_vectorizable h with ⟨hseq, hsafe | helim⟩ | ⟨-, hsafe⟩
    · exact .inl (carried_of_isSafe hsafe)
    · have hplain := memoryAccumulators_of_vectorizable h
      obtain ⟨s, hs, acc, hacc, hsole, hregister, hcarried, hmemory⟩ :=
        scalar_of_eliminable hplain helim
      exact .inr ⟨hseq, s.dependence, hcarried, rfl, rfl,
        ⟨s, hs, rfl, acc, hacc, hsole, hregister⟩, hmemory, hplain⟩
    · exact .inl (carried_of_isSafe hsafe)

/-- The theorem at `keepsMaximum`, which is vectorized although it carries a maximum. -/
theorem maximum_vectorizable :
    (VectorizationVerdict.assess (keepsMaximum []).memoryProfile
        (keepsMaximum []).dependenceProfile).vectorizable = true ∧
      ∃ d, (keepsMaximum []).dependenceProfile.carried = [d] ∧ d.kind = .raw ∧
        ∃ s ∈ (keepsMaximum []).carriedScalars, s.dependence = d := by
  have h : (VectorizationVerdict.assess (keepsMaximum []).memoryProfile
      (keepsMaximum []).dependenceProfile).vectorizable = true := by decide
  have hcarries : (keepsMaximum []).dependenceProfile.carried ≠ [] := by decide
  obtain ⟨-, -, -, -, -, hcarried⟩ := guarantees_of_vectorizable (keepsMaximum []) h
  rcases hcarried with hnone | ⟨-, d, hd, hraw, -, ⟨s, hs, hdep, -⟩, -⟩
  · exact absurd hnone hcarries
  · exact ⟨h, d, hd, hraw, s, hs, hdep⟩

end Loop

end LoopAnalysis
