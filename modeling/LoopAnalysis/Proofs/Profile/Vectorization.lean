import LoopAnalysis.Profile.Vectorization
import Mathlib.Tactic.Common

/-!
# What vectorization asks of memory

A loop with dependences is vectorized only if it walks memory sequentially, and a store that hits
the same place in every iteration rules that out.

## Main statements

- `AccessPattern.rank_le_of_worst?`: the pattern that stands for a loop is no more predictable than
  that of any access;
- `VectorizationVerdict.assess_of_vectorizable`: when a loop with dependences is vectorized;
- `Loop.not_vectorizable_of_uniform_store`: a total in memory is not vectorized.
-/

namespace LoopAnalysis

namespace AccessPattern

/-- The `rank` of the worse of two patterns is the larger rank. -/
theorem rank_worse (p q : AccessPattern) : (worse p q).rank = max p.rank q.rank := by
  unfold worse
  split <;> omega

theorem rank_foldl_worse (p : AccessPattern) (ps : List AccessPattern) :
    p.rank ≤ (ps.foldl worse p).rank ∧ ∀ q ∈ ps, q.rank ≤ (ps.foldl worse p).rank := by
  -- The rank that is carried along never goes down.
  induction ps generalizing p with
  | nil => exact ⟨Nat.le_refl _, by simp⟩
  | cons r ps ih =>
    obtain ⟨hfirst, hrest⟩ := ih (worse p r)
    rw [rank_worse] at hfirst
    rw [List.foldl_cons]
    refine ⟨by omega, fun q hq => ?_⟩
    rcases List.mem_cons.mp hq with rfl | hq
    · omega
    · exact hrest q hq

/-- The pattern that `worst?` gives for a list has the largest `rank`. -/
theorem rank_le_of_worst? {p q : AccessPattern} {ps : List AccessPattern} (hp : p ∈ ps)
    (h : worst? ps = some q) : p.rank ≤ q.rank := by
  cases ps with
  | nil => cases hp
  | cons first ps =>
    obtain rfl := Option.some.inj h
    obtain ⟨hfirst, hrest⟩ := rank_foldl_worse first ps
    rcases List.mem_cons.mp hp with rfl | hp
    · exact hfirst
    · exact hrest p hp

end AccessPattern

namespace VectorizationVerdict

variable {mem : MemoryProfile} {dep : DependenceProfile}

/-- The rows of the table in `assess` that vectorize a loop. -/
theorem cases_of_vectorizable (h : (assess mem dep).vectorizable = true) :
    mem.primaryPattern = .sequential ∧ (dep.kind.isSafe = true ∨ dep.eliminable = true) ∨
      (∃ stride, mem.primaryPattern = .strided stride) ∧ dep.kind.isSafe = true := by
  unfold assess at h
  dsimp only at h
  split at h
  · next hseq =>
    -- Sequential: the loop is safe, or its one dependence can be eliminated.
    refine .inl ⟨hseq, ?_⟩
    split at h
    · next hsafe => exact .inl hsafe
    · split at h
      · next helim => exact .inr helim
      · cases h
  · next stride hstride =>
    -- Strided: nothing but a safe loop will do.
    split at h
    · next hsafe => exact .inr ⟨⟨stride, hstride⟩, hsafe⟩
    · cases h
  · cases h

/-- By `assess`, a loop with dependences is vectorized only over sequential accesses, and then at
width four. -/
theorem assess_of_vectorizable (hcarries : dep.kind.isSafe = false)
    (h : (assess mem dep).vectorizable = true) :
    mem.primaryPattern = .sequential ∧ (assess mem dep).recommendedWidth = 4 := by
  rcases cases_of_vectorizable h with ⟨hseq, hsafe | helim⟩ | ⟨-, hsafe⟩
  · rw [hcarries] at hsafe
    cases hsafe
  · exact ⟨hseq, by simp [assess, hseq, hcarries, helim]⟩
  · rw [hcarries] at hsafe
    cases hsafe

end VectorizationVerdict

namespace Loop

variable {lp : Loop} {s : AccessSite}

/-- An access for which `isUniform` holds, in an array that is written to, accumulates. -/
theorem pattern_of_uniform {written : List String} (huniform : s.isUniform = true)
    (hwritten : s.base ∈ written) : s.pattern written = .reduction := by
  have hbase : s.baseInvariant = true := (Bool.and_eq_true_iff.mp huniform).1
  simp [AccessSite.pattern, hbase, huniform, hwritten]

theorem pattern_of_not_baseInvariant {written : List String} (h : s.baseInvariant = false) :
    s.pattern written = .random := by
  simp [AccessSite.pattern, h]

/-- The `writtenBases` are the arrays of the stores. -/
theorem mem_writtenBases_iff {sites : List AccessSite} {base : String} :
    base ∈ writtenBases sites ↔ ∃ w ∈ sites, w.isWrite = true ∧ w.base = base := by
  simp [writtenBases, and_assoc]

/-- A loop with a `primaryPattern` other than the default has an induction variable and accesses. -/
theorem walked_of_primaryPattern (h : lp.memoryProfile.primaryPattern ≠ .random) :
    lp.inductionVariable.isSome = true ∧ lp.accesses ≠ [] := by
  unfold memoryProfile MemoryProfile.ofSites at h
  dsimp only at h
  split at h
  · exact absurd rfl h
  · next hwalked =>
    simp only [Bool.or_eq_true, Bool.not_eq_true', not_or, Bool.not_eq_false,
      Bool.not_eq_true, List.isEmpty_eq_false_iff] at hwalked
    exact hwalked

/-- No access has a `pattern` less predictable than the `primaryPattern` of the loop. -/
theorem rank_pattern_le (h : lp.memoryProfile.primaryPattern ≠ .random) (hs : s ∈ lp.accesses) :
    (s.pattern (writtenBases lp.accesses)).rank ≤ lp.memoryProfile.primaryPattern.rank := by
  have hmem : s.pattern (writtenBases lp.accesses) ∈
      lp.accesses.map (AccessSite.pattern (writtenBases lp.accesses)) :=
    List.mem_map_of_mem hs
  unfold memoryProfile MemoryProfile.ofSites at h ⊢
  dsimp only at h ⊢
  split
  · next hdefault =>
    rw [if_pos hdefault] at h
    exact absurd rfl h
  · cases hworst : AccessPattern.worst? (lp.accesses.map
        (AccessSite.pattern (writtenBases lp.accesses))) with
    | none =>
      rw [if_neg ‹_›, hworst] at h
      exact absurd rfl h
    | some q => exact AccessPattern.rank_le_of_worst? hmem hworst

/-- **A total in memory is not vectorized**: its store is uniform, so `assess` turns the loop down.
-/
theorem not_vectorizable_of_uniform_store (hcarries : lp.dependenceProfile.kind.isSafe = false)
    (hs : s ∈ lp.accesses) (hwrite : s.isWrite = true) (huniform : s.isUniform = true) :
    (VectorizationVerdict.assess lp.memoryProfile lp.dependenceProfile).vectorizable = false := by
  rw [Bool.eq_false_iff]
  intro h
  obtain ⟨hseq, -⟩ := VectorizationVerdict.assess_of_vectorizable hcarries h
  -- The store has the pattern of a reduction, which outranks a sequential one.
  have hwritten : s.base ∈ writtenBases lp.accesses :=
    mem_writtenBases_iff.mpr ⟨s, hs, hwrite, rfl⟩
  have hrank := rank_pattern_le (by simp [hseq]) hs
  rw [pattern_of_uniform huniform hwritten, hseq] at hrank
  exact absurd hrank (by decide)

end Loop

end LoopAnalysis
