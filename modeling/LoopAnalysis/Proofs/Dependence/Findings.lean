import LoopAnalysis.Profile.Dependence
import Mathlib.Tactic.Common

/-!
# Where dependences come from

Traces each dependence of a profile back to the comparison or the carried scalar that it was found
in, and a profile without dependences back to comparisons that found nothing.

## Main definitions

- `Findings.Clear`: nothing was found and nothing is in doubt;
- `CarriedDependence.IsConflict`: a dependence between a read and a write, or between two writes;
- `DependenceKind.Occurs`: a kind occurs among dependences.

## Main statements

- `mem_carried_relatePair`: every way in which two accesses give a dependence;
- `mem_carried_findings_iff`: every dependence of a loop comes from two of its accesses or is a
  carried scalar;
- `summaryKind_cases`: every kind that a summary can give, and why;
- `LoopBody.clear_of_isSafe`: a profile that calls a loop safe has found nothing;
- `LoopBody.lone_dependence_of_eliminable`: a profile that calls its dependence eliminable has found
  that dependence alone.
-/

namespace LoopAnalysis

/-! ## §1 Findings put together -/

namespace Findings

/-- Nothing was found, and nothing is in doubt. -/
structure Clear (f : Findings) : Prop where
  carried   : f.carried = []
  ambiguous : f.ambiguous = false

private theorem foldl_append_eq (fs : List Findings) (start : Findings) :
    fs.foldl append start =
      ⟨start.carried ++ fs.flatMap (·.carried), start.ambiguous || fs.any (·.ambiguous)⟩ := by
  -- What was collected so far stays in front, so induct with the start left open.
  induction fs generalizing start with
  | nil => simp
  | cons f fs ih =>
    rw [List.foldl_cons, ih]
    simp [append, Bool.or_assoc]

@[simp] theorem carried_concat (fs : List Findings) :
    (concat fs).carried = fs.flatMap (·.carried) := by
  rw [concat, foldl_append_eq, List.nil_append]

@[simp] theorem ambiguous_concat (fs : List Findings) :
    (concat fs).ambiguous = fs.any (·.ambiguous) := by
  rw [concat, foldl_append_eq, Bool.false_or]

/-- Findings put together by `concat` are clear exactly when each of them is. -/
theorem clear_concat_iff {fs : List Findings} : (concat fs).Clear ↔ ∀ f ∈ fs, f.Clear := by
  constructor
  · rintro ⟨hcarried, hambiguous⟩ f hf
    rw [carried_concat, List.flatMap_eq_nil_iff] at hcarried
    rw [ambiguous_concat, List.any_eq_false] at hambiguous
    exact ⟨hcarried f hf, by simpa using hambiguous f hf⟩
  · intro h
    refine ⟨?_, ?_⟩
    · rw [carried_concat, List.flatMap_eq_nil_iff]
      exact fun f hf => (h f hf).carried
    · rw [ambiguous_concat, List.any_eq_false]
      exact fun f hf => by simp [(h f hf).ambiguous]

end Findings

/-! ## §2 Two accesses -/

variable {write other : AccessSite} {accumulator : Option Accumulator} {d : CarriedDependence}

/-- Only accesses of arrays that the loop does not move are related to each other by `relate`. -/
theorem baseInvariant_of_relate {rel : Relation} (h : relate write other = .ok rel) :
    write.baseInvariant = true ∧ other.baseInvariant = true := by
  unfold relate at h
  split at h
  · cases h
  · next hvary => simpa using hvary

/-- Every way in which `relatePair` finds a dependence between a store and an access. -/
theorem mem_carried_relatePair (h : d ∈ (relatePair write accumulator other).carried) :
    (other.order = write.order ∧ accumulator = none ∧ relate write write = .ok .uniform ∧
      d = { kind := .waw, distance := 1, variableName := write.base }) ∨
    (other.order ≠ write.order ∧ (other.isWrite = true → write.order < other.order) ∧
      other.base = write.base ∧
      ((∃ e, relate write other = .ok (.distance e) ∧ d = shiftedDependence write other e) ∨
        (relate write other = .ok .uniform ∧ d = uniformDependence write other accumulator))) := by
  -- One case per way out of the comparison; only three of them give something.
  unfold relatePair at h
  split at h
  · next horder =>
    refine .inl ⟨horder, ?_⟩
    split at h
    · next hnone =>
      refine ⟨Option.isNone_iff_eq_none.mp hnone, ?_⟩
      unfold relateSelf at h
      split at h
      · next hrel => exact ⟨hrel, List.mem_singleton.mp h⟩
      · cases h
      · cases h
    · cases h
  · next horder =>
    refine .inr ⟨horder, ?_⟩
    split at h
    · cases h
    · next hskip =>
      have hlater : other.isWrite = true → write.order < other.order := by
        intro hwrite
        simp only [hwrite, Bool.true_and, decide_eq_true_eq] at hskip
        omega
      refine ⟨hlater, ?_⟩
      split at h
      · split at h <;> cases h
      · next hbase =>
        refine ⟨not_not.mp hbase, ?_⟩
        split at h
        · cases h
        · cases h
        · next e hrel => exact .inl ⟨e, hrel, List.mem_singleton.mp h⟩
        · next hrel => exact .inr ⟨hrel, List.mem_singleton.mp h⟩
        · cases h

/-- A store and a different access whose pair is `Clear` lie in places the loop does not move, and
in one array only where their indices never meet in two iterations. -/
theorem relate_of_clear_relatePair (horder : other.order ≠ write.order)
    (hlater : other.isWrite = true → write.order < other.order)
    (h : (relatePair write accumulator other).Clear) :
    write.baseInvariant = true ∧ other.baseInvariant = true ∧
      (other.base = write.base →
        relate write other = .ok .independent ∨ relate write other = .ok .sameIteration) := by
  have hskip : (other.isWrite && other.order < write.order) = false := by
    rw [Bool.and_eq_false_iff, decide_eq_false_iff_not]
    by_cases hw : other.isWrite = true
    · exact .inr (by have := hlater hw; omega)
    · exact .inl (by simpa using hw)
  obtain ⟨hcarried, hambiguous⟩ := h
  -- The pair is neither one access nor two stores in the wrong order.
  simp only [relatePair, horder, if_false, hskip, Bool.false_eq_true] at hcarried hambiguous
  by_cases hbase : other.base = write.base
  · simp only [hbase, ne_eq, not_true, if_false] at hcarried hambiguous
    cases hrel : relate write other with
    | error e => simp [hrel, Findings.doubt] at hambiguous
    | ok rel =>
      obtain ⟨hwrite, hother⟩ := baseInvariant_of_relate hrel
      refine ⟨hwrite, hother, fun _ => ?_⟩
      -- A distance and a shared place would have been found.
      cases rel with
      | independent => exact .inl rfl
      | sameIteration => exact .inr rfl
      | distance e => simp [hrel, Findings.one] at hcarried
      | uniform => simp [hrel, Findings.one] at hcarried
  · simp only [hbase, ne_eq, not_false_eq_true, if_true] at hambiguous
    split at hambiguous
    · next hinvariant =>
      rw [Bool.and_eq_true] at hinvariant
      exact ⟨hinvariant.1, hinvariant.2, fun heq => absurd heq hbase⟩
    · cases hambiguous

/-- A store whose comparison with itself is `Clear` touches another place in every iteration. -/
theorem relate_of_clear_relateSelf (h : (relateSelf write).Clear) :
    write.baseInvariant = true ∧ ∃ rel, relate write write = .ok rel ∧ rel ≠ .uniform := by
  obtain ⟨hcarried, hambiguous⟩ := h
  unfold relateSelf at hcarried hambiguous
  cases hrel : relate write write with
  | error e => simp [hrel, Findings.doubt] at hambiguous
  | ok rel =>
    refine ⟨(baseInvariant_of_relate hrel).1, rel, rfl, ?_⟩
    rintro rfl
    simp [hrel, Findings.one] at hcarried

/-! ## §3 All accesses and scalars -/

section Loops

variable {accumulators : List (Nat × Accumulator)} {sites : List AccessSite} {lp : LoopBody}

theorem mem_carried_memoryFindings_iff :
    d ∈ (memoryFindings accumulators sites).carried ↔
      ∃ write ∈ sites, write.isWrite = true ∧
        ∃ other ∈ sites,
          d ∈ (relatePair write (accumulatorAt? accumulators write) other).carried := by
  simp only [memoryFindings, Findings.carried_concat, List.mem_flatMap, List.mem_filter,
    List.mem_map]
  constructor
  · rintro ⟨f, ⟨write, ⟨hmem, hwrite⟩, other, hother, rfl⟩, hd⟩
    exact ⟨write, hmem, hwrite, other, hother, hd⟩
  · rintro ⟨write, hmem, hwrite, other, hother, hd⟩
    exact ⟨_, ⟨write, ⟨hmem, hwrite⟩, other, hother, rfl⟩, hd⟩

theorem clear_memoryFindings_iff :
    (memoryFindings accumulators sites).Clear ↔
      ∀ write ∈ sites, write.isWrite = true → ∀ other ∈ sites,
        (relatePair write (accumulatorAt? accumulators write) other).Clear := by
  simp only [memoryFindings, Findings.clear_concat_iff, List.mem_flatMap, List.mem_filter,
    List.mem_map]
  constructor
  · intro h write hmem hwrite other hother
    exact h _ ⟨write, ⟨hmem, hwrite⟩, other, hother, rfl⟩
  · rintro h f ⟨write, ⟨hmem, hwrite⟩, other, hother, rfl⟩
    exact h write hmem hwrite other hother

theorem ambiguous_memoryFindings_iff :
    (memoryFindings accumulators sites).ambiguous = true ↔
      ∃ write ∈ sites, write.isWrite = true ∧
        ∃ other ∈ sites,
          (relatePair write (accumulatorAt? accumulators write) other).ambiguous = true := by
  simp only [memoryFindings, Findings.ambiguous_concat, List.any_eq_true, List.mem_flatMap,
    List.mem_filter, List.mem_map]
  constructor
  · rintro ⟨f, ⟨write, ⟨hmem, hwrite⟩, other, hother, rfl⟩, hdoubt⟩
    exact ⟨write, hmem, hwrite, other, hother, hdoubt⟩
  · rintro ⟨write, hmem, hwrite, other, hother, hdoubt⟩
    exact ⟨_, ⟨write, ⟨hmem, hwrite⟩, other, hother, rfl⟩, hdoubt⟩

/-- Every dependence among the `findings` of a loop comes from its accesses or is a carried scalar.
-/
theorem mem_carried_findings_iff :
    d ∈ (lp.findings sites).carried ↔
      d ∈ (memoryFindings (lp.memoryAccumulators sites) sites).carried ∨
        ∃ s ∈ lp.carriedScalars, s.dependence = d := by
  simp [LoopBody.findings]

/-- A loop is in doubt because of an impure call or because of its accesses. -/
theorem ambiguous_findings_iff :
    (lp.findings sites).ambiguous = true ↔
      lp.impureCallees ≠ [] ∨
        (memoryFindings (lp.memoryAccumulators sites) sites).ambiguous = true := by
  simp [LoopBody.findings]

theorem clear_findings_iff :
    (lp.findings sites).Clear ↔
      lp.impureCallees = [] ∧ (memoryFindings (lp.memoryAccumulators sites) sites).Clear ∧
        lp.carriedScalars = [] := by
  simp only [LoopBody.findings, Findings.clear_concat_iff, List.mem_cons, List.not_mem_nil,
    or_false, forall_eq_or_imp, forall_eq]
  constructor
  · -- Calls leave doubt and no dependence, scalars a dependence and no doubt.
    rintro ⟨hcalls, hmemory, hscalars⟩
    exact ⟨by simpa using hcalls.ambiguous, hmemory, by simpa using hscalars.carried⟩
  · rintro ⟨hcalls, hmemory, hscalars⟩
    exact ⟨⟨rfl, by simp [hcalls]⟩, hmemory, ⟨by simp [hscalars], rfl⟩⟩

/-! ## §4 The summary -/

/-- A dependence between a read and a write, or between two writes. -/
def CarriedDependence.IsConflict (d : CarriedDependence) : Prop :=
  d.kind = .raw ∨ d.kind = .war ∨ d.kind = .waw

theorem isConflict_shiftedDependence (e : Int64) :
    (shiftedDependence write other e).IsConflict := by
  unfold CarriedDependence.IsConflict shiftedDependence
  dsimp only
  -- Two stores make a `waw`, and else the sign of the distance decides.
  split
  · split <;> simp
  · simp

theorem isConflict_uniformDependence :
    (uniformDependence write other accumulator).IsConflict := by
  unfold CarriedDependence.IsConflict uniformDependence
  dsimp only
  split
  · next hkind => simp [hkind]
  · dsimp only
    split
    · simp
    · split <;> simp

/-- Every dependence that is found `IsConflict`. -/
theorem isConflict_of_mem_findings (h : d ∈ (lp.findings sites).carried) : d.IsConflict := by
  obtain hmemory | ⟨s, -, rfl⟩ := mem_carried_findings_iff.mp h
  · obtain ⟨w, -, -, o, -, hd⟩ := mem_carried_memoryFindings_iff.mp hmemory
    obtain ⟨-, -, -, rfl⟩ | ⟨-, -, -, ⟨e, -, rfl⟩ | ⟨-, rfl⟩⟩ := mem_carried_relatePair hd
    · exact .inr (.inr rfl)
    · exact isConflict_shiftedDependence e
    · exact isConflict_uniformDependence
  · exact .inl rfl

/-- Some dependence of a list is of the kind `k`. -/
def DependenceKind.Occurs (k : DependenceKind) (carried : List CarriedDependence) : Prop :=
  ∃ d ∈ carried, d.kind = k

theorem any_kind_iff {k : DependenceKind} {carried : List CarriedDependence} :
    carried.any (·.kind == k) = true ↔ k.Occurs carried := by
  simp [DependenceKind.Occurs]

/-- Everything that `summaryKind` can say, and why: it is in doubt, or the first kind that occurs
decides. -/
theorem summaryKind_cases (f : Findings) :
    (summaryKind f = .complexFlow ∧ (f.ambiguous = true ∨
      DependenceKind.raw.Occurs f.carried ∧ DependenceKind.war.Occurs f.carried)) ∨
    (f.ambiguous = false ∧
      ((summaryKind f = .raw ∧ DependenceKind.raw.Occurs f.carried ∧
          ¬ DependenceKind.war.Occurs f.carried) ∨
        (summaryKind f = .war ∧ ¬ DependenceKind.raw.Occurs f.carried ∧
          DependenceKind.war.Occurs f.carried) ∨
        (summaryKind f = .waw ∧ ¬ DependenceKind.raw.Occurs f.carried ∧
          DependenceKind.waw.Occurs f.carried) ∨
        (summaryKind f = .independent ∧ ¬ DependenceKind.raw.Occurs f.carried ∧
          ¬ DependenceKind.war.Occurs f.carried ∧ ¬ DependenceKind.waw.Occurs f.carried))) := by
  unfold summaryKind
  dsimp only
  split
  · next hcomplex =>
    rw [Bool.or_eq_true, Bool.and_eq_true, any_kind_iff, any_kind_iff] at hcomplex
    exact .inl ⟨rfl, hcomplex⟩
  · next hcomplex =>
    rw [Bool.or_eq_true, Bool.and_eq_true, any_kind_iff, any_kind_iff, not_or, not_and,
      Bool.not_eq_true] at hcomplex
    obtain ⟨hclear, hpart⟩ := hcomplex
    -- Without doubt, the kinds are tried in turn.
    refine .inr ⟨hclear, ?_⟩
    split
    · next hraw =>
      rw [any_kind_iff] at hraw
      exact .inl ⟨rfl, hraw, hpart hraw⟩
    · next hraw =>
      rw [any_kind_iff] at hraw
      split
      · next hwar => exact .inr (.inl ⟨rfl, hraw, any_kind_iff.mp hwar⟩)
      · next hwar =>
        rw [any_kind_iff] at hwar
        split
        · next hwaw => exact .inr (.inr (.inl ⟨rfl, hraw, any_kind_iff.mp hwaw⟩))
        · next hwaw =>
          rw [any_kind_iff] at hwaw
          exact .inr (.inr (.inr ⟨rfl, hraw, hwar, hwaw⟩))

/-- Findings that are all conflicts and are summed up as safe are `Clear`. -/
theorem clear_of_summaryKind_isSafe {f : Findings} (hconflict : ∀ d ∈ f.carried, d.IsConflict)
    (h : (summaryKind f).isSafe = true) : f.Clear := by
  obtain ⟨hkind, -⟩ | ⟨hclear, ⟨hkind, -⟩ | ⟨hkind, -⟩ | ⟨hkind, -⟩ | ⟨-, hraw, hwar, hwaw⟩⟩ :=
    summaryKind_cases f
  · simp [hkind, DependenceKind.isSafe] at h
  · simp [hkind, DependenceKind.isSafe] at h
  · simp [hkind, DependenceKind.isSafe] at h
  · simp [hkind, DependenceKind.isSafe] at h
  · refine ⟨List.eq_nil_iff_forall_not_mem.mpr fun d hd => ?_, hclear⟩
    -- A conflict of any kind would have decided the summary.
    obtain hk | hk | hk := hconflict d hd
    · exact hraw ⟨d, hd, hk⟩
    · exact hwar ⟨d, hd, hk⟩
    · exact hwaw ⟨d, hd, hk⟩

/-- A loop that writes and carries nothing and calls nothing impure gives no `findings`. -/
private theorem clear_findings_of_idle
    (h : (!(sites.any (·.isWrite)) && lp.carriedScalars.isEmpty &&
      lp.impureCallees.isEmpty) = true) : (lp.findings sites).Clear := by
  simp only [Bool.and_eq_true, Bool.not_eq_true', List.isEmpty_iff] at h
  obtain ⟨⟨hwrites, hscalars⟩, hcalls⟩ := h
  refine clear_findings_iff.mpr ⟨hcalls, clear_memoryFindings_iff.mpr ?_, hscalars⟩
  intro w hw hwrite
  rw [List.any_eq_false] at hwrites
  exact absurd hwrite (hwrites w hw)

/-- A profile by `ofSites` sums up what was found, unless the loop does nothing of interest. -/
theorem LoopBody.ofSites_cases (lp : LoopBody) (sites : List AccessSite) :
    (DependenceProfile.ofSites lp sites = .readOnly ∧ (lp.findings sites).Clear) ∨
      DependenceProfile.ofSites lp sites = (lp.findings sites).summarize lp.impureCallees := by
  unfold DependenceProfile.ofSites
  split
  · next hidle => exact .inl ⟨rfl, clear_findings_of_idle hidle⟩
  · exact .inr rfl

/-- A profile by `ofSites` reports every dependence that was found, and no other. -/
theorem LoopBody.carried_ofSites :
    (DependenceProfile.ofSites lp sites).carried = (lp.findings sites).carried := by
  obtain ⟨hidle, hclear⟩ | hsum := ofSites_cases lp sites
  · rw [hidle, hclear.carried]
    rfl
  · rw [hsum]
    rfl

/-- Two accesses that leave a doubt make the kind of the whole loop `complexFlow`. -/
theorem LoopBody.kind_of_ambiguous_relatePair (hw : write ∈ sites) (hwrite : write.isWrite = true)
    (ho : other ∈ sites)
    (h : (relatePair write (accumulatorAt? (lp.memoryAccumulators sites) write)
      other).ambiguous = true) :
    (DependenceProfile.ofSites lp sites).kind = .complexFlow := by
  have hdoubt : (lp.findings sites).ambiguous = true :=
    ambiguous_findings_iff.mpr
      (.inr (ambiguous_memoryFindings_iff.mpr ⟨write, hw, hwrite, other, ho, h⟩))
  obtain ⟨-, hclear⟩ | hsum := ofSites_cases lp sites
  · rw [hclear.ambiguous] at hdoubt
    cases hdoubt
  · rw [hsum]
    simp [Findings.summarize, summaryKind, hdoubt]

/-- A loop that its profile calls safe writes nothing and carries nothing, or gave no findings. -/
theorem LoopBody.clear_of_isSafe (h : (DependenceProfile.ofSites lp sites).kind.isSafe = true) :
    lp.impureCallees = [] ∧ lp.carriedScalars = [] ∧
      (memoryFindings (lp.memoryAccumulators sites) sites).Clear := by
  -- The kind is that of the summary, and all that is found is a conflict.
  have hclear : (lp.findings sites).Clear := by
    obtain ⟨-, hclear⟩ | hsum := ofSites_cases lp sites
    · exact hclear
    · rw [hsum] at h
      exact clear_of_summaryKind_isSafe (fun d hd => isConflict_of_mem_findings hd) h
  obtain ⟨hcalls, hmemory, hscalars⟩ := clear_findings_iff.mp hclear
  exact ⟨hcalls, hscalars, hmemory⟩

theorem Loop.carried_dependenceProfile {lp : Loop} :
    lp.dependenceProfile.carried = (lp.findings lp.accesses).carried :=
  LoopBody.carried_ofSites

theorem Loop.carried_of_isSafe {lp : Loop} (h : lp.dependenceProfile.kind.isSafe = true) :
    lp.dependenceProfile.carried = [] := by
  obtain ⟨hcalls, hscalars, hmemory⟩ := LoopBody.clear_of_isSafe h
  rw [carried_dependenceProfile]
  exact (clear_findings_iff.mpr ⟨hcalls, hmemory, hscalars⟩).carried

/-! ## §5 Dependences that can be eliminated -/

theorem isEliminable_iff {f : Findings} :
    isEliminable f = true ↔
      f.ambiguous = false ∧ ∃ d, f.carried = [d] ∧ d.privatizable = true := by
  unfold isEliminable
  rw [Bool.and_eq_true, Bool.not_eq_true']
  refine and_congr_right fun _ => ?_
  split
  · next d hd => simp [hd]
  · next hnot =>
    constructor
    · intro h
      cases h
    · rintro ⟨d, hd, -⟩
      exact absurd hd (hnot d)

/-- A profile that is `eliminable` has found one dependence alone, and nothing in doubt. -/
theorem LoopBody.lone_dependence_of_eliminable
    (h : (DependenceProfile.ofSites lp sites).eliminable = true) :
    ∃ d, (DependenceProfile.ofSites lp sites).carried = [d] ∧ d.privatizable = true ∧
      (lp.findings sites).carried = [d] ∧ (lp.findings sites).ambiguous = false ∧
      (DependenceProfile.ofSites lp sites).kind = summaryKind (lp.findings sites) := by
  obtain ⟨hidle, -⟩ | hsum := ofSites_cases lp sites
  · rw [hidle] at h
    cases h
  · rw [hsum] at h ⊢
    obtain ⟨hambiguous, d, hd, hprivate⟩ := isEliminable_iff.mp h
    exact ⟨d, hd, hprivate, hd, hambiguous, rfl⟩

theorem LoopBody.privatizable_of_eliminable
    (h : (DependenceProfile.ofSites lp sites).eliminable = true)
    (hd : (DependenceProfile.ofSites lp sites).carried = [d]) : d.privatizable = true := by
  obtain ⟨d', hprofile, hprivate, -⟩ := lone_dependence_of_eliminable h
  obtain rfl : d' = d := by simpa [hprofile] using hd
  exact hprivate

/-- Nor is anything impure called, which would leave the loop in doubt. -/
theorem LoopBody.impureCallees_of_eliminable
    (h : (DependenceProfile.ofSites lp sites).eliminable = true) : lp.impureCallees = [] := by
  obtain ⟨d, -, -, -, hambiguous, -⟩ := lone_dependence_of_eliminable h
  by_contra hcalls
  rw [ambiguous_findings_iff.mpr (.inl hcalls)] at hambiguous
  cases hambiguous

/-- In such a profile `relatePair` leaves no two accesses in doubt, and what they give is that
dependence. -/
theorem LoopBody.lone_pair_of_eliminable
    (h : (DependenceProfile.ofSites lp sites).eliminable = true)
    (hd : (DependenceProfile.ofSites lp sites).carried = [d]) (hw : write ∈ sites)
    (hwrite : write.isWrite = true) (ho : other ∈ sites) :
    (relatePair write (accumulatorAt? (lp.memoryAccumulators sites) write)
        other).ambiguous = false ∧
      ∀ e ∈ (relatePair write (accumulatorAt? (lp.memoryAccumulators sites) write) other).carried,
        e = d := by
  obtain ⟨d', hprofile, -, hfound, hambiguous, -⟩ := lone_dependence_of_eliminable h
  obtain rfl : d' = d := by simpa [hprofile] using hd
  constructor
  · -- A doubt about one pair is a doubt about the loop.
    rw [Bool.eq_false_iff]
    intro hdoubt
    rw [ambiguous_findings_iff.mpr (.inr (ambiguous_memoryFindings_iff.mpr
      ⟨write, hw, hwrite, other, ho, hdoubt⟩))] at hambiguous
    cases hambiguous
  · intro e he
    have hmem := mem_carried_findings_iff.mpr
      (.inl (mem_carried_memoryFindings_iff.mpr ⟨write, hw, hwrite, other, ho, he⟩))
    simpa [hfound] using hmem

/-- In such a profile a carried scalar is that dependence. -/
theorem LoopBody.lone_scalar_of_eliminable {s : CarriedScalar}
    (h : (DependenceProfile.ofSites lp sites).eliminable = true)
    (hd : (DependenceProfile.ofSites lp sites).carried = [d]) (hs : s ∈ lp.carriedScalars) :
    s.dependence = d := by
  obtain ⟨d', hprofile, -, hfound, -, -⟩ := lone_dependence_of_eliminable h
  obtain rfl : d' = d := by simpa [hprofile] using hd
  have hmem : s.dependence ∈ (lp.findings sites).carried :=
    mem_carried_findings_iff.mpr (.inr ⟨s, hs, rfl⟩)
  simpa [hfound] using hmem

/-- A loop with a dependence to eliminate is not safe as it stands. -/
theorem LoopBody.not_isSafe_of_eliminable
    (h : (DependenceProfile.ofSites lp sites).eliminable = true) :
    (DependenceProfile.ofSites lp sites).kind.isSafe = false := by
  obtain ⟨d, -, -, hfound, -, hkind⟩ := lone_dependence_of_eliminable h
  rw [Bool.eq_false_iff, hkind]
  intro hsafe
  -- A safe summary would have found nothing to eliminate.
  have hclear := clear_of_summaryKind_isSafe (fun _ he => isConflict_of_mem_findings he) hsafe
  rw [hclear.carried] at hfound
  cases hfound

end Loops

end LoopAnalysis
