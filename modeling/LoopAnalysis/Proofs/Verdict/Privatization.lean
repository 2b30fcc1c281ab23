import LoopAnalysis.Program.Builder
import LoopAnalysis.Program.Nest
import LoopAnalysis.Report.Loop
import LoopAnalysis.Proofs.Dependence.Accumulators
import LoopAnalysis.Proofs.Pattern.Evidence
import LoopAnalysis.Proofs.Profile.Vectorization
import LoopAnalysis.Proofs.Program.Straight
import LoopAnalysis.Proofs.Verdict.Directives

/-!
# Suggestions for loops that are safe by privatization

A loop whose one dependence is an accumulator may run its iterations at the same time only if each
worker has a copy of the accumulator. The suggestions for it say so where the label is that of a
folded value. Where another label wins, they do not.

## Main statements

- `Analyzer.transformations_of_eliminable`: such a loop is given its suggestions as they are;
- `Loop.covers_iff_of_totalsInOneArray`: which labels cover the accumulator;
- `Analyzer.privatized_directives_guarded_iff`: when every directive for such a loop is guarded.
-/

namespace LoopAnalysis

variable {lp : Loop} {acc : Accumulator} {d : CarriedDependence} {dep : DependenceProfile}
  {v : VectorizationVerdict}

/-! ## §1 No marks -/

/-- A loop that is `eliminable` is not called hazardous. -/
theorem SafetyClass.of_ne_hazardous (h : dep.eliminable = true) :
    SafetyClass.of dep v ≠ .hazardous := by
  unfold SafetyClass.of
  rw [if_pos h]
  split
  · simp
  · split <;> simp

/-- **Such a loop is given what `suggest` gives as it is**, without a mark on any of it. -/
theorem Analyzer.transformations_of_eliminable (a : Analyzer)
    (h : lp.dependenceProfile.eliminable = true) :
    (a.analyze lp).verdict.transformations =
      Suggestion.suggest (a.matcher.classify (Scene.of lp)) (Scene.of lp).vectorization := by
  have hsafe : (SafetyClass.of lp.dependenceProfile (Scene.of lp).vectorization == .hazardous) =
      false :=
    beq_eq_false_iff_ne.mpr (SafetyClass.of_ne_hazardous h)
  calc (a.analyze lp).verdict.transformations
      = Verdict.annotate
          (SafetyClass.of lp.dependenceProfile (Scene.of lp).vectorization == .hazardous)
          (Suggestion.suggest (a.matcher.classify (Scene.of lp)) (Scene.of lp).vectorization) := rfl
    _ = Suggestion.suggest (a.matcher.classify (Scene.of lp)) (Scene.of lp).vectorization := by
        rw [hsafe]
        rfl

/-! ## §2 Accumulators and vectors -/

namespace Loop

/-- Where it is vectorized, such a loop is vectorized at width four. -/
theorem width_of_eliminable (h : lp.dependenceProfile.eliminable = true)
    (hv : (Scene.of lp).vectorization.vectorizable = true) :
    (Scene.of lp).vectorization.recommendedWidth = 4 :=
  (VectorizationVerdict.assess_of_vectorizable (LoopBody.not_isSafe_of_eliminable h) hv).2

/-- An accumulator of such a loop without `soleUse` lives in memory, so that the loop is not
vectorized: in a register it would be a second dependence. -/
theorem not_vectorizable_of_shared (h : lp.dependenceProfile.eliminable = true)
    (hacc : acc ∈ (Scene.of lp).accumulators) (hshared : acc.soleUse = false) :
    (Scene.of lp).vectorization.vectorizable = false := by
  rcases List.mem_append.mp hacc with hregister | hmemory
  -- In a register its scalar is the one dependence, which is privatizable.
  · obtain ⟨s, hs, hsacc⟩ := List.mem_filterMap.mp hregister
    obtain ⟨d, hd, hprivate, -⟩ := LoopBody.lone_dependence_of_eliminable h
    rw [← LoopBody.lone_scalar_of_eliminable h hd hs, scalar_dependence_eq hs hsacc] at hprivate
    exact absurd hprivate (by simp [Accumulator.dependence, hshared])
  · obtain ⟨⟨order, acc'⟩, hmem, rfl⟩ := List.mem_map.mp hmemory
    obtain ⟨write, read, loaded, m, -, hcompletes, -⟩ := completes_of_mem_memoryAccumulators hmem
    exact not_vectorizable_of_uniform_store (LoopBody.not_isSafe_of_eliminable h)
      hcompletes.write_mem hcompletes.isWrite hcompletes.isUniform

/-- All directives for such a loop are guarded exactly when its label `Covers` the dependence. -/
theorem suggest_guarded_iff (policy : PatternPolicy) (h : lp.dependenceProfile.eliminable = true)
    (d : CarriedDependence) :
    (∀ t ∈ Suggestion.suggest ((Matcher.ofPolicy policy).classify (Scene.of lp))
        (Scene.of lp).vectorization,
      Suggestion.isDirective t = true → Suggestion.guards d t = true) ↔
      Suggestion.Covers ((Matcher.ofPolicy policy).classify (Scene.of lp))
        (Scene.of lp).vectorization d := by
  have hnames := Matcher.classify_names policy (Scene.of lp)
  unfold Suggestion.Covers
  split
  · next info hsome =>
    -- A reduction in the evidence is that of a fold, or of a total that keeps the loop from
    -- vectors.
    obtain ⟨hcollapse, acc, hacc, -, hkind⟩ := hnames.accumulator hsome
    refine Suggestion.suggest_guarded_iff_of_some hsome hcollapse ?_ (width_of_eliminable h)
    exact hkind.imp_right fun hscan => ⟨hscan.1, not_vectorizable_of_shared h hacc hscan.2⟩
  · next hnone =>
    exact Suggestion.suggest_guarded_iff_of_none hnone (hnames.not_isReductionLike hnone)
      (width_of_eliminable h)

/-- **The labels that cover the accumulator** are those that are `isReductionLike`, and that of a
prefix which is left alone; given that the text of an address tells the array of a total. -/
theorem covers_iff_of_totalsInOneArray (policy : PatternPolicy) (harrays : lp.TotalsInOneArray)
    (h : lp.dependenceProfile.eliminable = true) (hd : lp.dependenceProfile.carried = [d]) :
    Suggestion.Covers ((Matcher.ofPolicy policy).classify (Scene.of lp))
        (Scene.of lp).vectorization d ↔
      ((Matcher.ofPolicy policy).classify (Scene.of lp)).kind.isReductionLike = true ∨
        ((Matcher.ofPolicy policy).classify (Scene.of lp)).kind = .prefixSum ∧
          (Scene.of lp).vectorization.vectorizable = false := by
  have hnames := Matcher.classify_names policy (Scene.of lp)
  unfold Suggestion.Covers
  split
  · next info hsome =>
    obtain ⟨-, acc, hacc, rfl, hkind⟩ := hnames.accumulator hsome
    obtain rfl := accumulator_dependence_eq harrays h hd hacc
    rcases hkind with hfold | ⟨-, hshared⟩
    · rw [Suggestion.primary_of_isReductionLike hfold]
      exact iff_of_true (Suggestion.guards_of_clause rfl rfl) (.inl hfold)
    · -- A running total that is used elsewhere would not be privatizable.
      have hprivate := LoopBody.privatizable_of_eliminable h hd
      exact absurd hprivate (by simp [Accumulator.dependence, hshared])
  · next hnone =>
    rw [hnames.not_isReductionLike hnone]
    simp

end Loop

/-! ## §3 Guarded directives -/

/-- **When every directive for a loop that is safe by privatization is guarded.** Under every
policy, the static report on a loop whose dependence is `eliminable` names its accumulator, and its
directives are marked or carry a reduction clause with the operator and the variable of that
accumulator exactly when the label `Covers` it: the evidence names a reduction whose primary
suggestion does, or the label is a prefix without one and the loop is not vectorized. With
`TotalsInOneArray`, where the text of an address tells the array of a total, these labels are those
of folded values and of such prefixes; every other label gives a directive that guards nothing. -/
theorem Analyzer.privatized_directives_guarded_iff (policy : PatternPolicy) (weights : Weights)
    (signatures : Signatures) (lp : Loop) (report : LoopReport)
    (hreport : report = Analyzer.analyze ⟨.ofPolicy policy, weights, signatures⟩ lp)
    (h : report.dependence.eliminable = true) :
    ∃ d, report.dependence.accumulator? = some d ∧
      ((∀ t ∈ report.verdict.transformations,
          Suggestion.isDirective t = true → Suggestion.guards d t = true) ↔
        Suggestion.Covers report.classification report.vectorization d) ∧
      (lp.TotalsInOneArray →
        ((∀ t ∈ report.verdict.transformations,
            Suggestion.isDirective t = true → Suggestion.guards d t = true) ↔
          report.pattern.isReductionLike = true ∨
            report.pattern = .prefixSum ∧ report.vectorization.vectorizable = false)) := by
  subst hreport
  have helim : lp.dependenceProfile.eliminable = true := h
  obtain ⟨d, hd, -⟩ := LoopBody.lone_dependence_of_eliminable helim
  have hcarried : lp.dependenceProfile.carried = [d] := hd
  have hguarded := Loop.suggest_guarded_iff policy helim d
  rw [transformations_of_eliminable _ helim]
  refine ⟨d, ?_, hguarded, fun harrays => ?_⟩
  · change lp.dependenceProfile.accumulator? = some d
    rw [DependenceProfile.accumulator?, if_pos helim, hcarried]
    rfl
  · exact hguarded.trans (Loop.covers_iff_of_totalsInOneArray policy harrays helim hcarried)

/-! ## §4 A sum and a matrix product -/

/-- `for i: total += A[i]`, with the total in a register. -/
def Loop.plainSum : Loop :=
  straight ⟨0⟩ [
    .phi ⟨0⟩ [(.int 0, ⟨0⟩), (.value ⟨5⟩, ⟨1⟩)],
    .phi ⟨1⟩ [(.int 0, ⟨0⟩), (.value ⟨4⟩, ⟨1⟩)],
    .elementPtr ⟨2⟩ (.symbol "A") [.value ⟨0⟩],
    .load ⟨3⟩ (.value ⟨2⟩),
    .binary ⟨4⟩ .add (.value ⟨1⟩) (.value ⟨3⟩),
    .binary ⟨5⟩ .add (.value ⟨0⟩) (.int 1)]

/-- The theorem at `plainSum`, which is labelled a reduction and vectorized. -/
theorem Loop.plainSum_guarded :
    Loop.plainSum.dependenceProfile.eliminable = true ∧
      ∃ d, (Analyzer.analyze ⟨.ofPolicy .standard, .balanced, .builtin⟩
          Loop.plainSum).dependence.accumulator? = some d ∧
        ∀ t ∈ (Analyzer.analyze ⟨.ofPolicy .standard, .balanced, .builtin⟩
            Loop.plainSum).verdict.transformations,
          Suggestion.isDirective t = true → Suggestion.guards d t = true := by
  have helim : Loop.plainSum.dependenceProfile.eliminable = true := by decide
  have hreads : ∀ s ∈ Loop.plainSum.accesses, s.isWrite = false := by decide
  -- Without a store there is no total in memory.
  have harrays : Loop.plainSum.TotalsInOneArray := by
    intro acc write read loaded m hcompletes
    have hwrite := hcompletes.isWrite
    rw [hreads write hcompletes.write_mem] at hwrite
    cases hwrite
  obtain ⟨d, hd, -, hlabel⟩ :=
    Analyzer.privatized_directives_guarded_iff .standard .balanced .builtin Loop.plainSum _ rfl
      helim
  exact ⟨helim, d, hd, (hlabel harrays).mpr (.inl (by decide +kernel))⟩

/-- `for i: for j: for k: C[i][j] += A[i][k] * B[k][j]`. -/
def matmul : Function :=
  let n : Operand := .symbol "n"
  let b := Builder.start "matmul"
  let (i, b) := b.openLoop "i" n
  let (j, b) := b.openLoop "j" n
  let (k, b) := b.openLoop "k" n
  let (x, b) := b.loadElement (.symbol "A") [.value i.iv, .value k.iv]
  let (y, b) := b.loadElement (.symbol "B") [.value k.iv, .value j.iv]
  let (product, b) := b.define (.binary · .fmul (.value x) (.value y))
  let (previous, b) := b.loadElement (.symbol "C") [.value i.iv, .value j.iv]
  let (sum, b) := b.define (.binary · .fadd (.value previous) (.value product))
  let b := b.storeElement (.symbol "C") [.value i.iv, .value j.iv] (.value sum)
  (((b.closeLoop k).closeLoop j).closeLoop i |>.push (.ret none)).build

/-- **A directive can be bare**: the innermost loop of `matmul` is safe only by giving each worker a
copy of `C[i][j]`, yet under the standard policy it is offered a directive that neither says so nor
asks for a check. -/
theorem matmul_directive_bare :
    ∃ lp, matmul.loop? .indexed 2 = some lp ∧
      (Analyzer.analyze ⟨.ofPolicy .standard, .balanced, .builtin⟩
        lp).dependence.eliminable = true ∧
      ∃ d, (Analyzer.analyze ⟨.ofPolicy .standard, .balanced, .builtin⟩
          lp).dependence.accumulator? = some d ∧
        ∃ t ∈ (Analyzer.analyze ⟨.ofPolicy .standard, .balanced, .builtin⟩
            lp).verdict.transformations,
          Suggestion.isDirective t = true ∧ Suggestion.guards d t = false := by
  -- All of it is one evaluation of the report.
  have hcheck : ((matmul.loop? .indexed 2).any fun lp =>
      let report := Analyzer.analyze ⟨.ofPolicy .standard, .balanced, .builtin⟩ lp
      report.dependence.eliminable && report.dependence.accumulator?.any fun d =>
        report.verdict.transformations.any fun t =>
          Suggestion.isDirective t && !Suggestion.guards d t) = true := by
    decide +kernel
  simp only [Option.any_eq_true, Bool.and_eq_true, List.any_eq_true, Bool.not_eq_true'] at hcheck
  obtain ⟨lp, hlp, helim, d, hd, t, ht, hdirective, hbare⟩ := hcheck
  exact ⟨lp, hlp, helim, d, hd, t, ht, hdirective, hbare⟩

end LoopAnalysis
