import LoopAnalysis.Profile.Dependence
import LoopAnalysis.Proofs.Program.Straight
import LoopAnalysis.Proofs.Recurrence.Matching

/-!
# Who observes a running value

Each worker may keep a copy of an accumulator of its own when nothing but the update looks at the
running value. The uses that are checked are those of the header phi and of the update; the
question is about everything that is computed from them. The two agree up to one value: where the
update selects by a comparison, the uses of the comparison are not looked at.

## Main definitions

- `LoopBody.Observes`: an instruction depends on a value within one iteration;
- `LoopBody.Updates`: an instruction belongs to the update of an accumulator;
- `LoopBody.OutcomeConfined`: the comparison behind an update is used by the update only.

## Main statements

- `LoopBody.updates_of_observes`: with a confined comparison, every observer belongs to the update;
- `LoopBody.running_value_unobserved_iff`: and only with a confined comparison.
-/

namespace LoopAnalysis

namespace LoopBody

/-! ## §1 Observers -/

/-- The instructions of a loop that depend on a value: those that `uses` finds for it, and those
that it finds for what other instructions than phis compute from it. -/
inductive Observes (lp : LoopBody) (v : ValueId) : Instruction → Prop where
  | direct {i : Instruction} (hmem : i ∈ lp.instructions) (huse : i.uses v = true) :
      Observes lp v i
  | through {i j : Instruction} {w : ValueId} (hobs : Observes lp v j) (hplain : j.isPhi = false)
      (hresult : j.result = some w) (hmem : i ∈ lp.instructions) (huse : i.uses w = true) :
      Observes lp v i

/-- The instructions of the update of an accumulator: those that define a value of its `expression`,
and the header phi that receives the result. -/
def Updates (phi : ValueId) (expression : List ValueId) (i : Instruction) : Prop :=
  (∃ v ∈ expression, i.result = some v) ∨ isPhiOf phi i = true

/-- Where an update selects by a comparison with the running value, the outcome of the comparison
is used by the update only. -/
def OutcomeConfined (lp : LoopBody) (phi update : ValueId) (expression : List ValueId) : Prop :=
  ∀ r c onTrue onFalse, lp.definition update = some (.select r (.value c) onTrue onFalse) →
    ∀ j ∈ lp.instructions, j.isPhi = false → j.result = some c → j.uses phi = true →
      ∀ i ∈ lp.instructions, i.uses c = true → Updates phi expression i

variable {lp : LoopBody} {phi update : ValueId} {m : Accumulation}

theorem isPhi_of_isPhiOf {i : Instruction} (h : isPhiOf phi i = true) : i.isPhi = true := by
  cases i with
  | phi r incoming => rfl
  | _ => cases h

/-- An instruction of the update other than a phi defines a value of the `expression`. -/
theorem Updates.mem_expression {expression : List ValueId} {i : Instruction} {w : ValueId}
    (h : Updates phi expression i) (hplain : i.isPhi = false) (hresult : i.result = some w) :
    w ∈ expression := by
  rcases h with ⟨v, hv, hi⟩ | hphi
  · obtain rfl : v = w := Option.some.inj (hi.symm.trans hresult)
    exact hv
  · rw [isPhi_of_isPhiOf hphi] at hplain
    cases hplain

/-! ## §2 From direct uses to observers -/

/-- **Whatever `Observes` the running value belongs to the update** when the direct uses of the
running value and of the update do and the outcome of a comparison is confined. An observer that
defines the comparison is found next to one that uses the running value itself, which is what
`OutcomeConfined` speaks of. -/
theorem updates_of_observes (hfolds : lp.Folds phi update m)
    (hphi : ∀ i ∈ lp.instructions, i.uses phi = true → ∃ w ∈ m.expression, i.result = some w)
    (hupdate : ∀ i ∈ lp.instructions, i.uses update = true → isPhiOf phi i = true)
    (hconfined : lp.OutcomeConfined phi update m.expression) {i : Instruction}
    (hobs : lp.Observes phi i) :
    Updates phi m.expression i ∧
      ∀ c, i.isPhi = false → i.result = some c → c ≠ update →
        ∃ j ∈ lp.instructions, j.isPhi = false ∧ j.result = some c ∧ j.uses phi = true := by
  -- Along a chain of observers only the comparison is ever passed on, so the invariant keeps a
  -- direct user of the running value at hand that defines it.
  induction hobs with
  | @direct i hmem huse =>
    exact ⟨.inl (hphi i hmem huse), fun c hplain hresult _ => ⟨i, hmem, hplain, hresult, huse⟩⟩
  | @through i j w _ hplain hresult hmem huse ih =>
    obtain ⟨hj, hdirect⟩ := ih
    by_cases hw : w = update
    · -- The update is used by its phi only, and a phi passes nothing on.
      subst hw
      have hreceives := hupdate i hmem huse
      refine ⟨.inr hreceives, fun c hother => ?_⟩
      rw [isPhi_of_isPhiOf hreceives] at hother
      cases hother
    · -- The only other value of the expression is the comparison of a selection.
      have hmemw := hj.mem_expression hplain hresult
      obtain hexpr | ⟨c, r, onTrue, onFalse, hdef, hexpr⟩ := hfolds.expression_eq
      · rw [hexpr, List.mem_singleton] at hmemw
        exact absurd hmemw hw
      · have hwc : w = c := by simpa [hexpr, hw] using hmemw
        subst hwc
        obtain ⟨k, hk, hkplain, hkresult, hkuse⟩ := hdirect w hplain hresult hw
        have hi := hconfined r w onTrue onFalse hdef k hk hkplain hkresult hkuse i hmem huse
        refine ⟨hi, fun v hiplain hiresult hv => ?_⟩
        have hvw : v = w := by
          simpa [hexpr, hv] using hi.mem_expression hiplain hiresult
        exact ⟨k, hk, hkplain, hvw ▸ hkresult, hkuse⟩

/-- What uses the outcome of a comparison with a value `Observes` that value. -/
theorem outcomeConfined_of_updates
    (h : ∀ i, lp.Observes phi i → Updates phi m.expression i) :
    lp.OutcomeConfined phi update m.expression := by
  intro r c onTrue onFalse _ j hj hplain hresult huse i hi hic
  exact h i (.through (.direct hj huse) hplain hresult hi hic)

/-- **A running value stays unobserved exactly when its comparison is confined**: for every
accumulator of a header phi that is reported with `soleUse`, whatever `Observes` the running value
belongs to the update if and only if `OutcomeConfined` holds, so that nothing else uses the outcome
of the comparison that the update selects by. -/
theorem running_value_unobserved_iff (lp : LoopBody) (s : CarriedScalar) (acc : Accumulator)
    (hs : s ∈ lp.carriedScalars) (hacc : s.accumulator = some acc) (hsole : acc.soleUse = true) :
    ∃ m, lp.matchAccumulation s.phi acc.update = some m ∧
      ((∀ i, lp.Observes s.phi i → Updates s.phi m.expression i) ↔
        lp.OutcomeConfined s.phi acc.update m.expression) := by
  obtain ⟨m, hm, -, -, -, -, hiff⟩ :=
    registerAccumulator?_eq_some (accumulator_of_mem_carriedScalars hs hacc)
  -- What was checked: the users of the phi and the users of the update, and no others.
  obtain ⟨hphi, hupdate⟩ := hiff.mp hsole
  refine ⟨m, hm, outcomeConfined_of_updates, fun hconfined i hobs => ?_⟩
  exact (updates_of_observes (folds_of_matchAccumulation hm) (usesConfined_iff.mp hphi) hupdate
    hconfined hobs).1

end LoopBody

/-! ## §3 Two loops that keep a maximum -/

namespace Loop

/-- `for i: best = max(best, A[i])`, by a comparison and a selection, followed by what else the
body does. -/
def keepsMaximum (rest : List Instruction) : Loop :=
  straight ⟨0⟩ ([
    .phi ⟨0⟩ [(.int 0, ⟨0⟩), (.value ⟨6⟩, ⟨1⟩)],
    .phi ⟨1⟩ [(.int 0, ⟨0⟩), (.value ⟨5⟩, ⟨1⟩)],
    .elementPtr ⟨2⟩ (.symbol "A") [.value ⟨0⟩],
    .load ⟨3⟩ (.value ⟨2⟩),
    .compare ⟨4⟩ .gt (.value ⟨3⟩) (.value ⟨1⟩),
    .select ⟨5⟩ (.value ⟨4⟩) (.value ⟨3⟩) (.value ⟨1⟩),
    .binary ⟨6⟩ .add (.value ⟨0⟩) (.int 1)] ++ rest)

/-- The loop of `keepsMaximum` that also stores the outcome of each comparison,
`B[i] = (A[i] > best)`. -/
def marksMaxima : Loop :=
  keepsMaximum [.elementPtr ⟨7⟩ (.symbol "B") [.value ⟨0⟩], .store (.value ⟨7⟩) (.value ⟨4⟩)]

/-- The maximum of `keepsMaximum`, whatever else the body does. -/
def keptMaximum : Accumulator :=
  { variableName := "%1", operator := .max, addend := .value ⟨3⟩, update := ⟨5⟩, soleUse := true
    storage := .register }

/-- The carried scalar of `keepsMaximum`, with `keptMaximum` for its accumulator. -/
def maximumScalar : CarriedScalar :=
  { phi := ⟨1⟩, name := "%1", update := some (.value ⟨5⟩), accumulator := some keptMaximum }

/-- The theorem at `keepsMaximum`, whose update selects by a comparison. -/
theorem maximum_unobserved :
    maximumScalar ∈ (keepsMaximum []).carriedScalars ∧ keptMaximum.soleUse = true ∧
      ∀ i, (keepsMaximum []).Observes maximumScalar.phi i →
        LoopBody.Updates maximumScalar.phi [⟨5⟩, ⟨4⟩] i := by
  have hmem : maximumScalar ∈ (keepsMaximum []).carriedScalars := List.mem_singleton.mpr rfl
  refine ⟨hmem, rfl, ?_⟩
  obtain ⟨m, hm, hiff⟩ :=
    LoopBody.running_value_unobserved_iff (keepsMaximum []).toLoopBody _ keptMaximum hmem rfl rfl
  obtain rfl := Option.some.inj hm
  have hselect : ∀ i ∈ (keepsMaximum []).instructions, i.uses ⟨4⟩ = true → i.result = some ⟨5⟩ := by
    decide
  refine hiff.mpr fun r c onTrue onFalse hdef j _ _ _ _ i hi huse => ?_
  cases hdef
  exact .inl ⟨⟨5⟩, List.mem_cons_self, hselect i hi huse⟩

/-- **A reported accumulator can be observed**: the maximum of `marksMaxima` is said to be used by
its update alone and the loop to be free of dependences but for it, yet a store observes the
comparison with it. -/
theorem marksMaxima_observed :
    maximumScalar ∈ marksMaxima.carriedScalars ∧ maximumScalar.accumulator = some keptMaximum ∧
    keptMaximum.soleUse = true ∧ marksMaxima.dependenceProfile.eliminable = true ∧
    ∃ m, marksMaxima.matchAccumulation maximumScalar.phi keptMaximum.update = some m ∧
      ∃ i, marksMaxima.Observes maximumScalar.phi i ∧ i.isStore = true ∧
        ¬ LoopBody.Updates maximumScalar.phi m.expression i := by
  refine ⟨List.mem_singleton.mpr rfl, rfl, rfl, by decide, _, rfl, ?_⟩
  refine ⟨.store (.value ⟨7⟩) (.value ⟨4⟩), ?_, rfl, ?_⟩
  -- The comparison uses the running value, and the store uses the comparison.
  · have hcompare : marksMaxima.Observes ⟨1⟩ (.compare ⟨4⟩ .gt (.value ⟨3⟩) (.value ⟨1⟩)) :=
      .direct (by simp [marksMaxima, keepsMaximum]) rfl
    exact .through hcompare rfl rfl (by simp [marksMaxima, keepsMaximum]) rfl
  · rintro (⟨v, -, hresult⟩ | hphi)
    · cases hresult
    · cases hphi

end Loop

end LoopAnalysis
