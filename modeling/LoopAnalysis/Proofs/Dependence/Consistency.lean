import LoopAnalysis.Proofs.Dependence.Accumulators
import LoopAnalysis.Proofs.Dependence.Exactness
import LoopAnalysis.Proofs.Dependence.Independence
import LoopAnalysis.Proofs.Text.SortedSet

/-!
# Consistency of dependence profiles

The fields of a profile repeat each other: its kind, its distance, its variables and its verdict on
elimination are all read off one list of dependences, some of them with a second look at the calls
and accesses of the loop. Readers of a profile rely on how the fields hang together.

## Main definitions

- `Loop.Compares`: the pairs of accesses that a profile looks at;
- `AccessSite.Unresolved`: two accesses that leave a loop in doubt;
- `DependenceProfile.Consistent`: how the fields of a profile hang together.

## Main statements

- `ambiguous_relatePair_iff`: when a pair of accesses is in doubt;
- `one_le_distance_of_mem_findings`: no dependence lies within one iteration;
- `LoopBody.kind_eq_complexFlow_iff`: the two ways into a complex flow;
- `Loop.dependenceProfile_consistent`: the profile of every loop is consistent.
-/

namespace LoopAnalysis

/-! ## §1 Doubt -/

/-- Two accesses whose places cannot be told: they are of different arrays and one of these moves,
or they are of one array and `relate` compared them in vain. -/
def AccessSite.Unresolved (w o : AccessSite) : Prop :=
  (o.base ≠ w.base ∧ (w.baseInvariant && o.baseInvariant) = false) ∨
    (o.base = w.base ∧ ∃ e, relate w o = .error e)

/-- An impure call, under the name that it is reported by. -/
def LoopBody.CallsImpure (lp : LoopBody) (name : String) : Prop :=
  ∃ result callee args, Instruction.call result callee args false ∈ lp.instructions ∧
    callee.getD "<indirect call>" = name

theorem LoopBody.mem_impureCallees_iff {lp : LoopBody} {name : String} :
    name ∈ lp.impureCallees ↔ lp.CallsImpure name := by
  unfold impureCallees CallsImpure
  rw [List.mem_filterMap]
  constructor
  · rintro ⟨i, hi, hname⟩
    split at hname
    · next result callee args => exact ⟨result, callee, args, hi, Option.some.inj hname⟩
    · cases hname
  · rintro ⟨result, callee, args, hi, rfl⟩
    exact ⟨_, hi, rfl⟩

theorem LoopBody.impureCallees_ne_nil_iff {lp : LoopBody} :
    lp.impureCallees ≠ [] ↔ ∃ name, lp.CallsImpure name := by
  simp only [← mem_impureCallees_iff]
  rw [Ne, List.eq_nil_iff_forall_not_mem, not_forall_not]

section Pairs

variable {w o : AccessSite} {accumulator : Option Accumulator}

theorem ambiguous_relateSelf_iff :
    (relateSelf w).ambiguous = true ↔ ∃ e, relate w w = .error e := by
  unfold relateSelf
  cases relate w w with
  | error e => simp [Findings.doubt]
  | ok rel => cases rel <;> simp [Findings.one]

/-- **When a pair of accesses is in doubt.** A store is compared with itself, unless it completes an
accumulator, with every read and with the stores after it; it is in doubt if it is `Unresolved` with
them. -/
theorem ambiguous_relatePair_iff :
    (relatePair w accumulator o).ambiguous = true ↔
      (o.order = w.order ∧ accumulator = none ∧ ∃ e, relate w w = .error e) ∨
        (o.order ≠ w.order ∧ (o.isWrite = true → w.order < o.order) ∧ w.Unresolved o) := by
  unfold relatePair
  split
  · next horder =>
    -- The store against itself; an accumulator takes it out of the comparison.
    cases accumulator with
    | none => simp [horder, ambiguous_relateSelf_iff]
    | some acc => simp [horder]
  · next horder =>
    split
    · next hskip =>
      -- Two stores, which are compared the other way round.
      rw [Bool.and_eq_true, decide_eq_true_eq] at hskip
      refine iff_of_false Bool.false_ne_true ?_
      rintro (⟨hsame, -⟩ | ⟨-, hlater, -⟩)
      · exact horder hsame
      · have := hlater hskip.1
        omega
    · next hskip =>
      have hlater : o.isWrite = true → w.order < o.order := by
        intro hwrite
        simp only [hwrite, Bool.true_and, decide_eq_true_eq] at hskip
        omega
      simp only [horder, false_and, false_or, ne_eq, not_false_eq_true, true_and, eq_true hlater,
        AccessSite.Unresolved]
      split
      · next hbase =>
        -- Two arrays: it is enough that both stay where they are.
        cases hfixed : w.baseInvariant && o.baseInvariant <;> simp [hbase, Findings.doubt]
      · next hbase =>
        rw [not_not] at hbase
        -- One array: the comparison decides.
        cases hrel : relate w o with
        | error e => simp [hbase, Findings.doubt]
        | ok rel => cases rel <;> simp [hbase, Findings.one]

end Pairs

/-! ## §2 Distances -/

section Distances

variable {w o : AccessSite} {accumulator : Option Accumulator} {d : CarriedDependence}
  {lp : LoopBody} {sites : List AccessSite}

theorem distance_uniformDependence : (uniformDependence w o accumulator).distance = 1 := by
  unfold uniformDependence
  dsimp only
  split <;> rfl

/-- Accesses that meet a `distance` apart do not meet in one iteration. -/
theorem one_le_distance_shiftedDependence {e : Int64} (h : relate w o = .ok (.distance e)) :
    1 ≤ (shiftedDependence w o e).distance := by
  have hne : e.toInt ≠ 0 := by
    rw [Ne, ← Word.eq_zero_iff]
    exact ne_zero_of_relateDimensions (relate_eq_ok h).2
  simp only [shiftedDependence, Word.magnitude, distanceLimit]
  omega

/-- **Every dependence among the `findings` lies between two iterations.** -/
theorem one_le_distance_of_mem_findings (h : d ∈ (lp.findings sites).carried) :
    1 ≤ d.distance := by
  obtain hmemory | ⟨s, -, rfl⟩ := mem_carried_findings_iff.mp h
  · obtain ⟨write, -, -, other, -, hd⟩ := mem_carried_memoryFindings_iff.mp hmemory
    -- A store against itself, two accesses a distance apart, and two at one place.
    obtain ⟨-, -, -, rfl⟩ | ⟨-, -, -, ⟨e, hrel, rfl⟩ | ⟨-, rfl⟩⟩ := mem_carried_relatePair hd
    · exact Nat.le_refl 1
    · exact one_le_distance_shiftedDependence hrel
    · exact distance_uniformDependence.ge
  · exact Nat.le_refl 1

theorem leastDistance_le {carried : List CarriedDependence} (h : d ∈ carried) :
    leastDistance carried ≤ d.distance := by
  unfold leastDistance
  cases hmin : (carried.map (·.distance)).min? with
  | none => exact Nat.zero_le _
  | some n => exact (List.min?_eq_some_iff.mp hmin).2 _ (List.mem_map_of_mem h)

theorem leastDistance_mem {carried : List CarriedDependence} (h : carried ≠ []) :
    ∃ d ∈ carried, d.distance = leastDistance carried := by
  unfold leastDistance
  cases hmin : (carried.map (·.distance)).min? with
  | none => exact absurd (List.map_eq_nil_iff.mp (List.min?_eq_none_iff.mp hmin)) h
  | some n => exact List.mem_map.mp (List.min?_eq_some_iff.mp hmin).1

end Distances

/-! ## §3 Kinds -/

section Kinds

variable {f : Findings} {lp : LoopBody} {sites : List AccessSite}

theorem summaryKind_eq_complexFlow_iff :
    summaryKind f = .complexFlow ↔
      f.ambiguous = true ∨
        DependenceKind.raw.Occurs f.carried ∧ DependenceKind.war.Occurs f.carried := by
  obtain ⟨hkind, hcomplex⟩ | ⟨hclear, hcases⟩ := summaryKind_cases f
  · exact iff_of_true hkind hcomplex
  · rw [hclear]
    obtain ⟨hkind, -, hnot⟩ | ⟨hkind, hnot, -⟩ | ⟨hkind, hnot, -⟩ | ⟨hkind, hnot, -⟩ := hcases <;>
      simp [hkind, hnot]

/-- A `summaryKind` that names a kind of conflict has found one. -/
theorem occurs_of_summaryKind
    (h : summaryKind f = .raw ∨ summaryKind f = .war ∨ summaryKind f = .waw) :
    (summaryKind f).Occurs f.carried := by
  obtain ⟨hkind, -⟩ | ⟨-, ⟨hkind, hraw, -⟩ | ⟨hkind, -, hwar⟩ | ⟨hkind, -, hwaw⟩ | ⟨hkind, -⟩⟩ :=
    summaryKind_cases f
  · simp [hkind] at h
  · exact hkind ▸ hraw
  · exact hkind ▸ hwar
  · exact hkind ▸ hwaw
  · simp [hkind] at h

/-- Where an iteration reads what an earlier one wrote, the `summaryKind` says so or is in doubt. -/
theorem summaryKind_of_raw (h : DependenceKind.raw.Occurs f.carried) :
    summaryKind f = .raw ∨ summaryKind f = .complexFlow := by
  obtain ⟨hkind, -⟩ | ⟨-, ⟨hkind, -⟩ | ⟨-, hraw, -⟩ | ⟨-, hraw, -⟩ | ⟨-, hraw, -⟩⟩ :=
    summaryKind_cases f
  · exact .inr hkind
  · exact .inl hkind
  · exact absurd h hraw
  · exact absurd h hraw
  · exact absurd h hraw

/-- **The two ways into a `complexFlow`**: doubt, and dependences in both directions. -/
theorem LoopBody.kind_eq_complexFlow_iff :
    (DependenceProfile.ofSites lp sites).kind = .complexFlow ↔
      (lp.findings sites).ambiguous = true ∨
        DependenceKind.raw.Occurs (lp.findings sites).carried ∧
          DependenceKind.war.Occurs (lp.findings sites).carried := by
  -- A loop without stores is not summarized, and has found nothing.
  obtain ⟨hidle, hclear⟩ | hsum := ofSites_cases lp sites
  · rw [hidle, hclear.ambiguous, hclear.carried]
    simp [DependenceProfile.readOnly, DependenceKind.Occurs]
  · rw [hsum]
    exact summaryKind_eq_complexFlow_iff

theorem LoopBody.kind_of_raw (h : DependenceKind.raw.Occurs (lp.findings sites).carried) :
    (DependenceProfile.ofSites lp sites).kind = .raw ∨
      (DependenceProfile.ofSites lp sites).kind = .complexFlow := by
  obtain ⟨-, hclear⟩ | hsum := ofSites_cases lp sites
  · obtain ⟨d, hd, -⟩ := h
    rw [hclear.carried] at hd
    cases hd
  · rw [hsum]
    exact summaryKind_of_raw h

theorem LoopBody.occurs_of_kind
    (h : (DependenceProfile.ofSites lp sites).kind = .raw ∨
      (DependenceProfile.ofSites lp sites).kind = .war ∨
      (DependenceProfile.ofSites lp sites).kind = .waw) :
    (DependenceProfile.ofSites lp sites).kind.Occurs (lp.findings sites).carried := by
  obtain ⟨hidle, -⟩ | hsum := ofSites_cases lp sites
  · simp [hidle, DependenceProfile.readOnly] at h
  · rw [hsum] at h ⊢
    exact occurs_of_summaryKind h

end Kinds

/-! ## §4 Variables and elimination -/

section Summary

variable {d : CarriedDependence} {lp : LoopBody} {sites : List AccessSite}

theorem LoopBody.dependentVariables_ofSites :
    (DependenceProfile.ofSites lp sites).dependentVariables =
      Text.sortedSet ((lp.findings sites).carried.map (·.variableName) ++ lp.impureCallees) := by
  obtain ⟨hidle, hclear⟩ | hsum := ofSites_cases lp sites
  · rw [hidle, hclear.carried, (clear_findings_iff.mp hclear).1]
    rfl
  · rw [hsum]
    rfl

theorem LoopBody.distance_ofSites :
    (DependenceProfile.ofSites lp sites).distance =
      leastDistance (lp.findings sites).carried := by
  obtain ⟨hidle, hclear⟩ | hsum := ofSites_cases lp sites
  · rw [hidle, hclear.carried]
    rfl
  · rw [hsum]
    rfl

/-- Whatever is `privatizable` is the dependence of an accumulator. -/
theorem accumulates_of_privatizable (hd : d ∈ (lp.findings sites).carried)
    (hprivate : d.privatizable = true) :
    d.kind = .raw ∧ d.distance = 1 ∧ d.operator.isSome = true := by
  -- A total in memory, or a carried scalar with an accumulator.
  obtain hmemory | ⟨s, -, rfl⟩ := mem_carried_findings_iff.mp hd
  · obtain ⟨-, acc, -, rfl⟩ := mem_accumulators_of_privatizable hmemory hprivate
    exact ⟨rfl, rfl, rfl⟩
  · refine ⟨rfl, rfl, ?_⟩
    cases hacc : s.accumulator with
    | none => simp [CarriedScalar.dependence, hacc] at hprivate
    | some acc => simp [CarriedScalar.dependence, hacc]

/-- A lone dependence of the kind `raw` decides the `summaryKind` of a loop that is not in doubt. -/
theorem summaryKind_of_singleton {f : Findings} (hclear : f.ambiguous = false)
    (hd : f.carried = [d]) (hkind : d.kind = .raw) : summaryKind f = .raw := by
  simp [summaryKind, hclear, hd, hkind]

/-- **A profile that is `eliminable` names one accumulator.** -/
theorem LoopBody.summary_of_eliminable
    (h : (DependenceProfile.ofSites lp sites).eliminable = true) :
    (DependenceProfile.ofSites lp sites).kind = .raw ∧
      (DependenceProfile.ofSites lp sites).distance = 1 ∧
      ∃ d, (DependenceProfile.ofSites lp sites).carried = [d] ∧ d.privatizable = true ∧
        d.operator.isSome = true := by
  obtain ⟨d, hcarried, hprivate, hfound, hclear, hkind⟩ := lone_dependence_of_eliminable h
  have hmem : d ∈ (lp.findings sites).carried := by simp [hfound]
  obtain ⟨hraw, hone, hoperator⟩ := accumulates_of_privatizable hmem hprivate
  refine ⟨hkind.trans (summaryKind_of_singleton hclear hfound hraw), ?_, d, hcarried, hprivate,
    hoperator⟩
  rw [distance_ofSites, hfound]
  simp [leastDistance, hone]

end Summary

/-! ## §5 All fields together -/

/-- The pairs of accesses that a profile compares: a store with itself, unless it completes an
accumulator, with every read, and with every store after it. -/
structure Loop.Compares (lp : Loop) (w o : AccessSite) : Prop where
  store_mem : w ∈ lp.accesses
  isWrite   : w.isWrite = true
  other_mem : o ∈ lp.accesses
  self      : o = w → ∀ acc, (w.order, acc) ∉ lp.memoryAccumulators lp.accesses
  later     : o ≠ w → o.isWrite = true → w.order < o.order

/-- How the fields of the profile of a loop hang together. -/
structure DependenceProfile.Consistent (p : DependenceProfile) (lp : Loop) : Prop where
  /-- Every dependence is between a read and a write, or between two writes... -/
  conflict : ∀ d ∈ p.carried, d.kind = .raw ∨ d.kind = .war ∨ d.kind = .waw
  /-- ... and between different iterations. -/
  apart : ∀ d ∈ p.carried, 1 ≤ d.distance
  /-- The distance of the profile is the least of them. -/
  least : ∀ d ∈ p.carried, p.distance ≤ d.distance
  attained : p.carried ≠ [] → ∃ d ∈ p.carried, d.distance = p.distance
  distance_eq_zero_iff : p.distance = 0 ↔ p.carried = []
  /-- A kind that is safe, `independent` or `readOnly`, stands for no dependence... -/
  safe : p.kind = .independent ∨ p.kind = .readOnly → p.carried = []
  /-- ... a kind of conflict for one of its own (`Occurs`)... -/
  occurs : p.kind = .raw ∨ p.kind = .war ∨ p.kind = .waw → p.kind.Occurs p.carried
  /-- ... and a `complexFlow` for doubt, or for dependences in both directions. -/
  complexFlow_iff : p.kind = .complexFlow ↔
    (∃ name, lp.CallsImpure name) ∨ (∃ w o, lp.Compares w o ∧ w.Unresolved o) ∨
      (DependenceKind.raw.Occurs p.carried ∧ DependenceKind.war.Occurs p.carried)
  /-- The variables are a set: those of the dependences and the names of impure callees. -/
  ascending : p.dependentVariables.Pairwise (· < ·)
  mem_dependentVariables : ∀ name, name ∈ p.dependentVariables ↔
    (∃ d ∈ p.carried, d.variableName = name) ∨ lp.CallsImpure name
  /-- What can be eliminated is one accumulator, in a loop without impure calls. -/
  eliminable : p.eliminable = true →
    p.kind = .raw ∧ p.distance = 1 ∧
      (∃ d, p.carried = [d] ∧ d.privatizable = true ∧ d.operator.isSome = true) ∧
      ∀ name, ¬ lp.CallsImpure name
  accumulator_isSome_iff : p.accumulator?.isSome = true ↔ p.eliminable = true

namespace Loop

variable {lp : Loop}

/-- The pairs that leave a loop in doubt are those that it `Compares` in vain. -/
theorem ambiguous_memoryFindings_iff_unresolved :
    (memoryFindings (lp.memoryAccumulators lp.accesses) lp.accesses).ambiguous = true ↔
      ∃ w o, lp.Compares w o ∧ w.Unresolved o := by
  rw [ambiguous_memoryFindings_iff]
  constructor
  · rintro ⟨w, hw, hwrite, o, ho, hdoubt⟩
    obtain ⟨horder, hnone, hrel⟩ | ⟨horder, hlater, hunresolved⟩ :=
      ambiguous_relatePair_iff.mp hdoubt
    · obtain rfl := eq_of_order_eq ho hw horder
      -- A store that is compared with itself completes no accumulator.
      refine ⟨o, o, ⟨hw, hwrite, ho, fun _ acc hacc => ?_, fun hne => absurd rfl hne⟩,
        .inr ⟨rfl, hrel⟩⟩
      rw [accumulatorAt?_of_mem hacc] at hnone
      cases hnone
    · have hne : o ≠ w := fun heq => horder (congrArg _ heq)
      exact ⟨w, o, ⟨hw, hwrite, ho, fun heq => absurd heq hne, fun _ => hlater⟩, hunresolved⟩
  · rintro ⟨w, o, hpair, hunresolved⟩
    refine ⟨w, hpair.store_mem, hpair.isWrite, o, hpair.other_mem,
      ambiguous_relatePair_iff.mpr ?_⟩
    -- Back again, the same two cases: the store itself, and another access.
    by_cases heq : o = w
    · subst heq
      refine .inl ⟨rfl, accumulatorAt?_eq_none (hpair.self rfl), ?_⟩
      obtain ⟨hbase, -⟩ | ⟨-, hrel⟩ := hunresolved
      · exact absurd rfl hbase
      · exact hrel
    · have horder : o.order ≠ w.order := fun h =>
        heq (eq_of_order_eq hpair.other_mem hpair.store_mem h)
      exact .inr ⟨horder, hpair.later heq, hunresolved⟩

theorem distance_eq_zero_iff_carried :
    lp.dependenceProfile.distance = 0 ↔ lp.dependenceProfile.carried = [] := by
  rw [carried_dependenceProfile, dependenceProfile, LoopBody.distance_ofSites]
  constructor
  · intro hzero
    -- The least distance is that of a dependence, and no dependence lies within one iteration.
    by_contra hne
    obtain ⟨d, hd, hleast⟩ := leastDistance_mem hne
    have := one_le_distance_of_mem_findings hd
    omega
  · intro hnil
    rw [hnil]
    rfl

/-- **The `dependenceProfile` of every loop is `Consistent`.** -/
theorem dependenceProfile_consistent (lp : Loop) : lp.dependenceProfile.Consistent lp where
  conflict d hd := by
    rw [carried_dependenceProfile] at hd
    exact isConflict_of_mem_findings hd
  apart d hd := by
    rw [carried_dependenceProfile] at hd
    exact one_le_distance_of_mem_findings hd
  least d hd := by
    rw [carried_dependenceProfile] at hd
    rw [dependenceProfile, LoopBody.distance_ofSites]
    exact leastDistance_le hd
  attained hne := by
    rw [carried_dependenceProfile] at hne ⊢
    rw [dependenceProfile, LoopBody.distance_ofSites]
    exact leastDistance_mem hne
  distance_eq_zero_iff := distance_eq_zero_iff_carried
  safe hkind := by
    apply carried_of_isSafe
    rcases hkind with h | h <;> rw [h] <;> rfl
  occurs hkind := by
    rw [carried_dependenceProfile]
    exact LoopBody.occurs_of_kind hkind
  complexFlow_iff := by
    rw [carried_dependenceProfile, dependenceProfile, LoopBody.kind_eq_complexFlow_iff,
      ambiguous_findings_iff, LoopBody.impureCallees_ne_nil_iff,
      ambiguous_memoryFindings_iff_unresolved, or_assoc]
  ascending := by
    rw [dependenceProfile, LoopBody.dependentVariables_ofSites]
    exact Text.pairwise_sortedSet _
  mem_dependentVariables name := by
    rw [carried_dependenceProfile, dependenceProfile, LoopBody.dependentVariables_ofSites,
      Text.mem_sortedSet, List.mem_append, List.mem_map, LoopBody.mem_impureCallees_iff]
  eliminable h := by
    obtain ⟨hkind, hdistance, hlone⟩ := LoopBody.summary_of_eliminable h
    refine ⟨hkind, hdistance, hlone, fun name hcall => ?_⟩
    exact LoopBody.impureCallees_ne_nil_iff.mpr ⟨name, hcall⟩
      (LoopBody.impureCallees_of_eliminable h)
  accumulator_isSome_iff := by
    unfold DependenceProfile.accumulator?
    split
    · next helim =>
      -- The lone dependence is the accumulator that is shown.
      obtain ⟨-, -, d, hd, -⟩ := LoopBody.summary_of_eliminable helim
      refine iff_of_true ?_ helim
      rw [dependenceProfile, hd]
      rfl
    · next helim => exact iff_of_false (by simp) helim

end Loop

end LoopAnalysis
