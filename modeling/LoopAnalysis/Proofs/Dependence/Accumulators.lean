import LoopAnalysis.Proofs.Dependence.Findings
import LoopAnalysis.Proofs.Dependence.Relation
import LoopAnalysis.Proofs.Recurrence.Matching

/-!
# Accumulators as dependences

In a loop whose one dependence can be eliminated, every accumulator is that dependence: its name,
its operator and its uses are those that the profile reports.

## Main definitions

- `Accumulator.dependence`: the dependence that folding a value gives;
- `Loop.TotalsInOneArray`: the text of an address tells the array of a total.

## Main statements

- `mem_accumulators_of_privatizable`: a dependence between accesses that can be privatized is that
  of a total in memory;
- `Loop.Completes.dependence_eq`: for a total in memory;
- `Loop.accumulator_dependence_eq`: for every accumulator of a loop.
-/

namespace LoopAnalysis

/-- The dependence that an accumulator gives: each iteration reads what the one before it wrote, at
distance one. -/
def Accumulator.dependence (acc : Accumulator) : CarriedDependence :=
  { kind := .raw, distance := 1, variableName := acc.variableName, operator := some acc.operator
    privatizable := acc.soleUse }

theorem mem_of_accumulatorAt? {accumulators : List (Nat × Accumulator)} {write : AccessSite}
    {acc : Accumulator} (h : accumulatorAt? accumulators write = some acc) :
    (write.order, acc) ∈ accumulators := by
  obtain ⟨⟨order, found⟩, hfind, rfl⟩ := Option.map_eq_some_iff.mp h
  have horder : order = write.order := by simpa using List.find?_some hfind
  subst horder
  exact List.mem_of_find?_eq_some hfind

/-- **A dependence between accesses is `privatizable` only if it is a total in memory.** -/
theorem mem_accumulators_of_privatizable {accumulators : List (Nat × Accumulator)}
    {sites : List AccessSite} {d : CarriedDependence}
    (hd : d ∈ (memoryFindings accumulators sites).carried) (hprivate : d.privatizable = true) :
    ∃ order acc, (order, acc) ∈ accumulators ∧ d = acc.dependence := by
  obtain ⟨write, -, -, other, -, hpair⟩ := mem_carried_memoryFindings_iff.mp hd
  rcases mem_carried_relatePair hpair with
    ⟨-, -, -, rfl⟩ | ⟨-, -, -, ⟨e, -, rfl⟩ | ⟨-, rfl⟩⟩
  -- A store against itself, and two accesses a distance apart, never give such a dependence.
  · cases hprivate
  · cases hprivate
  · unfold uniformDependence at hprivate ⊢
    dsimp only at hprivate ⊢
    split at hprivate
    · next acc hacc hkind =>
      refine ⟨write.order, acc, mem_of_accumulatorAt? hacc, ?_⟩
      simp only [hkind, Accumulator.dependence]
    · cases hprivate

namespace Loop

variable {lp : Loop} {acc : Accumulator} {write read : AccessSite} {loaded : ValueId}
  {m : Accumulation} {d : CarriedDependence}

/-! ## §1 Totals in memory -/

/-- The accumulator that `accumulatorAt?` finds at the position of a store is the one it completes.
-/
theorem accumulatorAt?_of_mem (h : (write.order, acc) ∈ lp.memoryAccumulators lp.accesses) :
    accumulatorAt? (lp.memoryAccumulators lp.accesses) write = some acc := by
  -- The search takes the first entry of the position, and there is only one.
  cases hfound : accumulatorAt? (lp.memoryAccumulators lp.accesses) write with
  | none =>
    rw [accumulatorAt?, Option.map_eq_none_iff] at hfound
    exact absurd (beq_self_eq_true _) (List.find?_eq_none.mp hfound _ h)
  | some other => rw [eq_of_mem_memoryAccumulators h (mem_of_accumulatorAt? hfound)]

theorem Completes.not_isWrite (h : lp.Completes acc write read loaded m) :
    read.isWrite = false :=
  isWrite_of_isRead h.isRead

theorem Completes.order_lt (h : lp.Completes acc write read loaded m) :
    read.order < write.order :=
  Nat.lt_of_le_of_ne h.before (order_ne_of_isRead h.read_mem h.isRead h.write_mem h.isWrite)

/-- **A total and the read it completes are one dependence**, given that they are of one array: the
two meet in every iteration. Where the array of the read seems to move, they leave the loop in
doubt instead. -/
theorem Completes.relatePair_eq (h : lp.Completes acc write read loaded m)
    (hmem : (write.order, acc) ∈ lp.memoryAccumulators lp.accesses)
    (hbase : read.base = write.base) :
    relatePair write (accumulatorAt? (lp.memoryAccumulators lp.accesses) write) read =
      if read.baseInvariant then .one acc.dependence else .doubt := by
  have hread := h.not_isWrite
  have hlt := h.order_lt
  -- Only the relation of the two is left of the comparison: the read is another access, no store,
  -- and of the same array.
  rw [accumulatorAt?_of_mem hmem, relatePair, if_neg (by omega), if_neg (by simp [hread]),
    if_neg (by simp [hbase]), relate_of_sameLocation h.write_mem h.read_mem h.isUniform h.same]
  cases read.baseInvariant with
  | false => rfl
  | true => simp [uniformDependence, Accumulator.dependence, hread, hlt]

/-- In a loop that is `eliminable`, a total in memory is its one dependence. -/
theorem Completes.dependence_eq (h : lp.Completes acc write read loaded m)
    (hmem : (write.order, acc) ∈ lp.memoryAccumulators lp.accesses) (hbase : read.base = write.base)
    (helim : lp.dependenceProfile.eliminable = true) (hd : lp.dependenceProfile.carried = [d]) :
    d = acc.dependence := by
  obtain ⟨hclear, hlone⟩ :=
    LoopBody.lone_pair_of_eliminable helim hd h.write_mem h.isWrite h.read_mem
  rw [h.relatePair_eq hmem hbase] at hclear hlone
  cases hinvariant : read.baseInvariant with
  | false =>
    rw [hinvariant] at hclear
    cases hclear
  | true =>
    rw [hinvariant] at hlone
    exact (hlone _ (List.mem_singleton_self _)).symm

/-! ## §2 All accumulators -/

/-- Every read that a store `Completes` to an accumulation is of the array of the store. The two are
found by the text of their addresses, which need not tell arrays apart where addresses have names of
their own. -/
def TotalsInOneArray (lp : Loop) : Prop :=
  ∀ acc write read loaded m, lp.Completes acc write read loaded m → read.base = write.base

/-- The dependence of a carried scalar is that of its accumulator. -/
theorem scalar_dependence_eq {s : CarriedScalar} (hs : s ∈ lp.carriedScalars)
    (hacc : s.accumulator = some acc) : s.dependence = acc.dependence := by
  obtain ⟨m, -, -, hname, -⟩ := LoopBody.registerAccumulator?_eq_some
    (LoopBody.accumulator_of_mem_carriedScalars hs hacc)
  simp [CarriedScalar.dependence, Accumulator.dependence, hacc, hname]

/-- A scalar of a loop that is `eliminable` is accumulated, and used for nothing else. -/
theorem scalar_accumulates_of_eliminable {s : CarriedScalar} (hs : s ∈ lp.carriedScalars)
    (helim : lp.dependenceProfile.eliminable = true) :
    ∃ acc, s.accumulator = some acc ∧ acc.soleUse = true ∧
      lp.dependenceProfile.carried = [s.dependence] := by
  obtain ⟨d, hd, hprivate, -⟩ := LoopBody.lone_dependence_of_eliminable helim
  obtain rfl := LoopBody.lone_scalar_of_eliminable helim hd hs
  cases hacc : s.accumulator with
  | none => simp [CarriedScalar.dependence, hacc] at hprivate
  | some acc =>
    refine ⟨acc, rfl, ?_, hd⟩
    simpa [CarriedScalar.dependence, hacc] using hprivate

/-- **Every accumulator is the one dependence of a loop that is `eliminable`.** -/
theorem accumulator_dependence_eq (hnames : lp.TotalsInOneArray)
    (helim : lp.dependenceProfile.eliminable = true) (hd : lp.dependenceProfile.carried = [d])
    (hacc : acc ∈ lp.carriedScalars.filterMap (·.accumulator) ++
      (lp.memoryAccumulators lp.accesses).map (·.2)) : d = acc.dependence := by
  rcases List.mem_append.mp hacc with hregister | hmemory
  · obtain ⟨s, hs, hsacc⟩ := List.mem_filterMap.mp hregister
    rw [← LoopBody.lone_scalar_of_eliminable helim hd hs, scalar_dependence_eq hs hsacc]
  · obtain ⟨⟨order, acc'⟩, hmem, rfl⟩ := List.mem_map.mp hmemory
    obtain ⟨write, read, loaded, m, rfl, hcompletes, -⟩ := completes_of_mem_memoryAccumulators hmem
    exact hcompletes.dependence_eq hmem (hnames _ _ _ _ _ hcompletes) helim hd

end Loop

end LoopAnalysis
