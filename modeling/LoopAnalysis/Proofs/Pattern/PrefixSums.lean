import LoopAnalysis.Pattern.Recognizer
import LoopAnalysis.Proofs.Access.Slice
import LoopAnalysis.Proofs.Dependence.Consistency
import LoopAnalysis.Proofs.Dependence.RecordedTotals
import LoopAnalysis.Proofs.Verdict.Caution

/-!
# Prefix sums and the dependences behind them

Two parts of the analysis look at a store that is fed by an earlier element of its array. The
recognizer of prefix sums asks of every dimension whether it trails the store or is the same; the
comparison of accesses asks by how many iterations, and tells the two apart where dimensions give
different answers. They agree where all moving dimensions lag behind by the same number of
iterations. Running totals are looked at twice as well, and agree where they are recorded.

## Main definitions

- `AccessSite.LagsBy`: all moving dimensions of a read lag behind a store by one distance;
- `Loop.BuildsOn`, `Loop.StoresTotal`: what the recognizer takes for a prefix sum;
- `Loop.KeptInPlace`: a total that leaves a dependence behind;
- `Loop.StaysSequential`: the profile of a loop that is not to be run in parallel as it is.

## Main statements

- `Loop.BuildsOn.relate_cases`: how a store and an earlier element lie to each other;
- `Loop.exists_prefixSum_iff`: what the recognizer finds;
- `Loop.BuildsOn.staysSequential`, `Loop.StoresTotal.staysSequential`: what each of them leaves in
  the profile;
- `Loop.prefixSum_stays_sequential`: the two parts of the analysis together.
-/

namespace LoopAnalysis

/-! ## §1 One dimension -/

/-- A dimension of a read that touches what the dimension of a store touched the given number of
iterations before. -/
def IndexTerm.Lags (d : Int) (w r : IndexTerm) : Prop :=
  ∃ c m n, w = .affine c m ∧ r = .affine c n ∧ c.toInt * d = m.toInt - n.toInt

section Dimension

variable {lp : Loop} {a b : IndexTerm} {x y : Operand} {e : Int64} {d : Int}

/-- A shift that `relateDimension` finds is a lag, and the only one. -/
theorem lags_iff_of_shift (h : relateDimension a b x y = .ok (.shift e)) :
    IndexTerm.Lags d a b ↔ d = e.toInt := by
  obtain ⟨c, m, n, delta, r, q, rfl, rfl, hdelta, hrem, hdiv, hrel⟩ | ⟨s, t, -, -, -, hrel⟩ |
    ⟨s, t, m, n, -, -, -, -, -, hrel⟩ | ⟨s, -, hrel⟩ := relateDimension_cases h
  · -- Two indices with one coefficient: the shift is the difference of their offsets, divided by
    -- it.
    split at hrel
    · next hr =>
      cases hrel
      obtain ⟨hc, he⟩ := Word.div?_eq_some_iff.mp hdiv
      have hexact : c.toInt * e.toInt = m.toInt - n.toInt := by
        rw [he, ← Word.sub?_eq_some_iff.mp hdelta,
          Int.mul_tdiv_cancel' ((Word.rem?_eq_zero hrem).mp hr)]
      constructor
      · rintro ⟨c', m', n', hw, hr', hlag⟩
        cases hw
        cases hr'
        -- Two lags have the same multiple, and the coefficient is not zero.
        have hc' : c.toInt ≠ 0 := fun hzero => hc (Word.eq_zero_iff.mpr hzero)
        exact Int.eq_of_mul_eq_mul_left hc' (hlag.trans hexact.symm)
      · rintro rfl
        exact ⟨c, m, n, rfl, rfl, hexact⟩
    · cases hrel
  · cases hrel
  · cases hrel
  · cases hrel

namespace Recognize

/-- `trails` asks for two indices that move by one, the second of them behind the first. -/
theorem trails_iff :
    trails a b = true ↔
      ∃ m n, a = .affine 1 m ∧ b = .affine 1 n ∧ n.toInt < m.toInt := by
  constructor
  · intro h
    unfold trails at h
    split at h
    · next c m c' n =>
      simp only [Bool.and_eq_true, decide_eq_true_eq] at h
      obtain ⟨⟨rfl, rfl⟩, hlt⟩ := h
      exact ⟨m, n, rfl, rfl, hlt⟩
    · cases h
  · rintro ⟨m, n, rfl, rfl, hlt⟩
    simp [trails, hlt]

/-- A dimension that `trails` lags behind by at least one iteration. -/
theorem pos_of_trails (h : trails a b = true) (hlag : IndexTerm.Lags d a b) : 0 < d := by
  obtain ⟨m, n, rfl, rfl, hlt⟩ := trails_iff.mp h
  obtain ⟨c, m', n', hw, hr, hlag⟩ := hlag
  cases hw
  cases hr
  have hone : (1 : Int64).toInt = 1 := rfl
  rw [hone] at hlag
  omega

end Recognize

/-- A constant index is classified by its text alone. -/
theorem Loop.classifyIndex_int (lp : Loop) (m : Int64) :
    lp.classifyIndex (.int m) = .invariant (toString m.toInt) := by
  simp [classifyIndex, LoopBody.classifyOwn, LoopBody.isInvariant, LoopBody.render,
    LoopBody.renderAt]

/-- `relateDimension` never tells dimensions apart that trail or are the same. -/
theorem relateDimension_ne_apart
    (h : Recognize.trails (lp.classifyIndex x) (lp.classifyIndex y) = true ∨
      lp.classifyIndex x = lp.classifyIndex y) :
    relateDimension (lp.classifyIndex x) (lp.classifyIndex y) x y ≠ .ok .apart := by
  intro hapart
  obtain ⟨c, m, n, delta, r, q, ha, hb, hdelta, hrem, -, hrel⟩ | ⟨s, t, -, -, -, hrel⟩ |
    ⟨s, t, m, n, ha, -, rfl, rfl, hne, -⟩ | ⟨s, -, hrel⟩ := relateDimension_cases hapart
  · -- The coefficient is one, or the difference of the offsets is zero: the division is exact.
    have hdvd : c.toInt ∣ delta.toInt := by
      rcases h with htrails | hsame
      · obtain ⟨m', n', ha', -, -⟩ := Recognize.trails_iff.mp htrails
        rw [ha] at ha'
        cases ha'
        exact one_dvd _
      · rw [ha, hb] at hsame
        cases hsame
        rw [Word.sub?_eq_some_iff.mp hdelta, Int.sub_self]
        exact dvd_zero _
    rw [if_pos ((Word.rem?_eq_zero hrem).mpr hdvd)] at hrel
    cases hrel
  · cases hrel
  · rcases h with htrails | hsame
    · obtain ⟨m', n', ha', -, -⟩ := Recognize.trails_iff.mp htrails
      rw [ha] at ha'
      cases ha'
    · -- Constants with one text are one constant.
      rw [Loop.classifyIndex_int, Loop.classifyIndex_int, IndexTerm.invariant.injEq] at hsame
      exact hne (Int64.toInt_inj.mp (Text.toString_int_injective hsame))
  · cases hrel

end Dimension

/-! ## §2 All dimensions -/

section Dimensions

variable {dims : List ((IndexTerm × IndexTerm) × (Operand × Operand))} {found : Option Int64}

/-- Where `relateDimensions` relates accesses and does not tell them apart, every dimension is left
open or shifted by the one distance that remains. -/
theorem relateDimensions_settled {rel : Relation} (h : relateDimensions found dims = .ok rel)
    (hne : rel ≠ .independent) :
    ∃ last, relateDimensions last [] = .ok rel ∧ (∀ e, found = some e → last = some e) ∧
      ∀ dim ∈ dims, relateDimension dim.1.1 dim.1.2 dim.2.1 dim.2.2 = .ok .free ∨
        ∃ e, last = some e ∧
          relateDimension dim.1.1 dim.1.2 dim.2.1 dim.2.2 = .ok (.shift e) := by
  -- One case for each answer that a dimension can give, with the distance found so far.
  fun_induction relateDimensions found dims with
  | case1 => exact ⟨none, h, by simp, by simp⟩
  | case2 e => exact ⟨some e, h, by simp, by simp⟩
  | case3 => cases h
  | case4 =>
    cases h
    exact absurd rfl hne
  | case5 found a b x y rest hfree ih =>
    obtain ⟨last, hlast, hfound, hrest⟩ := ih h
    exact ⟨last, hlast, hfound, List.forall_mem_cons.mpr ⟨.inl hfree, hrest⟩⟩
  | case6 a b x y rest d hshift ih =>
    obtain ⟨last, hlast, hfound, hrest⟩ := ih h
    exact ⟨last, hlast, by simp,
      List.forall_mem_cons.mpr ⟨.inr ⟨d, hfound d rfl, hshift⟩, hrest⟩⟩
  | case7 a b x y rest d hshift ih =>
    obtain ⟨last, hlast, hfound, hrest⟩ := ih h
    exact ⟨last, hlast, hfound,
      List.forall_mem_cons.mpr ⟨.inr ⟨d, hfound d rfl, hshift⟩, hrest⟩⟩
  | case8 =>
    cases h
    exact absurd rfl hne

/-- `relateDimensions` does not tell accesses apart if no dimension is apart and no two are shifted
by different distances. -/
theorem relateDimensions_ne_independent {d : Int} (hfound : ∀ e, found = some e → e.toInt = d)
    (hdims : ∀ dim ∈ dims, relateDimension dim.1.1 dim.1.2 dim.2.1 dim.2.2 ≠ .ok .apart ∧
      ∀ e, relateDimension dim.1.1 dim.1.2 dim.2.1 dim.2.2 = .ok (.shift e) → e.toInt = d) :
    relateDimensions found dims ≠ .ok .independent := by
  fun_induction relateDimensions found dims with
  | case1 => simp
  | case2 e => split <;> simp
  | case3 => simp
  | case4 found a b x y rest hapart => exact absurd hapart (hdims _ List.mem_cons_self).1
  | case5 found a b x y rest hfree ih => exact ih hfound (List.forall_mem_cons.mp hdims).2
  | case6 a b x y rest e hshift ih =>
    obtain ⟨⟨-, hhead⟩, hrest⟩ := List.forall_mem_cons.mp hdims
    refine ih ?_ hrest
    rintro _ ⟨⟩
    exact hhead e hshift
  | case7 a b x y rest e hshift ih => exact ih hfound (List.forall_mem_cons.mp hdims).2
  | case8 a b x y rest e hshift previous hdiffer =>
    -- The distance found before and the one found now are both `d`.
    have hsame := (hdims _ List.mem_cons_self).2 e hshift
    exact absurd (Int64.toInt_inj.mp ((hfound previous rfl).trans hsame.symm)) hdiffer

theorem Loop.dimensions_eq_map (lp : Loop) (xs ys : List Operand) :
    lp.dimensions xs ys =
      (xs.zip ys).map fun p => ((lp.classifyIndex p.1, lp.classifyIndex p.2), p) := by
  induction xs generalizing ys with
  | nil => rfl
  | cons x xs ih =>
    cases ys with
    | nil => rfl
    | cons y ys => rw [Loop.dimensions_cons, ih, List.zip_cons_cons, List.map_cons]

end Dimensions

/-! ## §3 A store and an earlier element -/

/-- Every moving dimension of a read `Lags` behind that of a store, by the given number of
iterations. -/
def AccessSite.LagsBy (d : Int) (w r : AccessSite) : Prop :=
  ∀ p ∈ w.terms.zip r.terms, p.1.isAffine = true → IndexTerm.Lags d p.1 p.2

namespace Loop

/-- A store of a value that `flowsFrom` an element of the same array, at the place of the store or
behind it in every dimension, and behind it in one. -/
structure BuildsOn (lp : Loop) (w r : AccessSite) : Prop where
  store_mem : w ∈ lp.accesses
  isWrite   : w.isWrite = true
  read_mem  : r ∈ lp.accesses
  isRead    : r.isRead = true
  base      : r.base = w.base
  earlier   : Recognize.readsEarlierElement w.terms r.terms = true
  flows     : ∃ value loaded, w.value = some value ∧ r.result = some loaded ∧
    lp.flowsFrom value loaded = true

namespace BuildsOn

variable {lp : Loop} {w r : AccessSite}

theorem not_isWrite (h : lp.BuildsOn w r) : r.isWrite = false := isWrite_of_isRead h.isRead

theorem order_ne (h : lp.BuildsOn w r) : r.order ≠ w.order :=
  order_ne_of_isRead h.read_mem h.isRead h.store_mem h.isWrite

/-- The `dimensions` that the two are compared by are the pairs of their terms. -/
theorem mem_terms_zip (h : lp.BuildsOn w r) {p : IndexTerm × IndexTerm} :
    p ∈ w.terms.zip r.terms ↔
      ∃ dim ∈ lp.dimensions w.indices r.indices, dim.1 = p := by
  rw [terms_eq_map h.store_mem, terms_eq_map h.read_mem, dimensions_eq_map, List.zip_map]
  simp only [List.mem_map, exists_exists_and_eq_and]
  rfl

/-- The question that `readsEarlierElement` asks about every dimension. -/
theorem trails_or_same (h : lp.BuildsOn w r) {dim : (IndexTerm × IndexTerm) × (Operand × Operand)}
    (hdim : dim ∈ lp.dimensions w.indices r.indices) :
    Recognize.trails dim.1.1 dim.1.2 = true ∨ dim.1.1 = dim.1.2 := by
  have hearlier := h.earlier
  simp only [Recognize.readsEarlierElement, Bool.and_eq_true, List.all_eq_true,
    Bool.or_eq_true, beq_iff_eq] at hearlier
  exact hearlier.1.2 _ (h.mem_terms_zip.mpr ⟨dim, hdim, rfl⟩)

/-- `readsEarlierElement` also asks for one dimension that trails. -/
theorem exists_trails (h : lp.BuildsOn w r) :
    ∃ dim ∈ lp.dimensions w.indices r.indices, Recognize.trails dim.1.1 dim.1.2 = true := by
  have hearlier := h.earlier
  simp only [Recognize.readsEarlierElement, Bool.and_eq_true, List.any_eq_true] at hearlier
  obtain ⟨-, p, hp, htrails⟩ := hearlier
  obtain ⟨dim, hdim, rfl⟩ := h.mem_terms_zip.mp hp
  exact ⟨dim, hdim, htrails⟩

/-- A store and an earlier element that are related and not told apart have a positive `distance`,
which is the lag of every dimension that moves. -/
theorem distance_of_relate (h : lp.BuildsOn w r) {rel : Relation} (hrel : relate w r = .ok rel)
    (hne : rel ≠ .independent) :
    ∃ d, rel = .distance d ∧ 0 < d.toInt ∧ AccessSite.LagsBy d.toInt w r := by
  have hdims := (relate_eq_ok hrel).2
  rw [terms_eq_map h.store_mem, terms_eq_map h.read_mem] at hdims
  obtain ⟨last, hlast, -, hsettled⟩ := relateDimensions_settled hdims hne
  -- The dimension that trails is shifted, which fixes the distance.
  obtain ⟨⟨⟨a, b⟩, x, y⟩, hdim, htrails⟩ := h.exists_trails
  obtain ⟨m, n, rfl, rfl, -⟩ := Recognize.trails_iff.mp htrails
  obtain hfree | ⟨d, rfl, hshift⟩ := hsettled _ hdim
  · exact absurd hfree relateDimension_affine_ne_free
  have hpos : 0 < d.toInt := Recognize.pos_of_trails htrails ((lags_iff_of_shift hshift).mpr rfl)
  have hzero : d ≠ 0 := by
    rintro rfl
    exact absurd hpos (by decide)
  refine ⟨d, ?_, hpos, ?_⟩
  · simpa [relateDimensions, hzero] using hlast.symm
  · -- Any other dimension that moves is shifted too, and by what was found before.
    intro p hp haffine
    obtain ⟨⟨⟨a', b'⟩, x', y'⟩, hdim', rfl⟩ := h.mem_terms_zip.mp hp
    obtain hfree | ⟨e, he, hshift'⟩ := hsettled _ hdim'
    · cases a' with
      | affine c o => exact absurd hfree relateDimension_affine_ne_free
      | _ => cases haffine
    · cases he
      exact (lags_iff_of_shift hshift').mpr rfl

/-- `relate` does not tell a store and an earlier element apart that lag by one distance. -/
theorem relate_ne_independent (h : lp.BuildsOn w r) {d : Int} (hlags : AccessSite.LagsBy d w r) :
    relate w r ≠ .ok .independent := by
  intro hrel
  have hdims := (relate_eq_ok hrel).2
  rw [terms_eq_map h.store_mem, terms_eq_map h.read_mem] at hdims
  refine relateDimensions_ne_independent (d := d) (by simp) (fun dim hdim => ?_) hdims
  have hsame := h.trails_or_same hdim
  have hlag := hlags _ (h.mem_terms_zip.mpr ⟨dim, hdim, rfl⟩)
  rw [← dimensions, dimensions_eq_map] at hdim
  obtain ⟨⟨x, y⟩, -, rfl⟩ := List.mem_map.mp hdim
  refine ⟨relateDimension_ne_apart hsame, fun e hshift => ?_⟩
  have haffine : (lp.classifyIndex x).isAffine = true := by
    obtain ⟨c, m, n, ha, -⟩ := (lags_iff_of_shift hshift).mpr rfl
    dsimp only at ha
    rw [ha]
    rfl
  exact ((lags_iff_of_shift hshift).mp (hlag haffine)).symm

/-- **How `relate` takes a store and an earlier element.** They cannot be compared, or the read
comes a positive number of iterations after the store, or they are told apart, which happens only
where no single number of iterations is the lag of every moving dimension. -/
theorem relate_cases (h : lp.BuildsOn w r) :
    (∃ e, relate w r = .error e) ∨
    (∃ d, relate w r = .ok (.distance d) ∧ 0 < d.toInt ∧ AccessSite.LagsBy d.toInt w r) ∨
    (relate w r = .ok .independent ∧ ∀ d, ¬ AccessSite.LagsBy d w r) := by
  cases hrel : relate w r with
  | error e => exact .inl ⟨e, rfl⟩
  | ok rel =>
    by_cases hapart : rel = .independent
    · subst hapart
      exact .inr (.inr ⟨rfl, fun d hlags => h.relate_ne_independent hlags hrel⟩)
    · obtain ⟨d, rfl, hpos, hlags⟩ := h.distance_of_relate hrel hapart
      exact .inr (.inl ⟨d, rfl, hpos, hlags⟩)

end BuildsOn

/-! ## §4 Running totals -/

/-- An accumulator without `soleUse`, whose running value is also stored at a place that moves. -/
structure StoresTotal (lp : Loop) (acc : Accumulator) : Prop where
  mem    : acc ∈ (Scene.of lp).accumulators
  shared : acc.soleUse = false
  stored : ∃ w ∈ lp.accesses, w.isWrite = true ∧ w.value = some (.value acc.update) ∧
    ∃ term ∈ w.terms, term.isAffine = true

/-- A total that is kept in a register, or in memory where it `Completes` between a store and a read
in one array by their texts. -/
def KeptInPlace (lp : Loop) (acc : Accumulator) : Prop :=
  (∃ s ∈ lp.carriedScalars, s.accumulator = some acc) ∨
    ∃ write read loaded m, (write.order, acc) ∈ lp.memoryAccumulators lp.accesses ∧
      lp.Completes acc write read loaded m ∧ read.base = write.base

variable {lp : Loop} {w r : AccessSite} {acc : Accumulator}

/-- What `storesRunningTotal` asks for, in the terms of `StoresTotal`. -/
theorem storesRunningTotal_iff :
    Recognize.storesRunningTotal (Scene.of lp) acc = true ↔
      acc.soleUse = false ∧ ∃ w ∈ lp.accesses, w.isWrite = true ∧
        w.value = some (.value acc.update) ∧ ∃ term ∈ w.terms, term.isAffine = true := by
  have hwrites : (Scene.of lp).writes = lp.accesses.filter (·.isWrite) := rfl
  simp only [Recognize.storesRunningTotal, hwrites, Bool.and_eq_true, Bool.not_eq_true',
    List.any_eq_true, List.mem_filter, Option.any_eq_true, Operand.isValue_iff, and_assoc,
    exists_eq_right]

/-! ## §5 What the recognizer finds -/

/-- `previousElement?` has evidence exactly where a store `BuildsOn` a read. -/
theorem exists_previousElement?_iff :
    (∃ e, Recognize.previousElement? (Scene.of lp) = some e) ↔ ∃ w r, lp.BuildsOn w r := by
  constructor
  · rintro ⟨e, he⟩
    obtain ⟨w, hw, hwrite⟩ := List.exists_of_findSome?_eq_some he
    simp only [bind, Option.bind_eq_some_iff] at hwrite
    obtain ⟨value, hvalue, hread⟩ := hwrite
    obtain ⟨r, hr, hread⟩ := List.exists_of_findSome?_eq_some hread
    obtain ⟨loaded, hloaded, hfound⟩ := Option.bind_eq_some_iff.mp hread
    obtain ⟨hr, hbase⟩ := List.mem_filter.mp hr
    obtain ⟨hwmem, hisWrite⟩ := List.mem_filter.mp hw
    obtain ⟨hrmem, hisRead⟩ := List.mem_filter.mp hr
    split at hfound
    · next hpair =>
      rw [Bool.and_eq_true] at hpair
      exact ⟨w, r, hwmem, hisWrite, hrmem, hisRead, by simpa using hbase, hpair.1,
        value, loaded, hvalue, hloaded, hpair.2⟩
    · cases hfound
  · rintro ⟨w, r, h⟩
    obtain ⟨value, loaded, hvalue, hloaded, hflows⟩ := h.flows
    have hw : w ∈ (Scene.of lp).writes := List.mem_filter.mpr ⟨h.store_mem, h.isWrite⟩
    have hr : r ∈ (Scene.of lp).reads.filter (·.base == w.base) :=
      List.mem_filter.mpr ⟨List.mem_filter.mpr ⟨h.read_mem, h.isRead⟩, by simp [h.base]⟩
    -- Both searches go through the pair, so neither comes back with nothing.
    rw [← Option.isSome_iff_exists, Recognize.previousElement?, List.findSome?_isSome_iff]
    refine ⟨w, hw, ?_⟩
    simp only [hvalue, bind, Option.bind_some]
    rw [List.findSome?_isSome_iff]
    refine ⟨r, hr, ?_⟩
    have hflows : (Scene.of lp).lp.flowsFrom value loaded = true := hflows
    simp [hloaded, h.earlier, hflows]

/-- **What the recognizer takes for a prefix sum**: a store that `BuildsOn` an earlier element, or
an accumulator that `StoresTotal` accepts. -/
theorem exists_prefixSum_iff :
    (∃ e, Recognize.prefixSum (Scene.of lp) = .ok (some e)) ↔
      (∃ iv, lp.inductionVariable = some iv) ∧
        ((∃ w r, lp.BuildsOn w r) ∨ ∃ acc, lp.StoresTotal acc) := by
  have hlp : (Scene.of lp).lp = lp := rfl
  rw [← exists_previousElement?_iff]
  unfold Recognize.prefixSum Scene.inductionVariable
  rw [hlp]
  cases hiv : lp.inductionVariable with
  | none => simp [bind, Except.bind]
  | some iv =>
    -- The search for a total goes through the accumulators with the same test.
    have htotals : (∃ acc, lp.StoresTotal acc) ↔
        ∃ acc, (Scene.of lp).accumulators.find?
          (Recognize.storesRunningTotal (Scene.of lp)) = some acc := by
      rw [← Option.isSome_iff_exists, List.find?_isSome]
      constructor
      · rintro ⟨acc, hmem, hshared, hstored⟩
        exact ⟨acc, hmem, storesRunningTotal_iff.mpr ⟨hshared, hstored⟩⟩
      · rintro ⟨acc, hmem, hstores⟩
        obtain ⟨hshared, hstored⟩ := storesRunningTotal_iff.mp hstores
        exact ⟨acc, hmem, hshared, hstored⟩
    rw [htotals]
    cases hprevious : Recognize.previousElement? (Scene.of lp) with
    | some e => simp [bind, Except.bind, pure, Except.pure]
    | none => simp [bind, Except.bind, pure, Except.pure]

/-! ## §6 What the profile says -/

/-- The `dependenceProfile` of a loop that is not to be run in parallel as it is. -/
structure StaysSequential (lp : Loop) : Prop where
  kind       : lp.dependenceProfile.kind = .raw ∨ lp.dependenceProfile.kind = .complexFlow
  eliminable : lp.dependenceProfile.eliminable = false

/-- A loop in doubt stays sequential, since only one whose kind is `raw` is eliminable... -/
theorem staysSequential_of_complexFlow (h : lp.dependenceProfile.kind = .complexFlow) :
    lp.StaysSequential := by
  refine ⟨.inr h, Bool.eq_false_iff.mpr fun helim => ?_⟩
  obtain ⟨hraw, -⟩ := LoopBody.summary_of_eliminable helim
  rw [dependenceProfile, hraw] at h
  cases h

/-- ... and so does one that reads what an earlier iteration wrote, where that cannot be
privatized. -/
theorem staysSequential_of_mem {d : CarriedDependence} (hd : d ∈ lp.dependenceProfile.carried)
    (hraw : d.kind = .raw) (hshared : d.privatizable = false) : lp.StaysSequential := by
  refine ⟨?_, Bool.eq_false_iff.mpr fun helim => ?_⟩
  · rw [carried_dependenceProfile] at hd
    exact LoopBody.kind_of_raw ⟨d, hd, hraw⟩
  · obtain ⟨d', hlone, hprivate, -⟩ := LoopBody.lone_dependence_of_eliminable helim
    obtain rfl : d = d' := by simpa [dependenceProfile, hlone] using hd
    rw [hshared] at hprivate
    cases hprivate

/-- **A store that `BuildsOn` an earlier element keeps its loop sequential**, unless `relate` tells
the two apart. -/
theorem BuildsOn.staysSequential (h : lp.BuildsOn w r) (hmeet : relate w r ≠ .ok .independent) :
    lp.StaysSequential := by
  obtain ⟨e, herror⟩ | ⟨d, hdistance, hpos, -⟩ | ⟨hapart, -⟩ := h.relate_cases
  · -- What cannot be compared in one array is in doubt.
    apply staysSequential_of_complexFlow
    apply LoopBody.kind_of_ambiguous_relatePair h.store_mem h.isWrite h.read_mem
    rw [ambiguous_relatePair_iff]
    exact .inr ⟨h.order_ne, by simp [h.not_isWrite], .inr ⟨h.base, e, herror⟩⟩
  · -- A positive distance is a value that a later iteration reads.
    have hcarried : shiftedDependence w r d ∈ lp.dependenceProfile.carried := by
      rw [carried_dependenceProfile, mem_carried_findings_iff, mem_carried_memoryFindings_iff]
      refine .inl ⟨w, h.store_mem, h.isWrite, r, h.read_mem, ?_⟩
      rw [relatePair, if_neg h.order_ne, if_neg (by simp [h.not_isWrite]),
        if_neg (by simp [h.base]), hdistance]
      exact List.mem_singleton_self _
    refine staysSequential_of_mem hcarried ?_ rfl
    simp [shiftedDependence, h.isRead, hpos]
  · exact absurd hapart hmeet

/-- **A running total keeps its loop sequential**, if it is `KeptInPlace`. -/
theorem StoresTotal.staysSequential (h : lp.StoresTotal acc) (hkept : lp.KeptInPlace acc) :
    lp.StaysSequential := by
  have hshared : acc.dependence.privatizable = false := h.shared
  rcases hkept with ⟨s, hs, hacc⟩ | ⟨write, read, loaded, m, hmem, hcompletes, hbase⟩
  · refine staysSequential_of_mem ?_ rfl hshared
    rw [carried_dependenceProfile, mem_carried_findings_iff]
    exact .inr ⟨s, hs, scalar_dependence_eq hs hacc⟩
  · cases hinvariant : read.baseInvariant with
    | true => exact staysSequential_of_mem (hcompletes.recorded hmem hbase hinvariant) rfl hshared
    | false => exact staysSequential_of_complexFlow (hcompletes.in_doubt hmem hbase hinvariant)

/-- Whatever is suggested for a loop that `StaysSequential` is marked, under every analyzer and
every opinion. -/
theorem StaysSequential.isMarked (h : lp.StaysSequential) (a : Analyzer)
    (outcome : Option Outcome) :
    ∀ t ∈ (a.finish (a.facts lp) outcome).verdict.transformations,
      Suggestion.isMarked t = true := by
  intro t ht
  by_contra hbare
  rw [Bool.not_eq_true] at hbare
  rw [a.transformations_finish] at ht
  have hcleared := (a.cleared_iff lp outcome).mpr (Verdict.verify_eq_false_of_unmarked ht hbare)
  have hdependence : (a.finish (a.facts lp) outcome).dependence = lp.dependenceProfile := rfl
  have hsafe := hcleared.safe
  rw [hdependence, h.eliminable] at hsafe
  rcases h.kind with hkind | hkind <;> simp [hkind] at hsafe

/-- **A prefix sum stays sequential unless what it rests on is told apart.** Where
`Recognize.prefixSum` finds evidence, the profile of the loop is that of a loop to be run in
sequence, and everything that is suggested for it is marked; or else all evidence is of two kinds.
It is a store that `BuildsOn` a read whose moving dimensions do not all lag by one number of
iterations, where the two never touch one place; or it is a total that is not `KeptInPlace`, in
memory and with its store and reads in different arrays by their texts. -/
theorem prefixSum_stays_sequential (lp : Loop) (e : PatternEvidence)
    (h : Recognize.prefixSum (Scene.of lp) = .ok (some e)) :
    (((lp.dependenceProfile.kind = .raw ∨ lp.dependenceProfile.kind = .complexFlow) ∧
        lp.dependenceProfile.eliminable = false) ∧
      ∀ (a : Analyzer) (outcome : Option Outcome),
        ∀ t ∈ (a.finish (a.facts lp) outcome).verdict.transformations,
          Suggestion.isMarked t = true) ∨
    (((∃ w r, lp.BuildsOn w r) ∨ ∃ acc, lp.StoresTotal acc) ∧
      (∀ w r, lp.BuildsOn w r →
        (∀ d, ¬ AccessSite.LagsBy d w r) ∧
        ∀ r₁ r₂ : Valuation, r₁.Respects lp.toLoopBody → r₂.Respects lp.toLoopBody →
          w.indices.map r₁.eval ≠ r.indices.map r₂.eval) ∧
      ∀ acc, lp.StoresTotal acc → ¬ lp.KeptInPlace acc) := by
  obtain ⟨⟨iv, hiv⟩, hrests⟩ := exists_prefixSum_iff.mp ⟨e, h⟩
  by_cases hsequential : lp.StaysSequential
  · exact .inl ⟨⟨hsequential.kind, hsequential.eliminable⟩, hsequential.isMarked⟩
  · refine .inr ⟨hrests, fun w r hbuilds => ?_, fun acc htotal hkept => ?_⟩
    · -- A store and a read that meet would have kept the loop sequential.
      have hapart : relate w r = .ok .independent := by
        by_contra hmeet
        exact hsequential (hbuilds.staysSequential hmeet)
      refine ⟨fun d hlags => hbuilds.relate_ne_independent hlags hapart, ?_⟩
      intro r₁ r₂ h₁ h₂ hmeet
      exact relate_sound hiv h₁ h₂ hbuilds.store_mem hbuilds.read_mem hapart hmeet
    · exact hsequential (htotal.staysSequential hkept)

/-! ## §7 Two loops that look like prefix sums -/

/-- `for i: A[i] = B[i] + A[i - 1]`. -/
def sumsPrefixes : Loop :=
  straight ⟨0⟩ [
    .phi ⟨0⟩ [(.int 1, ⟨0⟩), (.value ⟨8⟩, ⟨1⟩)],
    .elementPtr ⟨1⟩ (.symbol "B") [.value ⟨0⟩],
    .load ⟨2⟩ (.value ⟨1⟩),
    .binary ⟨3⟩ .sub (.value ⟨0⟩) (.int 1),
    .elementPtr ⟨4⟩ (.symbol "A") [.value ⟨3⟩],
    .load ⟨5⟩ (.value ⟨4⟩),
    .binary ⟨6⟩ .fadd (.value ⟨2⟩) (.value ⟨5⟩),
    .elementPtr ⟨7⟩ (.symbol "A") [.value ⟨0⟩],
    .store (.value ⟨7⟩) (.value ⟨6⟩),
    .binary ⟨8⟩ .add (.value ⟨0⟩) (.int 1)]

/-- `prefixSum_stays_sequential` at a prefix sum: its one moving dimension lags by one iteration. -/
theorem sumsPrefixes_sequential :
    (∃ e, Recognize.prefixSum (Scene.of sumsPrefixes) = .ok (some e)) ∧
      (sumsPrefixes.dependenceProfile.kind = .raw ∨
        sumsPrefixes.dependenceProfile.kind = .complexFlow) ∧
      sumsPrefixes.dependenceProfile.eliminable = false ∧
      ∀ (a : Analyzer) (outcome : Option Outcome),
        ∀ t ∈ (a.finish (a.facts sumsPrefixes) outcome).verdict.transformations,
          Suggestion.isMarked t = true := by
  obtain ⟨other, load, store, haccesses, hrel, hload, hstore, hbase, hearlier, hvalue, hresult⟩ :
      ∃ other load store, sumsPrefixes.accesses = [other, load, store] ∧
        relate store load = .ok (.distance 1) ∧ load.isRead = true ∧ store.isWrite = true ∧
        load.base = store.base ∧
        Recognize.readsEarlierElement store.terms load.terms = true ∧
        store.value = some (.value ⟨6⟩) ∧ load.result = some ⟨5⟩ :=
    ⟨_, _, _, rfl, by decide, by decide, by decide, by decide, by decide, rfl, rfl⟩
  have hflows : sumsPrefixes.flowsFrom (.value ⟨6⟩) ⟨5⟩ = true :=
    LoopBody.flowsFrom_of_sliceStep (by decide) (by decide) rfl
  have hbuilds : sumsPrefixes.BuildsOn store load :=
    ⟨by simp [haccesses], hstore, by simp [haccesses], hload, hbase, hearlier, _, _, hvalue,
      hresult, hflows⟩
  obtain ⟨e, he⟩ := exists_prefixSum_iff.mpr ⟨⟨⟨0⟩, rfl⟩, .inl ⟨store, load, hbuilds⟩⟩
  obtain ⟨⟨hkind, helim⟩, hmarked⟩ | ⟨-, hpairs, -⟩ := prefixSum_stays_sequential sumsPrefixes e he
  · exact ⟨⟨e, he⟩, hkind, helim, hmarked⟩
  · obtain ⟨d, -, -, hlags⟩ := hbuilds.distance_of_relate hrel (by simp)
    exact absurd hlags ((hpairs store load hbuilds).1 _)

/-- `for i: A[i][i] = A[i][i - 1] + 1`. -/
def besideDiagonal : Loop :=
  straight ⟨0⟩ [
    .phi ⟨0⟩ [(.int 1, ⟨0⟩), (.value ⟨6⟩, ⟨1⟩)],
    .binary ⟨1⟩ .sub (.value ⟨0⟩) (.int 1),
    .elementPtr ⟨2⟩ (.symbol "A") [.value ⟨0⟩, .value ⟨1⟩],
    .load ⟨3⟩ (.value ⟨2⟩),
    .binary ⟨4⟩ .add (.value ⟨3⟩) (.int 1),
    .elementPtr ⟨5⟩ (.symbol "A") [.value ⟨0⟩, .value ⟨0⟩],
    .store (.value ⟨5⟩) (.value ⟨4⟩),
    .binary ⟨6⟩ .add (.value ⟨0⟩) (.int 1)]

/-- **A prefix sum without a dependence**: the columns of `besideDiagonal` lag by one iteration and
its rows by none, so its iterations are independent, and what is suggested for it is left as it
is. -/
theorem besideDiagonal_independent :
    (∃ e, Recognize.prefixSum (Scene.of besideDiagonal) = .ok (some e)) ∧
      besideDiagonal.dependenceProfile.kind = .independent ∧
      ∀ a : Analyzer, (a.analyze besideDiagonal).verdict.transformations =
        Suggestion.suggest (a.matcher.classify (Scene.of besideDiagonal))
          (Scene.of besideDiagonal).vectorization := by
  have hkind : besideDiagonal.dependenceProfile.kind = .independent := by decide
  refine ⟨?_, hkind, fun a => ?_⟩
  · obtain ⟨load, store, haccesses, hload, hstore, hbase, hearlier, hvalue, hresult⟩ :
        ∃ load store, besideDiagonal.accesses = [load, store] ∧ load.isRead = true ∧
          store.isWrite = true ∧ load.base = store.base ∧
          Recognize.readsEarlierElement store.terms load.terms = true ∧
          store.value = some (.value ⟨4⟩) ∧ load.result = some ⟨3⟩ :=
      ⟨_, _, rfl, by decide, by decide, by decide, by decide, rfl, rfl⟩
    have hflows : besideDiagonal.flowsFrom (.value ⟨4⟩) ⟨3⟩ = true :=
      LoopBody.flowsFrom_of_sliceStep (by decide) (by decide) rfl
    have hbuilds : besideDiagonal.BuildsOn store load :=
      ⟨by simp [haccesses], hstore, by simp [haccesses], hload, hbase, hearlier, _, _, hvalue,
        hresult, hflows⟩
    exact exists_prefixSum_iff.mpr ⟨⟨⟨0⟩, rfl⟩, .inl ⟨store, load, hbuilds⟩⟩
  · have hcheck := (a.cleared_iff besideDiagonal none).mp ⟨.inl hkind, rfl, by simp⟩
    rw [Analyzer.analyze, a.transformations_finish, hcheck]
    rfl

end Loop

end LoopAnalysis
