import LoopAnalysis.Proofs.Pattern.FirstMatch
import LoopAnalysis.Proofs.Pattern.Neighbourhood

/-!
# Patterns that refine others

Some patterns are special cases of others: a loop that has one of them has the general one as well.
Since the first match gives the label, a policy that tries the general pattern first never reaches
the special one, and one that tries the special pattern first gives the general label only where the
special pattern is absent.

## Main definitions

- `PatternKind.Refines`: which patterns are special cases of which;
- `Scene.Finds`: a pattern is found, with a neighbourhood or without one;
- `PatternPolicy.Prefers`: a policy tries one kind before another.

## Main statements

- `Scene.finds_iff`, with one statement for each pattern after it: where a pattern is found;
- `PatternKind.Refines.finds`: the general pattern is found where a special case of it is;
- `Matcher.not_recognizes_of_prefers`: nothing that a policy tries before the label is found;
- `LoopFacts.general_hides_special`: what follows for the labels under a policy.
-/

namespace LoopAnalysis

/-! ## §1 Evidence with and without a neighbourhood -/

namespace Recognition

variable {α : Type} {shape : Option StencilShape} {evidence : PatternEvidence}

/-- A recognition holds evidence, with the given `stencil` or with none. -/
def Finds (r : Recognition) (shape : Option StencilShape) : Prop :=
  ∃ e, r = .ok (some e) ∧ shape = e.stencil

/-- A recognizer that gives up under a condition `Finds` what the rest of it finds where the
condition fails. -/
theorem finds_unless {c : Prop} [Decidable c] {refusal r : Recognition}
    (hrefusal : ∀ e, refusal ≠ .ok (some e)) :
    Finds (if c then refusal else r) shape ↔ ¬c ∧ Finds r shape := by
  split
  · next hc =>
    refine iff_of_false ?_ fun h => h.1 hc
    rintro ⟨e, he, -⟩
    exact hrefusal e he
  · next hc => exact (and_iff_right hc).symm

theorem finds_pure {found : Option PatternEvidence} :
    Finds (pure found) shape ↔ ∃ e, found = some e ∧ shape = e.stencil := by
  simp only [Finds, pure, Except.pure, Except.ok.injEq]

theorem finds_ite {c : Prop} [Decidable c] :
    Finds (pure (if c then some evidence else none)) shape ↔ c ∧ shape = evidence.stencil := by
  simp [finds_pure]

theorem finds_map {found : Option α} {g : α → PatternEvidence} :
    Finds (pure (found.map g)) shape ↔ ∃ a, found = some a ∧ shape = (g a).stencil := by
  simp [finds_pure]

theorem finds_bind_ite {found : Option α} {c : α → Prop} [DecidablePred c]
    {g : α → PatternEvidence} :
    Finds (pure (found.bind fun a => if c a then some (g a) else none)) shape ↔
      ∃ a, found = some a ∧ c a ∧ shape = (g a).stencil := by
  simp [finds_pure, Option.bind_eq_some_iff, and_assoc]

/-- `find?` finds an element with a property where the list has one. -/
theorem finds_find? {xs : List α} {q : α → Bool} {g : α → PatternEvidence}
    (hg : ∀ a, (g a).stencil = none) :
    Finds (pure ((xs.find? q).map g)) shape ↔ (∃ a ∈ xs, q a = true) ∧ shape = none := by
  simp only [finds_map, hg, exists_and_right, ← Option.isSome_iff_exists, List.find?_isSome]

end Recognition

namespace Scene

variable {s : Scene} {kind : PatternKind} {shape : Option StencilShape}

/-- A pattern is found that the loop `Recognizes`, with the given `stencil` or with none. -/
def Finds (s : Scene) (kind : PatternKind) (shape : Option StencilShape) : Prop :=
  ∃ e, s.Recognizes kind e ∧ shape = e.stencil

/-- A recognizer that starts from the induction variable `Finds` what the rest of it finds, in a
loop that has one. -/
theorem finds_iff {r : Recognizer} {rest : Recognition}
    (hget : RecognizerSet.standard.get? kind = some r)
    (hr : r.recognize s = s.inductionVariable >>= fun _ => rest) :
    s.Finds kind shape ↔ s.lp.inductionVariable.isSome = true ∧ rest.Finds shape := by
  have hrecognizes : ∀ e, s.Recognizes kind e ↔ r.recognize s = .ok (some e) := by
    intro e
    rw [← evidenceFor?_eq_some_iff, evidenceFor?, hget, Option.bind_some, Matcher.evidence?]
    cases r.recognize s <;> simp
  simp only [Finds, hrecognizes, hr, inductionVariable]
  cases s.lp.inductionVariable with
  | none =>
    -- The recognizer fails before it gets to the rest.
    refine iff_of_false ?_ (by simp)
    rintro ⟨e, ⟨⟩, -⟩
  | some iv => exact (and_iff_right rfl).symm

/-! ## §2 Where patterns are found -/

open Recognition

theorem finds_reduction_iff :
    s.Finds .reduction shape ↔
      s.lp.inductionVariable.isSome = true ∧ s.accumulators ≠ [] ∧ shape = none := by
  refine (finds_iff rfl rfl).trans (and_congr_right fun _ => finds_map.trans ?_)
  -- Whichever accumulator is preferred, one is found unless there is none.
  cases s.accumulators <;> simp [Recognize.foldEvidence]

theorem finds_frobeniusNorm_iff :
    s.Finds .frobeniusNorm shape ↔
      s.lp.inductionVariable.isSome = true ∧
        (∃ acc ∈ s.accumulators,
          acc.operator = .sum ∧ Recognize.squaresOrMagnitude s acc.addend = true) ∧
        shape = none := by
  refine (finds_iff rfl rfl).trans (and_congr_right fun _ => (finds_find? fun _ => rfl).trans ?_)
  simp

theorem finds_complexReduction_iff :
    s.Finds .complexReduction shape ↔
      s.lp.inductionVariable.isSome = true ∧
        (∃ acc ∈ s.accumulators, acc.operator.isArithmetic = false) ∧ shape = none := by
  refine (finds_iff rfl rfl).trans (and_congr_right fun _ => (finds_find? fun _ => rfl).trans ?_)
  simp

theorem finds_stencil_iff :
    s.Finds .stencil shape ↔
      s.lp.inductionVariable.isSome = true ∧
        ∃ found, s.stencilShape? = some found ∧ shape = some found :=
  (finds_iff rfl rfl).trans (and_congr_right fun _ => finds_map)

/-- A `convolution2D` is a stencil in a loop that multiplies by a constant. -/
theorem finds_convolution2D_iff :
    s.Finds .convolution2D shape ↔
      s.lp.inductionVariable.isSome = true ∧
        ∃ found, s.stencilShape? = some found ∧ s.multipliesByConstant = true ∧
          shape = some found :=
  (finds_iff rfl rfl).trans (and_congr_right fun _ => finds_bind_ite)

/-- An `imageProcessing` filter is a stencil of two dimensions or more, inside a nest. -/
theorem finds_imageProcessing_iff :
    s.Finds .imageProcessing shape ↔
      s.lp.inductionVariable.isSome = true ∧ s.nesting.isNested = true ∧
        ∃ found, s.stencilShape? = some found ∧ 2 ≤ found.dimensions ∧ shape = some found := by
  refine (finds_iff rfl rfl).trans (and_congr_right fun _ => ?_)
  rw [finds_unless, finds_bind_ite]
  · simp
  · rintro e ⟨⟩

theorem finds_simpleParallel_iff :
    s.Finds .simpleParallel shape ↔
      s.lp.inductionVariable.isSome = true ∧ s.hasSideEffectCalls = false ∧
        (s.dependence.kind.isSafe = true ∨ s.dependence.eliminable = true) ∧
        (∃ site ∈ s.sites, ∃ index ∈ site.indices, s.isOwnIv index = true) ∧ shape = none := by
  refine (finds_iff rfl rfl).trans (and_congr_right fun _ => ?_)
  -- Two refusals and a last condition.
  rw [finds_unless, finds_unless, finds_ite]
  · simp only [Bool.not_eq_true, Bool.not_eq_true', Bool.not_eq_false, Bool.or_eq_true,
      List.any_eq_true]
  all_goals rintro e ⟨⟩

/-- A loop is `embarrassinglyParallel` if it is safe and calls nothing, and all it accesses is
`indexedDirectly`. -/
theorem finds_embarrassinglyParallel_iff :
    s.Finds .embarrassinglyParallel shape ↔
      s.lp.inductionVariable.isSome = true ∧ s.sites ≠ [] ∧ s.hasCalls = false ∧
        s.dependence.kind.isSafe = true ∧
        (∀ site ∈ s.sites, Recognize.indexedDirectly s site = true) ∧ shape = none := by
  refine (finds_iff rfl rfl).trans (and_congr_right fun _ => ?_)
  rw [finds_unless, finds_ite]
  · simp [and_assoc]
  · rintro e ⟨⟩

/-- A call with side effects is a call. -/
theorem hasSideEffectCalls_eq_false (h : s.hasCalls = false) : s.hasSideEffectCalls = false := by
  simp only [hasCalls, hasSideEffectCalls, List.any_eq_false, Bool.and_eq_true] at h ⊢
  exact fun i hi hcall => h i hi hcall.1

/-- An access that is `indexedDirectly` has the induction variable among its indices. -/
theorem exists_isOwnIv {site : AccessSite} (h : Recognize.indexedDirectly s site = true) :
    ∃ index ∈ site.indices, s.isOwnIv index = true := by
  simp only [Recognize.indexedDirectly, Bool.and_eq_true, beq_iff_eq] at h
  obtain ⟨⟨-, hone⟩, -⟩ := h
  obtain ⟨index, hindex⟩ := List.exists_mem_of_length_pos (hone ▸ Nat.one_pos)
  exact ⟨index, List.mem_filter.mp hindex⟩

end Scene

/-! ## §3 Special cases -/

/-- Which patterns are special cases of which: norms and folds beyond sums are reductions, weighted
and two-dimensional neighbourhoods are stencils, and loops that access everything by the induction
variable are parallel. -/
inductive PatternKind.Refines : PatternKind → PatternKind → Prop
  | frobeniusNorm : Refines .frobeniusNorm .reduction
  | complexReduction : Refines .complexReduction .reduction
  | convolution2D : Refines .convolution2D .stencil
  | imageProcessing : Refines .imageProcessing .stencil
  | embarrassinglyParallel : Refines .embarrassinglyParallel .simpleParallel

/-- **Where a special case is found, so is the general pattern**: what the one `Finds`, the other
finds with the same neighbourhood. -/
theorem PatternKind.Refines.finds {special general : PatternKind} (h : special.Refines general)
    {s : Scene} {shape : Option StencilShape} (hfinds : s.Finds special shape) :
    s.Finds general shape := by
  cases h with
  | frobeniusNorm =>
    obtain ⟨hiv, ⟨acc, hacc, -⟩, hshape⟩ := Scene.finds_frobeniusNorm_iff.mp hfinds
    exact Scene.finds_reduction_iff.mpr ⟨hiv, List.ne_nil_of_mem hacc, hshape⟩
  | complexReduction =>
    obtain ⟨hiv, ⟨acc, hacc, -⟩, hshape⟩ := Scene.finds_complexReduction_iff.mp hfinds
    exact Scene.finds_reduction_iff.mpr ⟨hiv, List.ne_nil_of_mem hacc, hshape⟩
  | convolution2D =>
    obtain ⟨hiv, found, hfound, -, hshape⟩ := Scene.finds_convolution2D_iff.mp hfinds
    exact Scene.finds_stencil_iff.mpr ⟨hiv, found, hfound, hshape⟩
  | imageProcessing =>
    obtain ⟨hiv, -, found, hfound, -, hshape⟩ := Scene.finds_imageProcessing_iff.mp hfinds
    exact Scene.finds_stencil_iff.mpr ⟨hiv, found, hfound, hshape⟩
  | embarrassinglyParallel =>
    obtain ⟨hiv, hsites, hcalls, hsafe, hdirect, hshape⟩ :=
      Scene.finds_embarrassinglyParallel_iff.mp hfinds
    -- There is an access at all, and it has the induction variable among its indices.
    obtain ⟨site, hsite⟩ := List.exists_mem_of_ne_nil s.sites hsites
    obtain ⟨index, hindex, hown⟩ := Scene.exists_isOwnIv (hdirect site hsite)
    exact Scene.finds_simpleParallel_iff.mpr
      ⟨hiv, Scene.hasSideEffectCalls_eq_false hcalls, .inl hsafe,
        ⟨site, hsite, index, hindex, hown⟩, hshape⟩

/-! ## §4 Policies -/

/-- A policy lists one kind before every mention of another, by `idxOf`. -/
def PatternPolicy.Prefers (p : PatternPolicy) (first second : PatternKind) : Prop :=
  p.order.idxOf first < p.order.idxOf second

instance (p : PatternPolicy) (first second : PatternKind) : Decidable (p.Prefers first second) :=
  inferInstanceAs (Decidable (_ < _))

/-- The `standard` policy tries special cases first. -/
theorem PatternKind.Refines.standard_prefers {special general : PatternKind}
    (h : special.Refines general) : PatternPolicy.standard.Prefers special general := by
  cases h <;> decide

/-- A kind that comes before another stands in any part of the list up to that one. -/
private theorem mem_of_idxOf_lt {first second : PatternKind} {before after : List PatternKind}
    (h : (before ++ second :: after).idxOf first < (before ++ second :: after).idxOf second) :
    first ∈ before := by
  by_contra hfirst
  rw [List.idxOf_append_of_notMem hfirst, List.idxOf_append] at h
  split at h
  · next hsecond =>
    have hlt := List.idxOf_lt_length_of_mem hsecond
    omega
  · simp only [List.idxOf_cons_self] at h
    omega

namespace Matcher

variable {policy : PatternPolicy} {s : Scene} {kind : PatternKind}

/-- The label that `classify` gives a loop is found in it. -/
theorem recognizes_of_label (h : ((ofPolicy policy).classify s).kind = kind)
    (hne : kind ≠ .unknown) : s.Recognizes kind ((ofPolicy policy).classify s).evidence := by
  subst h
  obtain ⟨before, after, -, he, -⟩ := classify_eq_iff.mp ⟨rfl, hne⟩
  exact he

/-- What a policy lists before the label of a loop is not among what the loop `Recognizes`. -/
theorem not_recognizes_of_prefers
    (h : policy.Prefers kind ((ofPolicy policy).classify s).kind) (e : PatternEvidence) :
    ¬ s.Recognizes kind e := by
  by_cases hlabel : ((ofPolicy policy).classify s).kind = .unknown
  · -- Without a label nothing that is listed matches, and a preferred kind is listed.
    have hlisted : kind ∈ policy.order :=
      List.idxOf_lt_length_iff.mp (h.trans_le List.idxOf_le_length)
    exact classify_unknown_iff.mp hlabel kind hlisted e
  · obtain ⟨before, after, horder, -, hbefore⟩ := classify_eq_iff.mp ⟨rfl, hlabel⟩
    rw [PatternPolicy.Prefers, horder] at h
    exact hbefore kind (mem_of_idxOf_lt h) e

end Matcher

/-- **A general pattern hides its special cases.** Where a kind that `Refines` another is
recognized, the other is recognized as well, and a stencil with the neighbourhood of its special
case. So no policy that lists the general kind first labels any loop with the special one, and a
loop with the general label under the `standard` policy, which lists special cases first, has none
of them. -/
theorem LoopFacts.general_hides_special (lp : Loop) {special general : PatternKind}
    (h : special.Refines general) :
    let s := Scene.of lp
    let label := fun policy => (LoopFacts.of (.ofPolicy policy) lp).classification.kind
    (∀ e, s.Recognizes special e → ∃ e', s.Recognizes general e' ∧ e'.stencil = e.stencil ∧
      (general = .stencil →
        ∃ shape, s.stencilShape? = some shape ∧ e.stencil = some shape)) ∧
    (∀ policy : PatternPolicy, policy.Prefers general special → label policy ≠ special) ∧
    (label .standard = general → ∀ e, ¬ s.Recognizes special e) := by
  intro s label
  have hgeneral : ∀ e, s.Recognizes special e → s.Finds general e.stencil :=
    fun e he => h.finds ⟨e, he, rfl⟩
  refine ⟨fun e he => ?_, fun policy hprefers hlabel => ?_, fun hlabel e => ?_⟩
  · obtain ⟨e', he', hshape⟩ := hgeneral e he
    refine ⟨e', he', hshape.symm, ?_⟩
    rintro rfl
    exact (Scene.finds_stencil_iff.mp (hgeneral e he)).2
  · -- The label was found, so the general pattern was there to be found before it.
    have hne : special ≠ .unknown := by
      rintro rfl
      cases h
    obtain ⟨e', he', -⟩ := hgeneral _ (Matcher.recognizes_of_label hlabel hne)
    exact Matcher.not_recognizes_of_prefers (hlabel ▸ hprefers) e' he'
  · -- The standard policy tried the special kind before it came to the label.
    have hprefers : PatternPolicy.standard.Prefers special (label .standard) :=
      hlabel ▸ h.standard_prefers
    exact Matcher.not_recognizes_of_prefers hprefers e

/-- `for i: B[i] = A[i - 1] + A[i] + A[i + 1]`. -/
def Loop.threePointSum : Loop :=
  straight ⟨0⟩ [
    .phi ⟨0⟩ [(.int 0, ⟨0⟩), (.value ⟨2⟩, ⟨1⟩)],
    .binary ⟨1⟩ .sub (.value ⟨0⟩) (.int 1),
    .binary ⟨2⟩ .add (.value ⟨0⟩) (.int 1),
    .elementPtr ⟨3⟩ (.symbol "A") [.value ⟨1⟩],
    .load ⟨4⟩ (.value ⟨3⟩),
    .elementPtr ⟨5⟩ (.symbol "A") [.value ⟨0⟩],
    .load ⟨6⟩ (.value ⟨5⟩),
    .elementPtr ⟨7⟩ (.symbol "A") [.value ⟨2⟩],
    .load ⟨8⟩ (.value ⟨7⟩),
    .binary ⟨9⟩ .fadd (.value ⟨4⟩) (.value ⟨6⟩),
    .binary ⟨10⟩ .fadd (.value ⟨9⟩) (.value ⟨8⟩),
    .elementPtr ⟨11⟩ (.symbol "B") [.value ⟨0⟩],
    .store (.value ⟨11⟩) (.value ⟨10⟩)]

/-- A neighbourhood in two dimensions is an image filter, or a stencil under a policy that lists
stencils first; one in a single dimension is a stencil and not a convolution. -/
theorem LoopFacts.neighbourhood_labels :
    let standard := (LoopFacts.of (.ofPolicy .standard) Loop.crossReads).classification
    let stencilFirst : PatternPolicy := ⟨2, [.stencil, .unknown, .imageProcessing]⟩
    standard.kind = .imageProcessing ∧
      (LoopFacts.of (.ofPolicy stencilFirst) Loop.crossReads).classification.kind ≠
        .imageProcessing ∧
      (∃ e, (Scene.of Loop.crossReads).Recognizes .stencil e ∧
        e.stencil = some ⟨"A", 3, 1, 2⟩) ∧
      (LoopFacts.of (.ofPolicy .standard) Loop.threePointSum).classification.kind = .stencil ∧
      ∀ e, ¬ (Scene.of Loop.threePointSum).Recognizes .convolution2D e := by
  intro standard stencilFirst
  have hcross : standard.kind = .imageProcessing := by decide +kernel
  have hshape : standard.evidence.stencil = some ⟨"A", 3, 1, 2⟩ := by decide +kernel
  have hsum : (LoopFacts.of (.ofPolicy .standard) Loop.threePointSum).classification.kind =
      .stencil := by decide +kernel
  have hfound := Matcher.recognizes_of_label hcross (by decide)
  obtain ⟨hstencil, hhidden, -⟩ := general_hides_special Loop.crossReads .imageProcessing
  obtain ⟨-, -, habsent⟩ := general_hides_special Loop.threePointSum .convolution2D
  obtain ⟨e, he, hsame, -⟩ := hstencil _ hfound
  exact ⟨hcross, hhidden stencilFirst (by decide), ⟨e, he, hsame.trans hshape⟩, hsum, habsent hsum⟩

end LoopAnalysis
