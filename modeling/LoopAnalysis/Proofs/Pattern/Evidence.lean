import LoopAnalysis.Pattern.Policy
import Mathlib.Tactic.Common

/-!
# What the evidence for a label says

The suggestions for a loop look at the reduction that its evidence names and at the loops that it
would merge. Only the recognizers of folded values name a reduction, and what they name is an
accumulator of the loop. Only those of matrices, convolutions and images merge loops.

## Main definitions

- `Recognition.Yields`: all evidence that a recognition holds has a property;
- `PatternEvidence.Names`: what the evidence for a pattern says of reductions.

## Main statements

- `Matcher.classify_induction`: what every recognizer yields holds of the label under every policy;
- `names_of_mem_standard`: every recognizer gives evidence of that form;
- `Matcher.classify_names`: and so does the label of a loop under every policy.
-/

namespace LoopAnalysis

/-! ## §1 What a recognition holds -/

namespace Recognition

variable {P : PatternEvidence → Prop} {α : Type}

/-- Any evidence that a `Recognition` holds has the property `P`; an error and no evidence hold
none. -/
def Yields (P : PatternEvidence → Prop) (r : Recognition) : Prop := ∀ e, r = .ok (some e) → P e

theorem Yields.mono {Q : PatternEvidence → Prop} {r : Recognition} (h : Yields P r)
    (himp : ∀ e, P e → Q e) : Yields Q r := by
  intro e he
  exact himp e (h e he)

theorem yields_none : Yields P (pure none) := by
  rintro e ⟨⟩

theorem yields_pure {found : Option PatternEvidence} (h : ∀ e, found = some e → P e) :
    Yields P (pure found) := by
  intro e he
  exact h e (Except.ok.inj he)

/-- What comes before the evidence is found does not matter to `Yields`. -/
theorem yields_bind {x : Except MissingStructure α} {f : α → Recognition}
    (h : ∀ a, Yields P (f a)) : Yields P (x >>= f) := by
  intro e he
  cases x with
  | error missing => cases he
  | ok a => exact h a e he

/-- A recognizer that throws a `MissingStructure` where it needs more `Yields` what it yields where
the structure is there. -/
theorem yields_unless {c : Prop} [Decidable c] {missing : MissingStructure} {r : Recognition}
    {f : α → Recognition} (h : ¬c → Yields P r) :
    Yields P (if c then throw missing >>= f else r) := by
  split
  · rintro e ⟨⟩
  · next hc => exact h hc

theorem yields_ite {c : Prop} [Decidable c] {evidence : PatternEvidence} (h : P evidence) :
    Yields P (pure (if c then some evidence else none)) := by
  refine yields_pure fun e he => ?_
  split at he
  · cases he
    exact h
  · cases he

/-- `Recognition.Yields` for a recognizer that describes whatever its search has `found`. -/
theorem yields_map {found : Option α} {g : α → PatternEvidence}
    (h : ∀ a, found = some a → P (g a)) : Yields P (pure (found.map g)) := by
  refine yields_pure fun e he => ?_
  obtain ⟨a, ha, rfl⟩ := Option.map_eq_some_iff.mp he
  exact h a ha

theorem yields_bind_ite {found : Option α} {c : α → Prop} [DecidablePred c]
    {g : α → PatternEvidence} (h : ∀ a, P (g a)) :
    Yields P (pure (found.bind fun a => if c a then some (g a) else none)) := by
  refine yields_pure fun e he => ?_
  obtain ⟨a, -, ha⟩ := Option.bind_eq_some_iff.mp he
  split at ha
  · cases ha
    exact h a
  · cases ha

end Recognition

/-! ## §2 What each recognizer gives -/

/-- Evidence with neither a `reduction` nor a depth to `collapse`. -/
def PatternEvidence.IsPlain (e : PatternEvidence) : Prop := e.reduction = none ∧ e.collapse = none

namespace Recognize

open Recognition

variable (s : Scene)

theorem simpleParallel_plain : Yields PatternEvidence.IsPlain (simpleParallel s) := by
  refine yields_bind fun _ => ?_
  split
  · exact yields_none
  · split
    · exact yields_none
    · exact yields_ite ⟨rfl, rfl⟩

theorem vectorizable_plain : Yields PatternEvidence.IsPlain (vectorizable s) := by
  refine yields_bind fun _ => ?_
  split
  · exact yields_none
  · exact yields_ite ⟨rfl, rfl⟩

theorem embarrassinglyParallel_plain :
    Yields PatternEvidence.IsPlain (embarrassinglyParallel s) := by
  refine yields_bind fun _ => ?_
  split
  · exact yields_none
  · exact yields_ite ⟨rfl, rfl⟩

theorem map_plain : Yields PatternEvidence.IsPlain (map s) := by
  refine yields_bind fun _ => ?_
  split
  · exact yields_none
  · exact yields_ite ⟨rfl, rfl⟩

theorem filter_plain : Yields PatternEvidence.IsPlain (filter s) :=
  yields_bind fun _ => yields_map fun _ _ => ⟨rfl, rfl⟩

theorem stencil_plain : Yields PatternEvidence.IsPlain (stencil s) :=
  yields_bind fun _ => yields_map fun _ _ => ⟨rfl, rfl⟩

/-- `matrixMultiply` asks for a chain of three loops, two of which may be merged. -/
theorem matrixMultiply_merges :
    Yields (fun e => e.reduction = none ∧ e.collapse = some 2 ∧
      3 ≤ s.nesting.perfectChainLength) (matrixMultiply s) :=
  yields_bind fun _ => yields_unless fun hnest => yields_ite ⟨rfl, rfl, Nat.not_lt.mp hnest⟩

/-- `matrixAddition` asks for a nest of two loops, which may be merged. -/
theorem matrixAddition_merges :
    Yields (fun e => e.reduction = none ∧ e.collapse = some 2 ∧ s.nesting.isTwoLevelNest = true)
      (matrixAddition s) := by
  refine yields_bind fun _ => yields_unless fun hnest => ?_
  split
  · exact yields_none
  · exact yields_ite ⟨rfl, rfl, by simpa using hnest⟩

/-- So does `matrixScaling`. -/
theorem matrixScaling_merges :
    Yields (fun e => e.reduction = none ∧ e.collapse = some 2 ∧ s.nesting.isTwoLevelNest = true)
      (matrixScaling s) :=
  yields_bind fun _ => yields_unless fun hnest => yields_ite ⟨rfl, rfl, by simpa using hnest⟩

/-- `convolution2D` merges two loops or none. -/
theorem convolution2D_merges :
    Yields (fun e => e.reduction = none ∧ ∀ depth, e.collapse = some depth → depth = 2)
      (convolution2D s) := by
  refine yields_bind fun _ => yields_bind_ite fun shape => ⟨rfl, ?_⟩
  intro depth hdepth
  dsimp only at hdepth
  split at hdepth
  · exact (Option.some.inj hdepth).symm
  · cases hdepth

/-- `imageProcessing` merges two loops, whatever shape it finds. -/
theorem imageProcessing_merges :
    Yields (fun e => e.reduction = none ∧ ∀ depth, e.collapse = some depth → depth = 2)
      (imageProcessing s) := by
  refine yields_bind fun _ => yields_unless fun _ => yields_bind_ite fun shape => ⟨rfl, ?_⟩
  intro depth hdepth
  exact (Option.some.inj hdepth).symm

end Recognize

/-! ## §3 The reduction that evidence names -/

/-- What the evidence for a pattern says of reductions. Folded values name one of the `accumulators`
of the loop; a running total names one without `soleUse`, an earlier element none; no other pattern
names any. -/
def PatternEvidence.Names (s : Scene) (kind : PatternKind) (e : PatternEvidence) : Prop :=
  match kind with
  | .reduction | .frobeniusNorm | .complexReduction =>
    e.collapse = none ∧
      ∃ acc ∈ s.accumulators, e.reduction = some ⟨acc.variableName, acc.operator⟩
  | .prefixSum =>
    e.collapse = none ∧
      (e.reduction = none ∨
        ∃ acc ∈ s.accumulators, acc.soleUse = false ∧
          e.reduction = some ⟨acc.variableName, acc.operator⟩)
  | _ => e.reduction = none

namespace PatternEvidence.Names

variable {s : Scene} {kind : PatternKind} {e : PatternEvidence}

/-- Evidence that `Names` no reduction is not that of a folded value. -/
theorem not_isReductionLike (h : e.Names s kind) (hnone : e.reduction = none) :
    kind.isReductionLike = false := by
  cases kind with
  | reduction | frobeniusNorm | complexReduction =>
    obtain ⟨-, acc, -, hsome⟩ := h
    rw [hnone] at hsome
    cases hsome
  | _ => rfl

/-- Evidence with a reduction is that of a folded value or of a running total, and `Names` one of
the `accumulators`. -/
theorem accumulator (h : e.Names s kind) {info : ReductionInfo} (hsome : e.reduction = some info) :
    e.collapse = none ∧ ∃ acc ∈ s.accumulators, info = ⟨acc.variableName, acc.operator⟩ ∧
      (kind.isReductionLike = true ∨ kind = .prefixSum ∧ acc.soleUse = false) := by
  cases kind with
  | reduction | frobeniusNorm | complexReduction =>
    obtain ⟨hcollapse, acc, hacc, hinfo⟩ := h
    rw [hsome] at hinfo
    exact ⟨hcollapse, acc, hacc, Option.some.inj hinfo, .inl rfl⟩
  -- An earlier element names no reduction, so this is a running total.
  | prefixSum =>
    obtain ⟨hcollapse, hnone | ⟨acc, hacc, hshared, hinfo⟩⟩ := h
    · rw [hsome] at hnone
      cases hnone
    · rw [hsome] at hinfo
      exact ⟨hcollapse, acc, hacc, Option.some.inj hinfo, .inr ⟨rfl, hshared⟩⟩
  | _ =>
    rw [show e.reduction = none from h] at hsome
    cases hsome

end PatternEvidence.Names

section Recognizers

open Recognition

variable (s : Scene)

theorem reduction_names : Yields (·.Names s .reduction) (Recognize.reduction s) := by
  refine yields_bind fun _ => yields_map fun acc hacc => ⟨rfl, acc, ?_, rfl⟩
  -- The first sum or product, or else the first accumulator of all.
  rcases Option.or_eq_some_iff.mp hacc with h | ⟨-, h⟩
  · exact List.mem_of_find?_eq_some h
  · exact List.mem_of_head? h

theorem frobeniusNorm_names : Yields (·.Names s .frobeniusNorm) (Recognize.frobeniusNorm s) :=
  yields_bind fun _ => yields_map fun acc hacc => ⟨rfl, acc, List.mem_of_find?_eq_some hacc, rfl⟩

theorem complexReduction_names :
    Yields (·.Names s .complexReduction) (Recognize.complexReduction s) :=
  yields_bind fun _ => yields_map fun acc hacc => ⟨rfl, acc, List.mem_of_find?_eq_some hacc, rfl⟩

/-- `previousElement?` finds evidence without a reduction. -/
theorem previousElement?_names {e : PatternEvidence} (h : Recognize.previousElement? s = some e) :
    e.Names s .prefixSum := by
  -- Some store and some read of its array gave the evidence, which has no reduction.
  obtain ⟨write, -, hwrite⟩ := List.exists_of_findSome?_eq_some h
  simp only [bind, Option.bind_eq_some_iff] at hwrite
  obtain ⟨value, -, hread⟩ := hwrite
  obtain ⟨read, -, hread⟩ := List.exists_of_findSome?_eq_some hread
  obtain ⟨loaded, -, hloaded⟩ := Option.bind_eq_some_iff.mp hread
  split at hloaded
  · cases hloaded
    exact ⟨rfl, .inl rfl⟩
  · cases hloaded

theorem prefixSum_names : Yields (·.Names s .prefixSum) (Recognize.prefixSum s) := by
  refine yields_bind fun _ => ?_
  split
  · next evidence h =>
    -- An earlier element of the array is looked for first.
    refine yields_pure fun e he => ?_
    cases he
    exact previousElement?_names s h
  · -- Otherwise it is a total that a store in the loop keeps.
    refine yields_map fun acc hacc => ⟨rfl, .inr ⟨acc, List.mem_of_find?_eq_some hacc, ?_, rfl⟩⟩
    have hstores := List.find?_some hacc
    rw [Recognize.storesRunningTotal, Bool.and_eq_true, Bool.not_eq_true'] at hstores
    exact hstores.1

/-- Every recognizer of `standard` gives evidence that `Names` the reductions its pattern calls for.
-/
theorem names_of_mem_standard {r : Recognizer} (hr : r ∈ Recognizer.standard) :
    Yields (·.Names s r.kind) (r.recognize s) := by
  simp only [Recognizer.standard, List.mem_cons, List.not_mem_nil, or_false] at hr
  -- The recognizers in their standard order; the plain and the merging ones have no reduction at
  -- all.
  rcases hr with rfl | rfl | rfl | rfl | rfl | rfl | rfl | rfl | rfl | rfl | rfl | rfl | rfl | rfl |
    rfl
  · exact (Recognize.simpleParallel_plain s).mono fun _ h => h.1
  · exact reduction_names s
  · exact (Recognize.vectorizable_plain s).mono fun _ h => h.1
  · exact (Recognize.embarrassinglyParallel_plain s).mono fun _ h => h.1
  · exact (Recognize.map_plain s).mono fun _ h => h.1
  · exact (Recognize.filter_plain s).mono fun _ h => h.1
  · exact prefixSum_names s
  · exact (Recognize.stencil_plain s).mono fun _ h => h.1
  · exact (Recognize.matrixMultiply_merges s).mono fun _ h => h.1
  · exact (Recognize.matrixAddition_merges s).mono fun _ h => h.1
  · exact (Recognize.matrixScaling_merges s).mono fun _ h => h.1
  · exact frobeniusNorm_names s
  · exact (Recognize.convolution2D_merges s).mono fun _ h => h.1
  · exact (Recognize.imageProcessing_merges s).mono fun _ h => h.1
  · exact complexReduction_names s

end Recognizers

/-! ## §4 Labels -/

namespace Matcher

/-- `ofPolicy` takes its recognizers from `standard`. -/
theorem mem_standard_of_mem_ofPolicy {policy : PatternPolicy} {r : Recognizer}
    (h : r ∈ (ofPolicy policy).recognizers) : r ∈ Recognizer.standard := by
  obtain ⟨kind, -, hget⟩ := List.mem_filterMap.mp h
  exact List.mem_of_find?_eq_some hget

/-- What holds of all evidence of the `standard` recognizers, and of a loop without a label, holds
of what `classify` gives for every loop. -/
theorem classify_induction {P : PatternKind → PatternEvidence → Prop} (policy : PatternPolicy)
    (s : Scene) (hunknown : ∀ reason, P .unknown { summary := reason })
    (hstandard : ∀ r ∈ Recognizer.standard, Recognition.Yields (P r.kind) (r.recognize s)) :
    P ((ofPolicy policy).classify s).kind ((ofPolicy policy).classify s).evidence := by
  unfold classify
  cases hfind : (ofPolicy policy).recognizers.findSome? fun r =>
      (evidence? s r).map (PatternClassification.mk r.kind) with
  | none => exact hunknown _
  | some c =>
    -- The label is that of the first recognizer with evidence, which is one of the standard ones.
    obtain ⟨r, hr, hc⟩ := List.exists_of_findSome?_eq_some hfind
    obtain ⟨e, he, rfl⟩ := Option.map_eq_some_iff.mp hc
    have hrecognize : r.recognize s = .ok (some e) := by
      unfold evidence? at he
      split at he
      · next found hfound => rw [hfound, he]
      · cases he
    exact hstandard r (mem_standard_of_mem_ofPolicy hr) e hrecognize

/-- **The evidence for a label `Names` what its pattern calls for**, whatever the policy: an
accumulator of the loop where the label is that of a folded value, and no reduction where it is
neither that nor a running total. -/
theorem classify_names (policy : PatternPolicy) (s : Scene) :
    ((ofPolicy policy).classify s).evidence.Names s ((ofPolicy policy).classify s).kind :=
  classify_induction policy s (fun _ => rfl) fun _ hr => names_of_mem_standard s hr

end Matcher

end LoopAnalysis
