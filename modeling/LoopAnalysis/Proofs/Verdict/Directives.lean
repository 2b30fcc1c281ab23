import LoopAnalysis.Profile.Dependence
import LoopAnalysis.Verdict.Suggestion
import LoopAnalysis.Proofs.Text.Occurrence
import Mathlib.Tactic.Common

/-!
# Directives and what guards them

A directive that runs iterations at the same time is harmless to an accumulator if a reduction
clause names the accumulator, or if somebody is told to check first.

## Main definitions

- `Suggestion.isDirective`: a text that runs iterations at the same time;
- `Suggestion.guards`: a text that is marked, or has a reduction clause for a dependence.

## Main statements

- `guards_append`: lead-ins of directives guard nothing;
- `primary_bare`: the primary suggestion of a label without a reduction is a bare directive;
- `suggest_guarded_iff`: when all suggestions for a label are guarded.
-/

namespace LoopAnalysis.Suggestion

variable {d : CarriedDependence} {info : ReductionInfo}

/-! ## §1 Guards -/

/-- Whether a text spreads iterations over threads or over the lanes of a vector. -/
def isDirective (t : String) : Bool :=
  Text.contains t parallelFor || Text.contains t "#pragma omp simd"

/-- The clause that privatizes an accumulator whose running value is read, with `inscan`. -/
def scanClause (info : ReductionInfo) : String :=
  "reduction(inscan, " ++ info.operator.clauseSymbol ++ ":" ++ info.variableName ++ ")"

/-- Whether a text `isMarked` for verification, or has a reduction clause with the operator and the
variable of a dependence. -/
def guards (d : CarriedDependence) (t : String) : Bool :=
  isMarked t || d.operator.any fun op =>
    Text.contains t (reductionClause ⟨d.variableName, op⟩) ||
      Text.contains t (scanClause ⟨d.variableName, op⟩)

/-- The word that `reductionClause` and `scanClause` begin with. -/
def clauseHead : String := "reduction("

theorem reductionClause_eq (info : ReductionInfo) :
    ∃ rest, reductionClause info = clauseHead ++ rest := by
  have hsplit : reductionClause info = clauseHead ++ info.operator.clauseSymbol ++ ":" ++
      info.variableName ++ ")" := rfl
  simp only [String.append_assoc] at hsplit
  exact ⟨_, hsplit⟩

theorem scanClause_eq (info : ReductionInfo) : ∃ rest, scanClause info = clauseHead ++ rest := by
  have hsplit : scanClause info = clauseHead ++ "inscan, " ++ info.operator.clauseSymbol ++ ":" ++
      info.variableName ++ ")" := rfl
  simp only [String.append_assoc] at hsplit
  exact ⟨_, hsplit⟩

/-- A text without a mark and without `clauseHead` guards nothing. -/
theorem guards_eq_false {t : String} (hmark : isMarked t = false)
    (hclause : Text.contains t clauseHead = false) : guards d t = false := by
  have hnone {clause rest : String} (heq : clause = clauseHead ++ rest) :
      Text.contains t clause = false := by
    rw [Bool.eq_false_iff]
    intro h
    rw [heq] at h
    rw [Text.contains_of_contains_append h] at hclause
    cases hclause
  rw [guards, hmark, Bool.false_or]
  cases d.operator with
  | none => rfl
  | some op =>
    obtain ⟨_, hplain⟩ := reductionClause_eq ⟨d.variableName, op⟩
    obtain ⟨_, hscan⟩ := scanClause_eq ⟨d.variableName, op⟩
    simp only [Option.any_some, hnone hplain, hnone hscan, Bool.or_self]

/-- **A lead-in does not guard**: where neither the mark nor a clause can begin in it, a text
`guards` with it exactly what it guards without it. -/
theorem guards_append {lead : String} (t : String)
    (hmark : Text.neverBegins marker.toList lead.toList = true)
    (hclause : Text.neverBegins clauseHead.toList lead.toList = true) :
    guards d (lead ++ t) = guards d t := by
  have hmarked : isMarked (lead ++ t) = isMarked t := by
    simpa only [isMarked, String.append_empty] using Text.contains_append_eq t "" hmark
  have hsame {clause rest : String} (heq : clause = clauseHead ++ rest) :
      Text.contains (lead ++ t) clause = Text.contains t clause := by
    rw [heq]
    exact Text.contains_append_eq t rest hclause
  rw [guards, guards, hmarked]
  cases d.operator with
  | none => rfl
  | some op =>
    obtain ⟨_, hplain⟩ := reductionClause_eq ⟨d.variableName, op⟩
    obtain ⟨_, hscan⟩ := scanClause_eq ⟨d.variableName, op⟩
    simp only [Option.any_some, hsame hplain, hsame hscan]

/-- The `reductionClause` of a dependence guards it. -/
theorem guards_of_clause {lead : String} (hoperator : d.operator = some info.operator)
    (hname : d.variableName = info.variableName) :
    guards d (lead ++ reductionClause info) = true := by
  have hself : Text.contains (lead ++ reductionClause info) (reductionClause info) = true :=
    Text.contains_append_right _ _
  simp [guards, hoperator, hname, hself]

/-! ## §2 The suggestions for a label -/

/-- The `primary` suggestion without a reduction is a directive that guards nothing, unless the
label is that of a folded value or of a prefix. -/
theorem primary_bare {kind : PatternKind} (hscan : kind ≠ .prefixSum)
    (hfold : kind.isReductionLike = false) :
    isDirective (primary kind none) = true ∧ guards d (primary kind none) = false := by
  -- One evaluation for all kinds: many share a text.
  have htexts : ∀ k ∈ PatternKind.all, k ≠ .prefixSum → k.isReductionLike = false →
      isDirective (primary k none) = true ∧ isMarked (primary k none) = false ∧
        Text.contains (primary k none) clauseHead = false := by
    decide +kernel
  have hmem : kind ∈ PatternKind.all := by cases kind <;> decide
  obtain ⟨hdirective, hmark, hclause⟩ := htexts kind hmem hscan hfold
  exact ⟨hdirective, guards_eq_false hmark hclause⟩

/-- The `primary` suggestion for a folded value ends in its `reductionClause`. -/
theorem primary_of_isReductionLike {kind : PatternKind} (hfold : kind.isReductionLike = true) :
    primary kind (some info) = (parallelFor ++ " ") ++ reductionClause info := by
  cases kind with
  | reduction => rfl
  | frobeniusNorm => rfl
  | complexReduction => rfl
  | _ => cases hfold

/-- The `primary` suggestion for any other label but that of a running total does not look at the
reduction. -/
theorem primary_of_plain {kind : PatternKind} (hscan : kind ≠ .prefixSum)
    (hfold : kind.isReductionLike = false) : primary kind (some info) = primary kind none := by
  cases kind with
  | prefixSum => exact absurd rfl hscan
  | reduction | frobeniusNorm | complexReduction => cases hfold
  | _ => rfl

/-- The `primary` suggestion for a folded value or a running total is a directive. -/
theorem isDirective_primary {kind : PatternKind}
    (hkind : kind.isReductionLike = true ∨ kind = .prefixSum) :
    isDirective (primary kind (some info)) = true := by
  rw [isDirective, Bool.or_eq_true]
  refine .inl ?_
  rcases hkind with hfold | rfl
  · rw [primary_of_isReductionLike hfold, String.append_assoc]
    exact Text.contains_append_left _ _
  · have hsplit : primary .prefixSum (some info) =
        parallelFor ++ " reduction(inscan, " ++ info.operator.clauseSymbol ++ ":" ++
          info.variableName ++ ")\n// Separate update and use with #pragma omp scan inclusive(" ++
          info.variableName ++ ")" := rfl
    simp only [String.append_assoc] at hsplit
    rw [hsplit]
    exact Text.contains_append_left _ _

/-- Without a reduction, the `primary` suggestion for a prefix is none to run anything at the same
time. -/
theorem isDirective_primary_sequential : isDirective (primary .prefixSum none) = false := by
  decide +kernel

/-! ## §3 All suggestions -/

variable {c : PatternClassification} {v : VectorizationVerdict}

/-- The text of a `simdDirective` for a width. -/
def simdText (width : Nat) (reduction : Option ReductionInfo) : String :=
  "#pragma omp simd simdlen(" ++ toString width ++ ")" ++
    match reduction with
    | some info => " " ++ reductionClause info
    | none => ""

/-- What `simdText` gives begins with the name of its directive. -/
theorem simdText_eq (width : Nat) (reduction : Option ReductionInfo) :
    ∃ rest, simdText width reduction = "#pragma omp simd" ++ rest := by
  have hlead : "#pragma omp simd simdlen(" = "#pragma omp simd" ++ " simdlen(" := by decide +kernel
  unfold simdText
  rw [hlead]
  simp only [String.append_assoc]
  exact ⟨_, rfl⟩

theorem simdDirective_eq (first : String) :
    simdDirective first c v =
      if v.vectorizable && !Text.contains first "simd" then
        [simdText v.recommendedWidth c.evidence.reduction] else [] := rfl

theorem simdText_bare :
    isDirective (simdText 4 none) = true ∧ guards d (simdText 4 none) = false := by
  have htext : isDirective (simdText 4 none) = true ∧ isMarked (simdText 4 none) = false ∧
      Text.contains (simdText 4 none) clauseHead = false := by
    decide +kernel
  exact ⟨htext.1, guards_eq_false htext.2.1 htext.2.2⟩

/-- What guards a directive for threads guards `simdText`: both end in the same clause. -/
theorem guards_simdText {kind : PatternKind} (hfold : kind.isReductionLike = true) :
    guards d (simdText 4 (some info)) = guards d (primary kind (some info)) := by
  have hthreads : guards d ((parallelFor ++ " ") ++ reductionClause info) =
      guards d (reductionClause info) :=
    guards_append _ (by decide +kernel) (by decide +kernel)
  have hlanes : guards d (("#pragma omp simd simdlen(" ++ toString 4 ++ ")" ++ " ") ++
      reductionClause info) = guards d (reductionClause info) :=
    guards_append _ (by decide +kernel) (by decide +kernel)
  have hsplit : simdText 4 (some info) =
      ("#pragma omp simd simdlen(" ++ toString 4 ++ ")" ++ " ") ++ reductionClause info :=
    String.append_assoc.symm
  rw [primary_of_isReductionLike hfold, hthreads, hsplit, hlanes]

/-- The suggestions for a label cover a dependence: the evidence names a reduction and the `primary`
suggestion for it guards the dependence, or the label is a prefix that is left alone. -/
def Covers (c : PatternClassification) (v : VectorizationVerdict) (d : CarriedDependence) : Prop :=
  match c.evidence.reduction with
  | some info => guards d (primary c.kind (some info)) = true
  | none => c.kind = .prefixSum ∧ v.vectorizable = false

/-- Without a reduction, what `suggest` gives is guarded only where it runs nothing at the same
time. -/
theorem suggest_guarded_iff_of_none (hnone : c.evidence.reduction = none)
    (hfold : c.kind.isReductionLike = false)
    (hwidth : v.vectorizable = true → v.recommendedWidth = 4) :
    (∀ t ∈ suggest c v, isDirective t = true → guards d t = true) ↔
      c.kind = .prefixSum ∧ v.vectorizable = false := by
  constructor
  · intro h
    -- The primary suggestion of any other label is bare, and so is a directive for vectors.
    have hkind : c.kind = .prefixSum := by
      by_contra hother
      obtain ⟨hdirective, hbare⟩ := primary_bare (d := d) hother hfold
      rw [h _ (by simp [suggest, hnone]) hdirective] at hbare
      cases hbare
    refine ⟨hkind, Bool.eq_false_iff.mpr fun hv => ?_⟩
    have hplain : Text.contains (primary .prefixSum none) "simd" = false := by decide +kernel
    obtain ⟨hdirective, hbare⟩ := simdText_bare (d := d)
    have hmem : simdText 4 none ∈ suggest c v := by
      simp [suggest, simdDirective_eq, hkind, hnone, hv, hplain, hwidth hv]
    rw [h _ hmem hdirective] at hbare
    cases hbare
  · -- A prefix that is left alone has its primary suggestion and no other.
    rintro ⟨hkind, hv⟩ t ht hdirective
    have hcollapse : collapseDirective (primary .prefixSum none) c = [] := by
      unfold collapseDirective
      split
      · simp [hkind, PatternKind.isParallelShape]
      · rfl
    rw [suggest, hkind, hnone, hcollapse, simdDirective_eq, hv, Bool.false_and,
      if_neg Bool.false_ne_true, List.append_nil, List.mem_singleton] at ht
    rw [ht, isDirective_primary_sequential] at hdirective
    cases hdirective

/-- With a reduction, what `suggest` gives is guarded where the `primary` suggestion is. -/
theorem suggest_guarded_iff_of_some (hsome : c.evidence.reduction = some info)
    (hcollapse : c.evidence.collapse = none)
    (hkind : c.kind.isReductionLike = true ∨ c.kind = .prefixSum ∧ v.vectorizable = false)
    (hwidth : v.vectorizable = true → v.recommendedWidth = 4) :
    (∀ t ∈ suggest c v, isDirective t = true → guards d t = true) ↔
      guards d (primary c.kind (some info)) = true := by
  -- Nothing is merged, so there are the primary suggestion and at most one directive for vectors.
  have hmem {t : String} : t ∈ suggest c v ↔
      t = primary c.kind (some info) ∨
        v.vectorizable = true ∧ Text.contains (primary c.kind (some info)) "simd" = false ∧
          t = simdText v.recommendedWidth (some info) := by
    rw [suggest, collapseDirective, hcollapse, hsome, simdDirective_eq, hsome]
    simp only [List.mem_append, List.mem_singleton, List.mem_ite_nil_right, Bool.and_eq_true,
      Bool.not_eq_true', and_assoc]
  constructor
  · intro h
    exact h _ (hmem.mpr (.inl rfl)) (isDirective_primary (hkind.imp_right And.left))
  · intro h t ht _
    rcases hmem.mp ht with rfl | ⟨hv, -, rfl⟩
    · exact h
    -- The directive for vectors ends in the clause of the primary one.
    · rcases hkind with hfold | ⟨-, hscalar⟩
      · rw [hwidth hv, guards_simdText hfold]
        exact h
      · rw [hv] at hscalar
        cases hscalar

end LoopAnalysis.Suggestion
