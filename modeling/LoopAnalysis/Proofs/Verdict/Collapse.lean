import LoopAnalysis.Proofs.Pattern.Evidence
import LoopAnalysis.Proofs.Verdict.Caution
import LoopAnalysis.Proofs.Verdict.Privatization

/-!
# Clauses that merge loops

A directive may merge as many levels of a nest as form a chain of single loops. The recognizers of
matrices look for such a chain. Those of convolutions and images do not, yet the suggestion for
their labels always merges two loops.

## Main definitions

- `Suggestion.collapseClause`: the clause that merges a number of loops;
- `PatternEvidence.Spans`: what the evidence for a pattern says of nests.

## Main statements

- `Matcher.classify_spans`: what the evidence for a label says of nests, under every policy;
- `Suggestion.clause_of_mem_suggest`: where a clause in a suggestion comes from;
- `Analyzer.collapse_covered_iff`: when all clauses for a loop are covered by its nest.
-/

namespace LoopAnalysis

/-! ## §1 Nests of labels -/

theorem NestPosition.two_le_perfectChainLength {p : NestPosition} (h : p.isTwoLevelNest = true) :
    2 ≤ p.perfectChainLength := by
  simp only [isTwoLevelNest, Bool.or_eq_true, Bool.and_eq_true, beq_iff_eq] at h
  unfold perfectChainLength
  omega

/-- What the evidence for a pattern says of nests. Matrices stand for a `perfectChainLength` of two
or more; convolutions and images merge two loops, if any; no other pattern merges loops. -/
def PatternEvidence.Spans (s : Scene) (kind : PatternKind) (e : PatternEvidence) : Prop :=
  match kind with
  | .matrixMultiply | .matrixAddition | .matrixScaling =>
    e.collapse = some 2 ∧ 2 ≤ s.nesting.perfectChainLength
  | .convolution2D | .imageProcessing => ∀ depth, e.collapse = some depth → depth = 2
  | _ => e.collapse = none

/-- Whether the `primary` suggestion for a label merges two loops. -/
def Suggestion.mergesTwo : PatternKind → Bool
  | .matrixAddition | .matrixScaling | .convolution2D | .imageProcessing => true
  | _ => false

namespace PatternEvidence.Spans

variable {s : Scene} {kind : PatternKind} {e : PatternEvidence} {depth : Nat}

/-- Evidence that `Spans` loops to merge is evidence for merging two of them. -/
theorem depth_eq_two (h : e.Spans s kind) (hdepth : e.collapse = some depth) : depth = 2 := by
  cases kind with
  | matrixMultiply | matrixAddition | matrixScaling =>
    rw [h.1] at hdepth
    exact (Option.some.inj hdepth).symm
  | convolution2D | imageProcessing => exact h depth hdepth
  | _ =>
    rw [show e.collapse = none from h] at hdepth
    cases hdepth

/-- Where loops are merged there is a chain of two, or the label is that of a neighbourhood. -/
theorem chain_or_neighbourhood (h : e.Spans s kind)
    (hmerges : Suggestion.mergesTwo kind = true ∨ e.collapse.isSome = true) :
    2 ≤ s.nesting.perfectChainLength ∨ kind = .convolution2D ∨ kind = .imageProcessing := by
  cases kind with
  | matrixMultiply | matrixAddition | matrixScaling => exact .inl h.2
  | convolution2D => exact .inr (.inl rfl)
  | imageProcessing => exact .inr (.inr rfl)
  | _ =>
    rw [show e.collapse = none from h] at hmerges
    rcases hmerges with hmerges | hmerges <;> cases hmerges

end PatternEvidence.Spans

/-- Every recognizer of `standard` gives evidence that `Spans` what its pattern calls for. -/
theorem spans_of_mem_standard (s : Scene) {r : Recognizer} (hr : r ∈ Recognizer.standard) :
    Recognition.Yields (·.Spans s r.kind) (r.recognize s) := by
  simp only [Recognizer.standard, List.mem_cons, List.not_mem_nil, or_false] at hr
  -- The recognizers in their standard order; only those of matrices, convolutions and images merge.
  rcases hr with rfl | rfl | rfl | rfl | rfl | rfl | rfl | rfl | rfl | rfl | rfl | rfl | rfl | rfl |
    rfl
  · exact (Recognize.simpleParallel_plain s).mono fun _ h => h.2
  · exact (reduction_names s).mono fun _ h => h.1
  · exact (Recognize.vectorizable_plain s).mono fun _ h => h.2
  · exact (Recognize.embarrassinglyParallel_plain s).mono fun _ h => h.2
  · exact (Recognize.map_plain s).mono fun _ h => h.2
  · exact (Recognize.filter_plain s).mono fun _ h => h.2
  · exact (prefixSum_names s).mono fun _ h => h.1
  · exact (Recognize.stencil_plain s).mono fun _ h => h.2
  · exact (Recognize.matrixMultiply_merges s).mono fun _ h => ⟨h.2.1, by have := h.2.2; omega⟩
  · exact (Recognize.matrixAddition_merges s).mono fun _ h =>
      ⟨h.2.1, NestPosition.two_le_perfectChainLength h.2.2⟩
  · exact (Recognize.matrixScaling_merges s).mono fun _ h =>
      ⟨h.2.1, NestPosition.two_le_perfectChainLength h.2.2⟩
  · exact (frobeniusNorm_names s).mono fun _ h => h.1
  · exact (Recognize.convolution2D_merges s).mono fun _ h => h.2
  · exact (Recognize.imageProcessing_merges s).mono fun _ h => h.2
  · exact (complexReduction_names s).mono fun _ h => h.1

/-- The evidence for a label `Spans` what its pattern calls for, under every policy. -/
theorem Matcher.classify_spans (policy : PatternPolicy) (s : Scene) :
    ((ofPolicy policy).classify s).evidence.Spans s ((ofPolicy policy).classify s).kind :=
  classify_induction policy s (fun _ => rfl) fun _ hr => spans_of_mem_standard s hr

/-! ## §2 Clauses -/

namespace Suggestion

/-- The word that every `collapseClause` begins with. -/
def collapseHead : String := "collapse("

/-- The clause that merges a number of loops. -/
def collapseClause (depth : Nat) : String := collapseHead ++ toString depth ++ ")"

variable {depth : Nat} {t : String}

theorem collapseClause_eq (depth : Nat) :
    collapseClause depth = collapseHead ++ (toString depth ++ ")") :=
  String.append_assoc

theorem contains_collapseHead (h : Text.contains t (collapseClause depth) = true) :
    Text.contains t collapseHead = true := by
  rw [collapseClause_eq] at h
  exact Text.contains_of_contains_append h

theorem contains_eq_false (h : Text.contains t collapseHead = false) :
    Text.contains t (collapseClause depth) = false := by
  rw [Bool.eq_false_iff]
  intro hclause
  rw [contains_collapseHead hclause] at h
  cases h

/-- A `collapseClause` is made of the letters of the word, digits and brackets. -/
theorem mem_collapseClause {c : Char} (h : c ∈ (collapseClause depth).toList) :
    c ∈ "collapse()".toList ∨ c.isDigit = true := by
  rw [collapseClause, String.toList_append, String.toList_append, List.mem_append,
    List.mem_append] at h
  have hletters : collapseHead.toList ++ ")".toList ⊆ "collapse()".toList := by decide
  rcases h with (hhead | hdigits) | hclose
  · exact .inl (hletters (List.mem_append_left _ hhead))
  · rw [Nat.toString_eq_repr, Nat.toList_repr] at hdigits
    exact .inr (Nat.isDigit_of_mem_toDigits (by decide) (by decide) hdigits)
  · exact .inl (hletters (List.mem_append_right _ hclose))

/-- No blank and no line break is in a `collapseClause`. -/
theorem notMem_collapseClause {c : Char} (hc : c = ' ' ∨ c = '\n') :
    c ∉ (collapseClause depth).toList := by
  intro h
  rcases hc with rfl | rfl
  · rcases mem_collapseClause h with hletter | hdigit
    · exact absurd hletter (by decide)
    · exact absurd hdigit (by decide)
  · rcases mem_collapseClause h with hletter | hdigit
    · exact absurd hletter (by decide)
    · exact absurd hdigit (by decide)

/-- The `collapseClause` for two loops contains no other: there is room for one digit. -/
theorem depth_of_contains_two (h : Text.contains (collapseClause 2) (collapseClause depth) = true) :
    depth = 2 := by
  have hinside := Text.contains_iff.mp h
  have hpos : 0 < (toString depth).toList.length := by
    rw [Nat.toString_eq_repr, Nat.toList_repr]
    exact Nat.length_toDigits_pos
  have hlength : (collapseClause depth).toList.length = (collapseClause 2).toList.length := by
    have hle := hinside.length_le
    simp only [collapseClause, collapseHead, String.toList_append, List.length_append] at hle ⊢
    have htwo : (toString 2).toList.length = 1 := by decide
    omega
  have heq : collapseClause depth = collapseClause 2 :=
    String.toList_injective (hinside.eq_of_length hlength)
  rw [collapseClause, collapseClause, String.append_left_inj, String.append_right_inj] at heq
  exact Text.toString_injective heq

/-- What the `primary` suggestion for a running total says between the two places of its variable.
-/
def scanNote : String := "\n// Separate update and use with #pragma omp scan inclusive("

/-- The operators of reductions. -/
def operators : List ReductionOperator := [.sum, .product, .min, .max, .bitAnd, .bitOr, .bitXor]

theorem mem_operators (op : ReductionOperator) : op ∈ operators := by cases op <;> decide

/-- The beginnings of directives and of parts of them, up to where the text varies. -/
def leadIns : List String :=
  [parallelFor ++ " ", parallelFor ++ " reduction(inscan, ", "#pragma omp simd simdlen(",
    " ", "reduction(", scanNote] ++ operators.map (·.clauseSymbol ++ ":")

/-- The ends of directives, and the `primary` suggestions that do not vary and merge no loops. -/
def plainTexts : List String :=
  ["", "\n#pragma omp simd", "\n" ++ boundaryNote, " " ++ marker] ++
    (PatternKind.all.filter fun kind => !mergesTwo kind).map (primary · none)

-- All closed texts are looked through at once: each evaluation in the kernel would wait for the
-- one before it.
theorem texts_free :
    (∀ lead ∈ leadIns, Text.neverBegins collapseHead.toList lead.toList = true) ∧
      ∀ t ∈ plainTexts, Text.contains t collapseHead = false := by
  decide +kernel

/-- A lead-in of `leadIns` makes no difference: no clause can begin in it. -/
theorem contains_lead {lead : String} (t : String) (h : lead ∈ leadIns) :
    Text.contains (lead ++ t) (collapseClause depth) =
      Text.contains t (collapseClause depth) := by
  rw [collapseClause_eq]
  exact Text.contains_append_eq t _ (texts_free.1 lead h)

theorem contains_plain (h : t ∈ plainTexts) : Text.contains t (collapseClause depth) = false :=
  contains_eq_false (texts_free.2 t h)

/-- Whether a text is empty or begins with a blank or a line break. -/
def opensWithBreak (t : String) : Bool := t.toList.head?.all fun c => c == ' ' || c == '\n'

/-- A `collapseClause` does not go on behind a blank or a line break. -/
theorem contains_break {tail : String} (t : String) (h : opensWithBreak tail = true) :
    Text.contains (t ++ tail) (collapseClause depth) =
      (Text.contains t (collapseClause depth) || Text.contains tail (collapseClause depth)) :=
  Text.contains_append_of_foreign fun c hc =>
    notMem_collapseClause (by simpa using (Option.all_eq_true _ _).mp h c hc)

/-- The `mark` makes no difference to clauses. -/
theorem contains_mark :
    Text.contains (mark t) (collapseClause depth) = Text.contains t (collapseClause depth) := by
  unfold mark
  split
  · rfl
  · have hmarker : " " ++ marker ∈ plainTexts := by simp [plainTexts]
    rw [String.append_assoc, contains_break _ (by decide), contains_plain hmarker, Bool.or_false]

/-! ## §3 Texts with and without a clause -/

variable {info : ReductionInfo} {reduction : Option ReductionInfo} {kind : PatternKind}

/-- A directive with the `collapseClause` for two loops has that clause only. -/
theorem contains_merged (tail : String) (hplain : tail ∈ plainTexts)
    (hbreak : opensWithBreak tail = true) :
    Text.contains ((parallelFor ++ " ") ++ (collapseClause 2 ++ tail)) (collapseClause depth) =
      true ↔ depth = 2 := by
  rw [contains_lead _ (by simp [leadIns]), contains_break _ hbreak, contains_plain hplain,
    Bool.or_false]
  constructor
  · exact depth_of_contains_two
  · rintro rfl
    exact Text.contains_iff.mpr (List.infix_refl _)

/-- Whether the name of a variable, with the bracket that closes behind it, brings in a clause. -/
def namesClause (depth : Nat) (info : ReductionInfo) : Bool :=
  Text.contains (info.variableName ++ ")") (collapseClause depth)

theorem contains_operator (op : ReductionOperator) (t : String) :
    Text.contains (op.clauseSymbol ++ ":" ++ t) (collapseClause depth) =
      Text.contains t (collapseClause depth) :=
  contains_lead t (List.mem_append_right _ (List.mem_map_of_mem (mem_operators op)))

theorem contains_reductionClause :
    Text.contains (reductionClause info) (collapseClause depth) = namesClause depth info := by
  have hsplit : reductionClause info =
      "reduction(" ++ (info.operator.clauseSymbol ++ ":" ++ (info.variableName ++ ")")) := by
    simp only [reductionClause, String.append_assoc]
  rw [hsplit, contains_lead _ (by simp [leadIns]), contains_operator]
  rfl

theorem contains_primary_prefixSum :
    Text.contains (primary .prefixSum (some info)) (collapseClause depth) =
      namesClause depth info := by
  have hsplit : primary .prefixSum (some info) =
      parallelFor ++ " reduction(inscan, " ++ info.operator.clauseSymbol ++ ":" ++
        info.variableName ++ (")" ++ scanNote) ++ info.variableName ++ ")" := rfl
  -- The variable stands before the note and behind it, each time with a bracket.
  have hjoin : primary .prefixSum (some info) =
      (parallelFor ++ " reduction(inscan, ") ++ (info.operator.clauseSymbol ++ ":" ++
        ((info.variableName ++ ")") ++ (scanNote ++ (info.variableName ++ ")")))) := by
    rw [hsplit]
    simp only [String.append_assoc]
  have hnote : scanNote ∈ leadIns := by simp [leadIns]
  rw [hjoin, contains_lead _ (by simp [leadIns]), contains_operator, contains_break,
    contains_lead _ hnote, Bool.or_self]
  · rfl
  · simp [opensWithBreak, scanNote]

/-- The `primary` suggestion for a folded value or a running total has a clause only if the name of
the variable brings it in. -/
theorem contains_primary_some (hkind : kind.isReductionLike = true ∨ kind = .prefixSum) :
    Text.contains (primary kind (some info)) (collapseClause depth) = namesClause depth info := by
  rcases hkind with hfold | rfl
  · rw [primary_of_isReductionLike hfold, contains_lead _ (by simp [leadIns]),
      contains_reductionClause]
  · exact contains_primary_prefixSum

/-- Without a reduction, the `primary` suggestion for a label that does not merge loops has no
clause. -/
theorem contains_primary_none (hkind : mergesTwo kind = false) :
    Text.contains (primary kind none) (collapseClause depth) = false := by
  have hall : kind ∈ PatternKind.all := by cases kind <;> decide
  apply contains_plain
  apply List.mem_append_right
  exact List.mem_map.mpr ⟨kind, List.mem_filter.mpr ⟨hall, by simp [hkind]⟩, rfl⟩

/-- The `primary` suggestion for a label that `mergesTwo` loops has the clause for two and no other.
-/
theorem contains_primary_of_mergesTwo (hkind : mergesTwo kind = true) :
    Text.contains (primary kind reduction) (collapseClause depth) = true ↔ depth = 2 := by
  cases kind with
  | matrixAddition | matrixScaling =>
    exact contains_merged "\n#pragma omp simd" (by simp [plainTexts]) (by decide)
  | convolution2D => exact contains_merged "" (by simp [plainTexts]) (by decide)
  | imageProcessing =>
    exact contains_merged ("\n" ++ boundaryNote) (by simp [plainTexts]) (by decide)
  | _ => cases hkind

/-- A directive for vectors, `simdText`, has a clause only if the name of a variable brings it in.
-/
theorem contains_simdText (width : Nat) :
    Text.contains (simdText width reduction) (collapseClause depth) =
      reduction.any (namesClause depth) := by
  -- The digits of the width have no letter in them.
  have hdigits : Text.contains (toString width ++ ")") collapseHead = false := by
    have hletter : 'c' ∈ collapseHead.toList := by decide
    apply Text.contains_eq_false_of_notMem hletter
    intro h
    rw [Nat.toString_eq_repr, String.toList_append, Nat.toList_repr, List.mem_append] at h
    rcases h with hdigit | hclose
    · exact absurd (Nat.isDigit_of_mem_toDigits (by decide) (by decide) hdigit) (by decide)
    · exact absurd hclose (by decide)
  unfold simdText
  rw [String.append_assoc, String.append_assoc, contains_lead _ (by simp [leadIns]),
    ← String.append_assoc]
  cases reduction with
  | none =>
    dsimp only
    rw [String.append_empty, contains_eq_false hdigits]
    rfl
  | some info =>
    dsimp only
    have hblank : opensWithBreak (" " ++ reductionClause info) = true := by simp [opensWithBreak]
    rw [contains_break _ hblank, contains_eq_false hdigits, Bool.false_or,
      contains_lead _ (by simp [leadIns]), contains_reductionClause]
    rfl

/-! ## §4 Suggestions -/

variable {c : PatternClassification} {v : VectorizationVerdict} {s : Scene}

/-- The `collapseDirective` for a nest has the clause for two loops and no other. -/
theorem depth_of_mem_collapseDirective {first : String} (hspans : c.evidence.Spans s c.kind)
    (ht : t ∈ collapseDirective first c)
    (hclause : Text.contains t (collapseClause depth) = true) :
    depth = 2 ∧ c.evidence.collapse.isSome = true := by
  unfold collapseDirective at ht
  split at ht
  · next evident hevident =>
    obtain rfl := hspans.depth_eq_two hevident
    split at ht
    · rw [List.mem_singleton.mp ht] at hclause
      exact ⟨(contains_merged "" (by simp [plainTexts]) (by decide)).mp hclause,
        by rw [hevident]; rfl⟩
    · cases ht
  · cases ht

/-- **Where a clause in a suggestion comes from**: `namesClause` says that the name of a variable
brings it in, or it merges two loops. In that case the label comes from a chain of two, or is that
of a convolution or of an image. -/
theorem clause_of_mem_suggest (hspans : c.evidence.Spans s c.kind)
    (hnames : c.evidence.Names s c.kind) (ht : t ∈ suggest c v)
    (hclause : Text.contains t (collapseClause depth) = true) :
    (∃ info, c.evidence.reduction = some info ∧ namesClause depth info = true) ∨
      depth = 2 ∧ (2 ≤ s.nesting.perfectChainLength ∨ c.kind = .convolution2D ∨
        c.kind = .imageProcessing) := by
  simp only [suggest, List.cons_append, List.mem_cons, List.mem_append, simdDirective_eq] at ht
  -- The primary suggestion, the directive for a nest, and the one for vectors.
  rcases ht with rfl | hnest | hsimd
  · cases hmerges : mergesTwo c.kind with
    | true =>
      have hdepth := (contains_primary_of_mergesTwo hmerges).mp hclause
      exact .inr ⟨hdepth, hspans.chain_or_neighbourhood (.inl hmerges)⟩
    | false =>
      cases hreduction : c.evidence.reduction with
      | none =>
        rw [hreduction, contains_primary_none hmerges] at hclause
        cases hclause
      | some info =>
        obtain ⟨-, acc, -, -, hkind⟩ := hnames.accumulator hreduction
        rw [hreduction, contains_primary_some (hkind.imp id And.left)] at hclause
        exact .inl ⟨info, rfl, hclause⟩
  · obtain ⟨hdepth, hevident⟩ := depth_of_mem_collapseDirective hspans hnest hclause
    exact .inr ⟨hdepth, hspans.chain_or_neighbourhood (.inr hevident)⟩
  · split at hsimd
    · rw [List.mem_singleton.mp hsimd, contains_simdText, Option.any_eq_true] at hclause
      exact .inl hclause
    · cases hsimd

/-- When all clauses in what `suggest` gives are covered. -/
theorem suggest_covered_iff (v : VectorizationVerdict) (hspans : c.evidence.Spans s c.kind)
    (hnames : c.evidence.Names s c.kind) :
    (∀ t ∈ suggest c v, ∀ depth, Text.contains t (collapseClause depth) = true →
      depth ≤ s.nesting.perfectChainLength) ↔
      (c.kind = .convolution2D ∨ c.kind = .imageProcessing →
        2 ≤ s.nesting.perfectChainLength) ∧
      ∀ info, c.evidence.reduction = some info → ∀ depth, namesClause depth info = true →
        depth ≤ s.nesting.perfectChainLength := by
  constructor
  · -- The primary suggestion has the clause, whichever of the two brings it in.
    intro hcovered
    constructor
    · intro hkind
      have hmerges : mergesTwo c.kind = true := by
        rcases hkind with hkind | hkind <;> rw [hkind] <;> rfl
      exact hcovered _ List.mem_cons_self 2 ((contains_primary_of_mergesTwo hmerges).mpr rfl)
    · intro info hinfo depth hclause
      obtain ⟨-, acc, -, -, hkind⟩ := hnames.accumulator hinfo
      apply hcovered _ List.mem_cons_self depth
      rw [hinfo, contains_primary_some (hkind.imp id And.left)]
      exact hclause
  · rintro ⟨hchain, hnamed⟩ t ht depth hclause
    rcases clause_of_mem_suggest hspans hnames ht hclause with
      ⟨info, hinfo, hname⟩ | ⟨rfl, hlong | hkind⟩
    · exact hnamed info hinfo depth hname
    · exact hlong
    · exact hchain hkind

end Suggestion

/-! ## §5 Reports -/

/-- What `mark` makes no difference to holds of all transformations or of none of them, marked or
not. -/
theorem Verdict.forall_mem_annotate {P : String → Prop} (hmark : ∀ t, P (Suggestion.mark t) ↔ P t)
    (verify : Bool) (ts : List String) :
    (∀ t ∈ annotate verify ts, P t) ↔ ∀ t ∈ ts, P t := by
  cases verify with
  | false => rfl
  | true => simp [annotate, hmark]

/-- **When clauses are covered.** Under every policy, every `collapseClause` in the static report on
a loop is covered by the chain of loops that it belongs to, if and only if there is a chain of two
where the label is that of a convolution or of an image, and the name of a variable in a reduction
clause brings in no clause that is not covered. -/
theorem Analyzer.collapse_covered_iff (policy : PatternPolicy) (weights : Weights)
    (signatures : Signatures) (lp : Loop) (report : LoopReport)
    (hreport : report = Analyzer.analyze ⟨.ofPolicy policy, weights, signatures⟩ lp) :
    (∀ t ∈ report.verdict.transformations, ∀ depth,
      Text.contains t (Suggestion.collapseClause depth) = true →
        depth ≤ (NestPosition.of lp).perfectChainLength) ↔
      (report.pattern = .convolution2D ∨ report.pattern = .imageProcessing →
        2 ≤ (NestPosition.of lp).perfectChainLength) ∧
      ∀ info, report.classification.evidence.reduction = some info →
        ∀ depth, Suggestion.namesClause depth info = true →
          depth ≤ (NestPosition.of lp).perfectChainLength := by
  subst hreport
  rw [analyze, transformations_finish]
  -- Marks make no difference, so that it is enough to look at the suggestions.
  rw [Verdict.forall_mem_annotate fun t => by simp only [Suggestion.contains_mark]]
  exact Suggestion.suggest_covered_iff _ (Matcher.classify_spans policy (Scene.of lp))
    (Matcher.classify_names policy (Scene.of lp))

/-- The theorem at the outermost loop of `matmul`: it is offered a clause for two loops, and belongs
to a chain of three. -/
theorem matmul_collapse_covered :
    ∃ lp, matmul.loop? .indexed 0 = some lp ∧
      (∃ t ∈ (Analyzer.analyze ⟨.ofPolicy .standard, .balanced, .builtin⟩
          lp).verdict.transformations,
        Text.contains t (Suggestion.collapseClause 2) = true) ∧
      ∀ t ∈ (Analyzer.analyze ⟨.ofPolicy .standard, .balanced, .builtin⟩
          lp).verdict.transformations,
        ∀ depth, Text.contains t (Suggestion.collapseClause depth) = true →
          depth ≤ (NestPosition.of lp).perfectChainLength := by
  -- One evaluation of the report settles the clause, the evidence and the label.
  have hcheck : ((matmul.loop? .indexed 0).any fun lp =>
      let report := Analyzer.analyze ⟨.ofPolicy .standard, .balanced, .builtin⟩ lp
      report.verdict.transformations.any
          (Text.contains · (Suggestion.collapseClause 2)) &&
        report.classification.evidence.reduction.isNone && report.pattern == .matrixMultiply) =
        true := by
    decide +kernel
  simp only [Option.any_eq_true, Bool.and_eq_true, List.any_eq_true, Option.isNone_iff_eq_none,
    beq_iff_eq] at hcheck
  obtain ⟨lp, hlp, ⟨hclause, hnone⟩, hkind⟩ := hcheck
  refine ⟨lp, hlp, hclause, ?_⟩
  apply (Analyzer.collapse_covered_iff .standard .balanced .builtin lp _ rfl).mpr
  refine ⟨?_, ?_⟩
  · rw [hkind]
    rintro (hother | hother) <;> cases hother
  · intro info hsome
    rw [hnone] at hsome
    cases hsome

/-- `for i: B[i] = 2 * A[i - 1] + A[i] + A[i + 1]`. -/
def smoothing : Function :=
  let b := Builder.start "smoothing"
  let (i, b) := b.openLoop "i" (.symbol "n")
  let (before, b) := b.define (.binary · .sub (.value i.iv) (.int 1))
  let (x, b) := b.loadElement (.symbol "A") [.value before]
  let (y, b) := b.loadElement (.symbol "A") [.value i.iv]
  let (behind, b) := b.define (.binary · .add (.value i.iv) (.int 1))
  let (z, b) := b.loadElement (.symbol "A") [.value behind]
  let (weighted, b) := b.define (.binary · .mul (.value x) (.int 2))
  let (both, b) := b.define (.binary · .add (.value weighted) (.value y))
  let (sum, b) := b.define (.binary · .add (.value both) (.value z))
  let b := b.storeElement (.symbol "B") [.value i.iv] (.value sum)
  ((b.closeLoop i).push (.ret none)).build

/-- **A clause can cover more loops than there are**: the loop of `smoothing`, which stands alone
and weighs the neighbours in a row, is labelled a convolution under the standard policy, and is
offered a directive that merges two loops. -/
theorem smoothing_collapse_uncovered :
    ∃ lp, smoothing.loop? .indexed 0 = some lp ∧ (NestPosition.of lp).perfectChainLength = 1 ∧
      ∃ t ∈ (Analyzer.analyze ⟨.ofPolicy .standard, .balanced, .builtin⟩
          lp).verdict.transformations,
        Suggestion.isDirective t = true ∧
          Text.contains t (Suggestion.collapseClause 2) = true := by
  have hcheck : ((smoothing.loop? .indexed 0).any fun lp =>
      (NestPosition.of lp).perfectChainLength == 1 &&
        (Analyzer.analyze ⟨.ofPolicy .standard, .balanced, .builtin⟩
          lp).verdict.transformations.any fun t =>
            Suggestion.isDirective t && Text.contains t (Suggestion.collapseClause 2)) = true := by
    decide +kernel
  simp only [Option.any_eq_true, Bool.and_eq_true, List.any_eq_true, beq_iff_eq] at hcheck
  obtain ⟨lp, hlp, hchain, t, ht, hdirective, hclause⟩ := hcheck
  exact ⟨lp, hlp, hchain, t, ht, hdirective, hclause⟩

end LoopAnalysis
