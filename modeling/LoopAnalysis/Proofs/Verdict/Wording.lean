import LoopAnalysis.Proofs.Verdict.Collapse
import LoopAnalysis.Proofs.Verdict.Distinctness

/-!
# Names inside directives

The directives for a loop have a fixed wording, into which the name of an accumulator is written.
Whether a further directive is suggested, however, is decided by looking for a word in the primary
one, where the name stands already. A name that has the word in it keeps the directive away.

## Main definitions

- `PatternClassification.accumulating`: a label with a reduction as evidence;
- `Suggestion.SameDirective`: two directives with one wording, for two names;
- `Suggestion.hidesMerging`, `Suggestion.hidesLanes`: a name keeps a directive away.

## Main statements

- `Suggestion.contains_simd_primary`, `Suggestion.contains_collapseHead_primary`: where a word in
  the primary suggestion comes from;
- `Suggestion.suggest_accumulating`: the suggestions for a name, as wordings filled with it;
- `Suggestion.directives_independent_of_name_iff`: when two names get the same directives.
-/

namespace LoopAnalysis

/-- A label whose evidence is a `reduction` with an operator, of a variable with a name. -/
def PatternClassification.accumulating (c : PatternClassification) (op : ReductionOperator)
    (name : String) : PatternClassification :=
  { c with evidence := { c.evidence with reduction := some ⟨name, op⟩ } }

namespace Suggestion

variable {c : PatternClassification} {v : VectorizationVerdict} {kind : PatternKind}
  {op : ReductionOperator} {name other sub t u : String}

/-! ## §1 Wordings

A wording is given by the pieces of text that stand around the name. -/

/-- **Two directives with one wording**: the same pieces of text, joined by one name and by the
other with `Text.join`. -/
def SameDirective (name other : String) (t u : String) : Prop :=
  ∃ pieces : List String, t = Text.join name pieces ∧ u = Text.join other pieces

/-- With `SameDirective`, the name is nowhere in the wording, or it is in the directive. -/
theorem SameDirective.eq_or_contains (h : SameDirective name other t u) :
    t = u ∨ Text.contains t name = true := by
  obtain ⟨pieces, rfl, rfl⟩ := h
  match pieces with
  | [] => exact .inl rfl
  | [piece] => exact .inl (by simp [Text.join])
  | first :: second :: rest =>
    refine .inr ?_
    rw [Text.join, String.intercalate_cons_cons, String.append_assoc]
    exact Text.contains_append_of_contains _ (Text.contains_append_left _ _)

theorem SameDirective.symm (h : SameDirective name other t u) : SameDirective other name u t := by
  obtain ⟨pieces, ht, hu⟩ := h
  exact ⟨pieces, hu, ht⟩

/-- The wording of the `primary` suggestion. -/
def primaryPieces (kind : PatternKind) (op : ReductionOperator) : List String :=
  if kind.isReductionLike then [parallelFor ++ " " ++ "reduction(" ++ op.clauseSymbol ++ ":", ")"]
  else if kind = .prefixSum then
    [parallelFor ++ " reduction(inscan, " ++ op.clauseSymbol ++ ":", ")" ++ scanNote, ")"]
  else [primary kind none]

/-- The wording of a directive for vectors, `simdText`. -/
def lanesPieces (width : Nat) (op : ReductionOperator) : List String :=
  ["#pragma omp simd simdlen(" ++ toString width ++ ")" ++ " " ++ "reduction(" ++
    op.clauseSymbol ++ ":", ")"]

/-- A running total is named in the clause and once more behind the `scanNote`. -/
theorem primary_prefixSum (op : ReductionOperator) (name : String) :
    primary .prefixSum (some ⟨name, op⟩) =
      parallelFor ++ " reduction(inscan, " ++ op.clauseSymbol ++ ":" ++ name ++
        (")" ++ scanNote) ++ name ++ ")" := by
  unfold primary
  rfl

/-- Filled with a name, the `primaryPieces` are the primary suggestion for it. -/
theorem join_primaryPieces (kind : PatternKind) (op : ReductionOperator) (name : String) :
    Text.join name (primaryPieces kind op) = primary kind (some ⟨name, op⟩) := by
  unfold primaryPieces
  split
  · next hfold =>
    rw [primary_of_isReductionLike hfold, Text.join, String.intercalate_cons_cons,
      String.intercalate_singleton, reductionClause]
    simp only [String.append_assoc]
  · split
    · next hscan =>
      rw [hscan, Text.join, String.intercalate_cons_cons, String.intercalate_cons_cons,
        String.intercalate_singleton, primary_prefixSum]
      simp only [String.append_assoc]
    · next hfold hscan =>
      rw [primary_of_plain hscan (by simpa using hfold), Text.join, String.intercalate_singleton]

/-- Filled with a name, the `lanesPieces` are the directive for vectors. -/
theorem join_lanesPieces (width : Nat) (op : ReductionOperator) (name : String) :
    Text.join name (lanesPieces width op) = simdText width (some ⟨name, op⟩) := by
  have hsplit : simdText width (some ⟨name, op⟩) = "#pragma omp simd simdlen(" ++ toString width ++
      ")" ++ (" " ++ ("reduction(" ++ op.clauseSymbol ++ ":" ++ name ++ ")")) := rfl
  rw [hsplit, lanesPieces, Text.join, String.intercalate_cons_cons, String.intercalate_singleton]
  simp only [String.append_assoc]

/-! ## §2 Words in the primary suggestion -/

/-- The words that are looked for in a `primary` suggestion, and the name of the directive for
vectors. -/
def soughtWords : List String := [collapseHead, "simd", "#pragma omp simd"]

/-- What stands in front of a name, piece by piece. -/
def nameLeads : List String :=
  [parallelFor ++ " ", "reduction(", parallelFor ++ " reduction(inscan, ", scanNote] ++
    operators.map (·.clauseSymbol ++ ":")

theorem operator_mem_nameLeads (op : ReductionOperator) : op.clauseSymbol ++ ":" ∈ nameLeads :=
  List.mem_append_right _ (List.mem_map_of_mem (mem_operators op))

theorem nameLeads_free : ∀ sub ∈ soughtWords, ∀ lead ∈ nameLeads,
    Text.neverBegins sub.toList lead.toList = true := by
  decide

theorem contains_nameLead {lead : String} (hsub : sub ∈ soughtWords) (hlead : lead ∈ nameLeads)
    (t : String) : Text.contains (lead ++ t) sub = Text.contains t sub := by
  have h := Text.contains_append_eq t "" (nameLeads_free sub hsub lead hlead)
  simpa only [String.append_empty] using h

/-- None of the `soughtWords` lies across the bracket behind a name. -/
theorem contains_closed (hsub : sub ∈ soughtWords) (t rest : String) :
    Text.contains (t ++ (")" ++ rest)) sub =
      (Text.contains t sub || Text.contains rest sub) := by
  have hforeign : ∀ word ∈ soughtWords, ')' ∉ word.toList ∧
      Text.neverBegins word.toList ")".toList = true := by decide
  obtain ⟨hbracket, hbegins⟩ := hforeign sub hsub
  have hrest := Text.contains_append_eq rest "" hbegins
  rw [String.append_empty] at hrest
  rw [Text.contains_append_of_foreign, hrest]
  simpa using hbracket

theorem contains_reductionClause_iff (hsub : sub ∈ soughtWords) (rest : String) :
    Text.contains (reductionClause ⟨name, op⟩ ++ rest) sub =
      (Text.contains name sub || Text.contains rest sub) := by
  have hsplit : reductionClause ⟨name, op⟩ ++ rest =
      "reduction(" ++ ((op.clauseSymbol ++ ":") ++ (name ++ (")" ++ rest))) := by
    simp only [reductionClause, String.append_assoc]
  rw [hsplit, contains_nameLead hsub (by simp [nameLeads]),
    contains_nameLead hsub (operator_mem_nameLeads op), contains_closed hsub]

/-- Whether the `primary` suggestion for a label has the name of an accumulator in it. -/
def quotesName (kind : PatternKind) : Bool := kind.isReductionLike || kind == .prefixSum

/-- Where the `primary` suggestion quotes a name, it has no word but those of the name. -/
theorem contains_primary_of_quotesName (hsub : sub ∈ soughtWords) (hkind : quotesName kind = true) :
    Text.contains (primary kind (some ⟨name, op⟩)) sub = Text.contains name sub := by
  have hempty : ∀ word ∈ soughtWords, Text.contains "" word = false := by decide
  rw [quotesName, Bool.or_eq_true, beq_iff_eq] at hkind
  rcases hkind with hfold | rfl
  · rw [primary_of_isReductionLike hfold, contains_nameLead hsub (by simp [nameLeads]),
      ← String.append_empty (s := reductionClause _), contains_reductionClause_iff hsub,
      hempty sub hsub, Bool.or_false]
  · -- A bracket stands behind the name each time.
    have hjoin : primary .prefixSum (some ⟨name, op⟩) =
        (parallelFor ++ " reduction(inscan, ") ++ ((op.clauseSymbol ++ ":") ++
          (name ++ (")" ++ (scanNote ++ (name ++ (")" ++ "")))))) := by
      rw [primary_prefixSum]
      simp only [String.append_assoc, String.append_empty]
    rw [hjoin, contains_nameLead hsub (by simp [nameLeads]),
      contains_nameLead hsub (operator_mem_nameLeads op),
      contains_closed hsub, contains_nameLead hsub (by simp [nameLeads]), contains_closed hsub,
      hempty sub hsub, Bool.or_false, Bool.or_self]

/-- The directive for vectors has the word for vectors in it. -/
theorem contains_simd_of_directive (h : Text.contains t "#pragma omp simd" = true) :
    Text.contains t "simd" = true := by
  have hword : Text.contains "#pragma omp simd" "simd" = true := by decide
  exact Text.contains_trans h hword

/-- Whether the wording of the `primary` suggestion for a label speaks of vectors. -/
def namesLanes : PatternKind → Bool
  | .vectorizable | .matrixAddition | .matrixScaling => true
  | _ => false

/-- A wording for which `namesLanes` holds has the name of the directive for vectors. -/
theorem contains_simd_of_namesLanes (h : namesLanes kind = true)
    (reduction : Option ReductionInfo) :
    Text.contains (primary kind reduction) "#pragma omp simd" = true := by
  cases kind with
  | vectorizable =>
    have hword : "#pragma omp simd\n" = "#pragma omp simd" ++ "\n" := by decide
    have hsplit : primary .vectorizable reduction =
        "#pragma omp simd" ++ ("\n" ++ parallelFor) := by
      unfold primary
      dsimp only
      rw [hword, String.append_assoc]
    rw [hsplit]
    exact Text.contains_append_left _ _
  | matrixAddition | matrixScaling =>
    have hword : Text.contains " collapse(2)\n#pragma omp simd" "#pragma omp simd" = true := by
      decide
    exact Text.contains_append_of_contains _ hword
  | _ => cases h

/-- No other wording without a name has the word `simd`. -/
theorem contains_simd_of_plain (hlanes : namesLanes kind = false)
    (hquotes : quotesName kind = false) : Text.contains (primary kind none) "simd" = false := by
  -- The word begins neither in the name of the directive for threads nor in what stands before the
  -- note.
  have hthreads (t : String) :
      Text.contains (parallelFor ++ t) "simd" = Text.contains t "simd" := by
    have hbegins : Text.neverBegins "simd".toList parallelFor.toList = true := by decide
    simpa only [String.append_empty] using Text.contains_append_eq t "" hbegins
  have hnote (lead : String) (hlead : Text.neverBegins "simd".toList lead.toList = true) :
      Text.contains (parallelFor ++ lead ++ boundaryNote) "simd" = false := by
    have hbare : Text.contains boundaryNote "simd" = false := by decide
    rw [String.append_assoc, hthreads, ← hbare]
    simpa only [String.append_empty] using Text.contains_append_eq boundaryNote "" hlead
  unfold primary
  cases kind with
  | simpleParallel | embarrassinglyParallel | map | filter =>
    dsimp only
    decide
  | vectorizable | matrixAddition | matrixScaling => cases hlanes
  | reduction | frobeniusNorm | complexReduction | prefixSum => cases hquotes
  | stencil | imageProcessing => exact hnote _ (by decide)
  | convolution2D | matrixMultiply | unknown =>
    dsimp only
    rw [hthreads]
    decide

/-- The word `simd` is in the primary suggestion by its wording, or by a name. -/
theorem contains_simd_primary (kind : PatternKind) (op : ReductionOperator) (name : String) :
    Text.contains (primary kind (some ⟨name, op⟩)) "simd" =
      (namesLanes kind || quotesName kind && Text.contains name "simd") := by
  cases hlanes : namesLanes kind with
  | true =>
    rw [Bool.true_or]
    exact contains_simd_of_directive (contains_simd_of_namesLanes hlanes _)
  | false =>
    cases hquotes : quotesName kind with
    | true =>
      rw [Bool.false_or, Bool.true_and]
      exact contains_primary_of_quotesName (by simp [soughtWords]) hquotes
    | false =>
      have hplain := hquotes
      rw [quotesName, Bool.or_eq_false_iff, beq_eq_false_iff_ne] at hplain
      rw [Bool.false_and, Bool.or_self, primary_of_plain hplain.2 hplain.1]
      exact contains_simd_of_plain hlanes hquotes

/-- The `collapseHead` is in the primary suggestion by its wording, or by a name. -/
theorem contains_collapseHead_primary (kind : PatternKind) (op : ReductionOperator)
    (name : String) :
    Text.contains (primary kind (some ⟨name, op⟩)) collapseHead =
      (mergesTwo kind || quotesName kind && Text.contains name collapseHead) := by
  cases hmerges : mergesTwo kind with
  | true =>
    rw [Bool.true_or]
    exact contains_collapseHead ((contains_primary_of_mergesTwo hmerges).mpr rfl)
  | false =>
    cases hquotes : quotesName kind with
    | true =>
      rw [Bool.false_or, Bool.true_and]
      exact contains_primary_of_quotesName (by simp [soughtWords]) hquotes
    | false =>
      rw [quotesName, Bool.or_eq_false_iff, beq_eq_false_iff_ne] at hquotes
      have hall : kind ∈ PatternKind.all := by cases kind <;> decide
      rw [Bool.false_and, Bool.or_self, primary_of_plain hquotes.2 hquotes.1]
      apply texts_free.2
      exact List.mem_append_right _
        (List.mem_map.mpr ⟨kind, List.mem_filter.mpr ⟨hall, by simp [hmerges]⟩, rfl⟩)

/-! ## §3 The suggestions for a name -/

/-- **A name keeps away the directive that merges loops**, having its word in it. -/
def hidesMerging (c : PatternClassification) (name : String) : Bool :=
  c.kind.isReductionLike && c.evidence.collapse.any (2 ≤ ·) && Text.contains name "collapse("

/-- **A name keeps away the directive for vectors**, having `simd` in it. -/
def hidesLanes (c : PatternClassification) (v : VectorizationVerdict) (name : String) : Bool :=
  quotesName c.kind && v.vectorizable && Text.contains name "simd"

/-- The `collapseDirective`, wherever no name keeps it away. -/
def mergingDue (c : PatternClassification) : List String :=
  match c.evidence.collapse with
  | some depth =>
    if 2 ≤ depth && !mergesTwo c.kind && c.kind.isParallelShape then
      [parallelFor ++ " collapse(" ++ toString depth ++ ")"]
    else []
  | none => []

/-- The wording of the `simdDirective`, wherever no name keeps it away. -/
def lanesDue (c : PatternClassification) (v : VectorizationVerdict) (op : ReductionOperator) :
    List (List String) :=
  if v.vectorizable && !namesLanes c.kind then [lanesPieces v.recommendedWidth op] else []

/-- The `collapseDirective` for a name is the one that is due, unless `hidesMerging` keeps it away.
-/
theorem collapseDirective_accumulating (c : PatternClassification) (op : ReductionOperator)
    (name : String) :
    collapseDirective (primary c.kind (some ⟨name, op⟩)) (c.accumulating op name) =
      if hidesMerging c name then [] else mergingDue c := by
  have hword := contains_collapseHead_primary c.kind op name
  -- A running total is no parallel shape, so of the labels that quote a name only folds matter.
  have hshape : (quotesName c.kind && c.kind.isParallelShape) = c.kind.isReductionLike := by
    cases c.kind <;> rfl
  unfold collapseDirective hidesMerging mergingDue
  rw [show (c.accumulating op name).evidence.collapse = c.evidence.collapse from rfl,
    show (c.accumulating op name).kind = c.kind from rfl, ← hshape]
  cases c.evidence.collapse with
  | none => simp
  | some depth =>
    dsimp only
    rw [show "collapse(" = collapseHead from rfl, hword, Option.any_some]
    -- What is left is a table over four truth values.
    generalize decide (2 ≤ depth) = deep
    cases deep <;> cases quotesName c.kind <;> cases c.kind.isParallelShape <;>
      cases Text.contains name collapseHead <;> simp

/-- The `simdDirective` for a name is the one that is due, unless `hidesLanes` keeps it away. -/
theorem simdDirective_accumulating (c : PatternClassification) (v : VectorizationVerdict)
    (op : ReductionOperator) (name : String) :
    simdDirective (primary c.kind (some ⟨name, op⟩)) (c.accumulating op name) v =
      if hidesLanes c v name then [] else (lanesDue c v op).map (Text.join name) := by
  rw [simdDirective_eq, contains_simd_primary, hidesLanes, lanesDue,
    show (c.accumulating op name).evidence.reduction = some ⟨name, op⟩ from rfl]
  cases v.vectorizable <;> cases namesLanes c.kind <;> cases quotesName c.kind <;>
    cases Text.contains name "simd" <;> simp [join_lanesPieces]

/-- The wordings of the directives for a label, if a name keeps some of them away: the
`primaryPieces`, and what is due and not hidden. -/
def wordings (c : PatternClassification) (v : VectorizationVerdict) (op : ReductionOperator)
    (hiddenMerging hiddenLanes : Bool) : List (List String) :=
  primaryPieces c.kind op ::
    (if hiddenMerging then [] else (mergingDue c).map ([·])) ++
      if hiddenLanes then [] else lanesDue c v op

/-- Texts without a name are wordings of one piece. -/
theorem map_join_single (name : String) (ts : List String) :
    (ts.map ([·])).map (Text.join name) = ts := by
  rw [List.map_map]
  exact List.map_id'' (fun t => by simp [Text.join]) _

/-- **The suggestions for a name** are its `wordings` filled with it; all that depends on the name
is which of them it keeps away. -/
theorem suggest_accumulating (c : PatternClassification) (v : VectorizationVerdict)
    (op : ReductionOperator) (name : String) :
    suggest (c.accumulating op name) v =
      (wordings c v op (hidesMerging c name) (hidesLanes c v name)).map (Text.join name) := by
  have hsuggest : suggest (c.accumulating op name) v =
      primary c.kind (some ⟨name, op⟩) ::
        collapseDirective (primary c.kind (some ⟨name, op⟩)) (c.accumulating op name) ++
          simdDirective (primary c.kind (some ⟨name, op⟩)) (c.accumulating op name) v := rfl
  rw [hsuggest, collapseDirective_accumulating, simdDirective_accumulating, wordings,
    List.map_append, List.map_cons, join_primaryPieces]
  have hmerging := map_join_single name (mergingDue c)
  cases hidesMerging c name <;> cases hidesLanes c v name <;> simp [hmerging]

theorem mem_mergingDue (h : t ∈ mergingDue c) :
    ∃ depth : Nat, t = parallelFor ++ " collapse(" ++ toString depth ++ ")" := by
  unfold mergingDue at h
  split at h
  · next depth _ =>
    split at h
    · exact ⟨depth, List.mem_singleton.mp h⟩
    · cases h
  · cases h

/-- With `hidesMerging`, a name hides only what is due. -/
theorem mergingDue_of_hidesMerging (h : hidesMerging c name = true) :
    ∃ depth : Nat, mergingDue c = [parallelFor ++ " collapse(" ++ toString depth ++ ")"] := by
  simp only [hidesMerging, Bool.and_eq_true, Option.any_eq_true, decide_eq_true_eq] at h
  obtain ⟨⟨hfold, depth, hdepth, hdeep⟩, -⟩ := h
  have hkind : mergesTwo c.kind = false ∧ c.kind.isParallelShape = true := by
    revert hfold
    cases c.kind <;> decide
  exact ⟨depth, by simp [mergingDue, hdepth, hdeep, hkind]⟩

theorem lanesDue_of_hidesLanes (op : ReductionOperator) (h : hidesLanes c v name = true) :
    lanesDue c v op = [lanesPieces v.recommendedWidth op] := by
  simp only [hidesLanes, Bool.and_eq_true] at h
  obtain ⟨⟨hquotes, hvectorizable⟩, -⟩ := h
  have hkind : namesLanes c.kind = false := by
    revert hquotes
    cases c.kind <;> decide
  simp [lanesDue, hvectorizable, hkind]

/-! ## §4 Two names -/

/-- The directive that merges loops has no `simd` in it. -/
theorem contains_simd_merging (depth : Nat) :
    Text.contains (parallelFor ++ " collapse(" ++ toString depth ++ ")") "simd" = false := by
  apply Text.contains_eq_false_of_notMem (c := 'd') (by decide)
  have hlead : 'd' ∉ (parallelFor ++ " collapse(").toList := by decide
  rw [String.toList_append, String.toList_append, List.mem_append, List.mem_append, not_or, not_or,
    Nat.toString_eq_repr, Nat.toList_repr]
  refine ⟨⟨hlead, fun h => ?_⟩, by decide⟩
  exact absurd (Nat.isDigit_of_mem_toDigits (by decide) (by decide) h) (by decide)

/-- No `SameDirective` gives the directive for vectors for one name and the one that merges loops
for another that has the word for vectors in it. -/
theorem not_sameDirective (width depth : Nat) (hother : Text.contains other "simd" = true) :
    ¬ SameDirective name other (Text.join name (lanesPieces width op))
      (parallelFor ++ " collapse(" ++ toString depth ++ ")") := by
  intro h
  rcases h.symm.eq_or_contains with heq | hcontains
  · rw [join_lanesPieces] at heq
    obtain ⟨rest, hrest⟩ := simdText_eq width (some ⟨name, op⟩)
    rw [hrest, String.append_assoc, String.append_assoc] at heq
    exact Text.append_ne_append _ _ (by decide) (by decide +kernel) heq
  · have hword := Text.contains_trans hcontains hother
    rw [contains_simd_merging] at hword
    cases hword

/-- If one name `hidesMerging` and another does not, the directives differ. -/
theorem not_forall₂_of_hidesMerging (hname : hidesMerging c name = true)
    (hother : hidesMerging c other = false) :
    ¬ List.Forall₂ (SameDirective name other) (suggest (c.accumulating op name) v)
      (suggest (c.accumulating op other) v) := by
  intro h
  obtain ⟨depth, hdue⟩ := mergingDue_of_hidesMerging hname
  rw [suggest_accumulating, suggest_accumulating, hname, hother, wordings, wordings, hdue] at h
  -- The lists can only be equally long if the other name hides the directive for vectors instead.
  cases hlanes : hidesLanes c v other with
  | false =>
    have hlength := h.length_eq
    simp only [hlanes, if_true, List.length_map, List.length_append, List.length_cons,
      List.length_nil, Bool.false_eq_true, if_false] at hlength
    split at hlength <;> simp at hlength
    omega
  | true =>
    rw [lanesDue_of_hidesLanes op hlanes, hlanes] at h
    cases hown : hidesLanes c v name with
    | true => simp [hown] at h
    | false =>
      have hword : Text.contains other "simd" = true := by
        simp only [hidesLanes, Bool.and_eq_true] at hlanes
        exact hlanes.2
      simp only [hown, Bool.false_eq_true, if_false, if_true, List.map_cons, List.map_nil,
        List.cons_append, List.nil_append, List.append_nil, List.forall₂_cons] at h
      rw [show ∀ t, Text.join other [t] = t from fun t => by simp [Text.join]] at h
      exact not_sameDirective _ _ hword h.2.1

/-- If each directive of one name is the `SameDirective` for the other, the names hide the same. -/
theorem hides_eq_of_forall₂
    (h : List.Forall₂ (SameDirective name other) (suggest (c.accumulating op name) v)
      (suggest (c.accumulating op other) v)) :
    hidesMerging c name = hidesMerging c other ∧ hidesLanes c v name = hidesLanes c v other := by
  have hflip : List.Forall₂ (SameDirective other name) (suggest (c.accumulating op other) v)
      (suggest (c.accumulating op name) v) :=
    (List.Forall₂.flip h).imp fun _ _ hsame => SameDirective.symm hsame
  have hmerging : hidesMerging c name = hidesMerging c other := by
    cases hname : hidesMerging c name with
    | true =>
      cases hother : hidesMerging c other with
      | true => rfl
      | false => exact absurd h (not_forall₂_of_hidesMerging hname hother)
    | false =>
      cases hother : hidesMerging c other with
      | true => exact absurd hflip (not_forall₂_of_hidesMerging hother hname)
      | false => rfl
  refine ⟨hmerging, ?_⟩
  -- All but the last wording are the same, so the lengths tell whether that one is there.
  have hlength := h.length_eq
  rw [suggest_accumulating, suggest_accumulating, hmerging] at hlength
  simp only [wordings, List.length_map, List.length_append, List.length_cons,
    Nat.add_left_cancel_iff] at hlength
  cases hname : hidesLanes c v name with
  | true =>
    cases hother : hidesLanes c v other with
    | true => rfl
    | false => simp [hname, hother, lanesDue_of_hidesLanes op hname] at hlength
  | false =>
    cases hother : hidesLanes c v other with
    | true => simp [hname, hother, lanesDue_of_hidesLanes op hother] at hlength
    | false => rfl

theorem forall₂_sameDirective (ws : List (List String)) :
    List.Forall₂ (SameDirective name other) (ws.map (Text.join name))
      (ws.map (Text.join other)) := by
  rw [List.forall₂_map_left_iff, List.forall₂_map_right_iff, List.forall₂_same]
  exact fun pieces _ => ⟨pieces, rfl, rfl⟩

/-- A loop that can be vectorized gets a directive for vectors, unless the name `hidesLanes`; a name
that hides it may bring in its text. -/
theorem exists_simd_iff (hv : v.vectorizable = true) :
    (∃ t ∈ suggest (c.accumulating op name) v, Text.contains t "#pragma omp simd" = true) ↔
      hidesLanes c v name = false ∨ Text.contains name "#pragma omp simd" = true := by
  have hword : "#pragma omp simd" ∈ soughtWords := by simp [soughtWords]
  rw [suggest_accumulating, wordings]
  cases hhides : hidesLanes c v name with
  | false =>
    -- Nothing is hidden: the primary suggestion speaks of vectors, or their own directive is due.
    refine iff_of_true ?_ (.inl rfl)
    cases hlanes : namesLanes c.kind with
    | true =>
      refine ⟨Text.join name (primaryPieces c.kind op), by simp, ?_⟩
      rw [join_primaryPieces]
      exact contains_simd_of_namesLanes hlanes _
    | false =>
      refine ⟨Text.join name (lanesPieces v.recommendedWidth op), ?_, ?_⟩
      · simp [lanesDue, hv, hlanes]
      · obtain ⟨rest, hrest⟩ := simdText_eq v.recommendedWidth (some ⟨name, op⟩)
        rw [join_lanesPieces, hrest]
        exact Text.contains_append_left _ _
  | true =>
    have hquotes : quotesName c.kind = true := by
      simp only [hidesLanes, Bool.and_eq_true] at hhides
      exact hhides.1.1
    -- Only the primary suggestion is left to have the text, and there it comes from the name.
    have hfirst : Text.contains (Text.join name (primaryPieces c.kind op)) "#pragma omp simd" =
        Text.contains name "#pragma omp simd" := by
      rw [join_primaryPieces, contains_primary_of_quotesName hword hquotes]
    constructor
    · rintro ⟨t, ht, hcontains⟩
      rw [if_pos rfl, List.append_nil, List.map_cons, List.mem_cons] at ht
      rcases ht with rfl | ht
      · exact .inr (hfirst.symm.trans hcontains)
      · have hdue : t ∈ mergingDue c := by
          rw [← map_join_single name (mergingDue c)]
          split at ht
          · cases ht
          · exact ht
        obtain ⟨depth, rfl⟩ := mem_mergingDue hdue
        have hnone := contains_simd_merging depth
        rw [contains_simd_of_directive hcontains] at hnone
        cases hnone
    · rintro (hshown | hname)
      · cases hshown
      · exact ⟨_, by simp, hfirst.trans hname⟩

/-- **Directives and names.** Two names get the same directives, each a `SameDirective` filled with
its own name, exactly if they keep the same directives away. A loop that can be vectorized gets a
directive for vectors exactly if the name does not keep it away, or is made up of one itself. -/
theorem directives_independent_of_name_iff (c : PatternClassification) (v : VectorizationVerdict)
    (op : ReductionOperator) (name other : String) :
    (List.Forall₂ (SameDirective name other) (suggest (c.accumulating op name) v)
        (suggest (c.accumulating op other) v) ↔
      hidesMerging c name = hidesMerging c other ∧ hidesLanes c v name = hidesLanes c v other) ∧
    (v.vectorizable = true →
      ((∃ t ∈ suggest (c.accumulating op name) v, Text.contains t "#pragma omp simd" = true) ↔
        hidesLanes c v name = false ∨ Text.contains name "#pragma omp simd" = true)) := by
  refine ⟨⟨hides_eq_of_forall₂, fun ⟨hmerging, hlanes⟩ => ?_⟩, exists_simd_iff⟩
  rw [suggest_accumulating, suggest_accumulating, hmerging, hlanes]
  exact forall₂_sameDirective _

/-- A sum in a loop with nothing in its way. -/
def plainSum : PatternClassification := ⟨.reduction, { summary := "Scalar reduction" }⟩

/-- A loop that can be vectorized, four elements at a time. -/
def fourLanes : VectorizationVerdict := ⟨true, 4, false, 2.5, "None"⟩

theorem directives_of_total_and_norm :
    fourLanes.vectorizable = true ∧
    List.Forall₂ (SameDirective "total" "norm")
      (suggest (plainSum.accumulating .sum "total") fourLanes)
      (suggest (plainSum.accumulating .sum "norm") fourLanes) ∧
    ∃ t ∈ suggest (plainSum.accumulating .sum "total") fourLanes,
      Text.contains t "#pragma omp simd" = true := by
  obtain ⟨hsame, hsimd⟩ :=
    directives_independent_of_name_iff plainSum fourLanes .sum "total" "norm"
  exact ⟨rfl, hsame.mpr (by decide), (hsimd rfl).mpr (.inl (by decide +kernel))⟩

/-- A name with the word `simd` in it loses the directive for vectors. -/
theorem simd_total_loses_lanes :
    suggest (plainSum.accumulating .sum "total") fourLanes =
      ["#pragma omp parallel for reduction(+:total)",
        "#pragma omp simd simdlen(4) reduction(+:total)"] ∧
    suggest (plainSum.accumulating .sum "simd_total") fourLanes =
      ["#pragma omp parallel for reduction(+:simd_total)"] ∧
    fourLanes.vectorizable = true ∧
    (∀ t ∈ suggest (plainSum.accumulating .sum "simd_total") fourLanes,
      Text.contains t "#pragma omp simd" = false) ∧
    ¬ List.Forall₂ (SameDirective "total" "simd_total")
      (suggest (plainSum.accumulating .sum "total") fourLanes)
      (suggest (plainSum.accumulating .sum "simd_total") fourLanes) := by
  have htotal : suggest (plainSum.accumulating .sum "total") fourLanes =
      ["#pragma omp parallel for reduction(+:total)",
        "#pragma omp simd simdlen(4) reduction(+:total)"] := by decide
  have hsimd : suggest (plainSum.accumulating .sum "simd_total") fourLanes =
      ["#pragma omp parallel for reduction(+:simd_total)"] := by decide
  rw [htotal, hsimd]
  exact ⟨rfl, rfl, rfl, by decide, fun h => by cases h.length_eq⟩

end Suggestion

end LoopAnalysis
