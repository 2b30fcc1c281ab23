import LoopAnalysis.Report.Loop
import LoopAnalysis.Proofs.Verdict.Privatization

/-!
# What an opinion can change

An opinion from outside reaches a report through the verdict alone. There it can put suggestions of
its own behind those of the static analyses and have all of them marked for verification; it can
neither take a mark away nor touch what the static analyses say.

## Main definitions

- `Verdict.needsCheck`: whether the transformations of a verdict are marked;
- `Verdict.offered`: the transformations before they are marked;
- `LoopReport.Cleared`: what a report has to say before a transformation may go without a mark.

## Main statements

- `Verdict.transformations_combine`: the transformations of every verdict;
- `Verdict.needsCheck_eq_false_iff`: when none of them is marked;
- `Analyzer.unmarked_transformations_cleared`: transformations without a mark are earned;
- `Analyzer.finish_agree`: what reports under two outcomes have in common.
-/

namespace LoopAnalysis

/-! ## §1 Marks -/

namespace Suggestion

variable {t : String}

@[simp] theorem isMarked_mark (t : String) : isMarked (mark t) = true := by
  unfold mark
  split
  · assumption
  · exact Text.contains_append_right (t ++ " ") marker

/-- A text that `isMarked` already is left as it is by `mark`. -/
theorem mark_of_isMarked (h : isMarked t = true) : mark t = t := if_pos h

end Suggestion

namespace Verdict

variable {t : String} {ts : List String} {safety : SafetyClass} {outcome : Option Outcome}

@[simp] theorem length_annotate (verify : Bool) : (annotate verify ts).length = ts.length := by
  cases verify with
  | false => rfl
  | true => exact List.length_map _

theorem getElem?_annotate (verify : Bool) (k : Nat) :
    (annotate verify ts)[k]? = ts[k]?.map fun t => if verify then Suggestion.mark t else t := by
  cases verify with
  | false => simp [annotate]
  | true => simp [annotate]

/-- What `annotate` gives without a mark was not to be verified. -/
theorem verify_eq_false_of_unmarked {verify : Bool} (ht : t ∈ annotate verify ts)
    (hbare : Suggestion.isMarked t = false) : verify = false := by
  cases verify with
  | false => rfl
  | true =>
    obtain ⟨u, -, rfl⟩ := List.mem_map.mp ht
    rw [Suggestion.isMarked_mark] at hbare
    cases hbare

/-! ## §2 Suggestions from outside -/

theorem prefix_addSuggestion (ts : List String) (suggestion : String) :
    ts <+: addSuggestion ts suggestion := by
  unfold addSuggestion
  dsimp only
  split
  · exact List.prefix_refl ts
  · exact List.prefix_append ts _

/-- What `addSuggestions` adds stands behind the suggestions that were there before. -/
theorem prefix_addSuggestions (ts suggestions : List String) :
    ts <+: addSuggestions ts suggestions := by
  unfold addSuggestions
  -- Every suggestion leaves the list as it is or makes it longer.
  induction suggestions generalizing ts with
  | nil => exact List.prefix_refl ts
  | cons suggestion suggestions ih =>
    rw [List.foldl_cons]
    exact (prefix_addSuggestion ts suggestion).trans (ih (addSuggestion ts suggestion))

/-! ## §3 Verdicts -/

/-- Whether the transformations for a loop of a `SafetyClass` are to be verified, given the outcome
of asking. -/
def needsCheck (safety : SafetyClass) : Option Outcome → Bool
  | some (.opinion o) =>
    contradicts safety o.quality || o.quality == .requiresCheck || safety == .hazardous
  | _ => safety == .hazardous

/-- The transformations offered for a loop with given suggestions, before `annotate` marks any of
them. -/
def offered (suggestions : List String) (safety : SafetyClass) : Option Outcome → List String
  | some (.opinion o) =>
    if contradicts safety o.quality then suggestions
    else addSuggestions suggestions o.suggestedTransformations
  | _ => suggestions

/-- Without `needsCheck` the loop is not hazardous, and nobody says that it is not parallel or has
to be checked. -/
theorem needsCheck_eq_false_iff :
    needsCheck safety outcome = false ↔
      safety ≠ .hazardous ∧
        ∀ o, outcome = some (.opinion o) →
          o.quality ≠ .notParallel ∧ o.quality ≠ .requiresCheck := by
  rcases outcome with _ | (o | reason)
  · simp [needsCheck]
  · -- A loop that is not hazardous is contradicted by one quality only.
    simp only [needsCheck, Bool.or_eq_false_iff, beq_eq_false_iff_ne, Option.some.injEq,
      Outcome.opinion.injEq, forall_eq']
    cases hquality : o.quality with
    | notParallel => simp [contradicts, SafetyClass.isSafe]
    | safeParallel => simp [contradicts]
    | requiresCheck => simp
    | error => simp [contradicts]
  · simp [needsCheck]

/-- Whatever came of asking, `needsCheck` holds if it holds on static grounds alone. -/
theorem needsCheck_of_none (outcome : Option Outcome) (h : needsCheck safety none = true) :
    needsCheck safety outcome = true := by
  rcases outcome with _ | (o | reason)
  · exact h
  · exact Bool.or_eq_true_iff.mpr (.inr h)
  · exact h

theorem prefix_offered (suggestions : List String) (safety : SafetyClass)
    (outcome : Option Outcome) : suggestions <+: offered suggestions safety outcome := by
  rcases outcome with _ | (o | reason)
  · exact List.prefix_refl suggestions
  · unfold offered
    dsimp only
    split
    · exact List.prefix_refl suggestions
    · exact prefix_addSuggestions suggestions _
  · exact List.prefix_refl suggestions

section Combine

-- What a verdict says under a given outcome; the outcome enters through the definitions above only.
variable (weights : Weights) (signatures : Signatures) (c : PatternClassification)
  (confidence : Float) (v : VectorizationVerdict) (dep : DependenceProfile)
  (outcome : Option Outcome)

/-- **The transformations of a verdict** are those `offered`, marked if the loop `needsCheck`. -/
theorem transformations_combine :
    (combine weights signatures c confidence v dep outcome).transformations =
      annotate (needsCheck (.of dep v) outcome)
        (offered (Suggestion.suggest c v) (.of dep v) outcome) := by
  rcases outcome with _ | (o | reason) <;> rfl

theorem conflict_combine :
    (combine weights signatures c confidence v dep outcome).conflict =
      (outcome.bind Outcome.opinion?).any fun o => contradicts (.of dep v) o.quality := by
  rcases outcome with _ | (o | reason) <;> rfl

theorem pattern_combine :
    (combine weights signatures c confidence v dep outcome).pattern = c.kind := by
  rcases outcome with _ | (o | reason) <;> rfl

theorem staticConfidence_combine :
    (combine weights signatures c confidence v dep outcome).staticConfidence =
      clampFloat 0.0 1.0 confidence := by
  rcases outcome with _ | (o | reason) <;> rfl

theorem safety_combine :
    (combine weights signatures c confidence v dep outcome).safety = .of dep v := by
  rcases outcome with _ | (o | reason) <;> rfl

/-- Only an opinion that is not in conflict with the static analyses adds anything to what is
`offered`. -/
theorem offered_eq_of_conflict
    (h : outcome.bind Outcome.opinion? = none ∨
      (combine weights signatures c confidence v dep outcome).conflict = true) :
    offered (Suggestion.suggest c v) (.of dep v) outcome = Suggestion.suggest c v := by
  rcases outcome with _ | (o | reason)
  · rfl
  · rcases h with hnone | hconflict
    · cases hnone
    · rw [conflict_combine] at hconflict
      exact if_pos hconflict
  · rfl

end Combine

end Verdict

theorem Analyzer.transformations_finish (a : Analyzer) (facts : LoopFacts)
    (outcome : Option Outcome) :
    (a.finish facts outcome).verdict.transformations =
      Verdict.annotate (Verdict.needsCheck (.of facts.dependence facts.vectorization) outcome)
        (Verdict.offered (Suggestion.suggest facts.classification facts.vectorization)
          (.of facts.dependence facts.vectorization) outcome) :=
  Verdict.transformations_combine a.weights a.signatures _ _ _ _ outcome

/-! ## §4 Transformations without a mark -/

/-- Beside a verdict of `assess`, a loop is hazardous exactly when it carries a dependence that
cannot be eliminated. -/
theorem SafetyClass.of_assess_ne_hazardous_iff {mem : MemoryProfile} {dep : DependenceProfile} :
    SafetyClass.of dep (.assess mem dep) ≠ .hazardous ↔
      dep.kind.isSafe = true ∨ dep.eliminable = true := by
  constructor
  · intro h
    unfold SafetyClass.of at h
    split at h
    · next hv =>
      -- A loop that is vectorized stands in a row of the table that asks for one of the two.
      rcases VectorizationVerdict.cases_of_vectorizable hv with ⟨-, hdep⟩ | ⟨-, hsafe⟩
      · exact hdep
      · exact .inl hsafe
    · split at h
      · next hsafe => exact .inl hsafe
      · split at h
        · next helim => exact .inr helim
        · exact absurd rfl h
  · rintro (hsafe | helim)
    · unfold SafetyClass.of
      rw [if_pos hsafe]
      split <;> simp
    · exact SafetyClass.of_ne_hazardous helim

/-- What a report has to say before a transformation may go without a mark: iterations do not depend
on each other, or only through what is `eliminable`; there is no conflict; and the outcome of asking
is no opinion against running the loop in parallel, nor one that asks for a check. -/
structure LoopReport.Cleared (r : LoopReport) (outcome : Option Outcome) : Prop where
  safe      : r.dependence.kind = .independent ∨ r.dependence.kind = .readOnly ∨
    r.dependence.eliminable = true
  agreed    : r.verdict.conflict = false
  unopposed : ∀ o, outcome = some (.opinion o) →
    o.quality ≠ .notParallel ∧ o.quality ≠ .requiresCheck

/-- A report is `Cleared` exactly where the loop does not need a check. -/
theorem Analyzer.cleared_iff (a : Analyzer) (lp : Loop) (outcome : Option Outcome) :
    (a.finish (a.facts lp) outcome).Cleared outcome ↔
      Verdict.needsCheck (.of (a.facts lp).dependence (a.facts lp).vectorization) outcome =
        false := by
  have hassessed : SafetyClass.of (a.facts lp).dependence (a.facts lp).vectorization ≠ .hazardous ↔
      (a.facts lp).dependence.kind.isSafe = true ∨ (a.facts lp).dependence.eliminable = true :=
    SafetyClass.of_assess_ne_hazardous_iff
  have hkinds : (a.facts lp).dependence.kind.isSafe = true ↔
      (a.facts lp).dependence.kind = .independent ∨ (a.facts lp).dependence.kind = .readOnly := by
    simp [DependenceKind.isSafe]
  rw [Verdict.needsCheck_eq_false_iff, hassessed, hkinds, or_assoc]
  constructor
  · rintro ⟨hsafe, -, hunopposed⟩
    exact ⟨hsafe, hunopposed⟩
  · rintro ⟨hsafe, hunopposed⟩
    refine ⟨hsafe, ?_, hunopposed⟩
    -- Without an objection the two sides can only be in conflict over a hazardous loop.
    have hclear := Verdict.needsCheck_eq_false_iff.mpr
      ⟨hassessed.mpr (by rwa [hkinds, or_assoc]), hunopposed⟩
    rcases outcome with _ | (o | reason)
    · rfl
    · simp only [Verdict.needsCheck, Bool.or_eq_false_iff] at hclear
      exact hclear.1.1
    · rfl

/-- **Transformations without a mark are earned.** Whatever the labels are found by, however
opinions are weighed, and whatever came of asking for one: if the report on a loop has a
transformation without a mark, the report is `Cleared`. Conversely, a cleared report has the
transformations as they were `offered`, and no mark is added to any of them. -/
theorem Analyzer.unmarked_transformations_cleared (a : Analyzer) (lp : Loop)
    (outcome : Option Outcome) (report : LoopReport)
    (hreport : report = a.finish (a.facts lp) outcome) :
    ((∃ t ∈ report.verdict.transformations, Suggestion.isMarked t = false) →
      report.Cleared outcome) ∧
    (report.Cleared outcome →
      report.verdict.transformations =
        Verdict.offered (Suggestion.suggest report.classification report.vectorization)
          report.verdict.safety outcome) := by
  subst hreport
  rw [a.cleared_iff]
  constructor
  · rintro ⟨t, ht, hbare⟩
    rw [a.transformations_finish] at ht
    exact Verdict.verify_eq_false_of_unmarked ht hbare
  · intro hclear
    rw [a.transformations_finish, hclear]
    simp only [finish, Verdict.safety_combine]
    rfl

/-- An opinion in favour of running a loop in parallel, with a suggestion of its own. -/
def Opinion.favourable : Opinion :=
  { enhancedPattern := none, quality := .safeParallel, confidence := 0.9, reasoning := ""
    suggestedTransformations := ["#pragma unroll(4)"] }

/-- The theorem at `plainSum`, with an opinion in favour: the suggestion from outside goes without a
mark, since the total can be privatized. -/
theorem Loop.plainSum_cleared :
    (∃ t ∈ (Analyzer.finish ⟨.ofPolicy .standard, .balanced, .builtin⟩
        (Analyzer.facts ⟨.ofPolicy .standard, .balanced, .builtin⟩ Loop.plainSum)
        (some (.opinion .favourable))).verdict.transformations,
      t = "#pragma unroll(4)" ∧ Suggestion.isMarked t = false) ∧
    (Analyzer.finish ⟨.ofPolicy .standard, .balanced, .builtin⟩
      (Analyzer.facts ⟨.ofPolicy .standard, .balanced, .builtin⟩ Loop.plainSum)
      (some (.opinion .favourable))).Cleared (some (.opinion .favourable)) := by
  have hbare : ∃ t ∈ (Analyzer.finish ⟨.ofPolicy .standard, .balanced, .builtin⟩
        (Analyzer.facts ⟨.ofPolicy .standard, .balanced, .builtin⟩ Loop.plainSum)
        (some (.opinion .favourable))).verdict.transformations,
      t = "#pragma unroll(4)" ∧ Suggestion.isMarked t = false := by
    decide +kernel
  obtain ⟨t, ht, heq, hunmarked⟩ := hbare
  obtain ⟨hcleared, -⟩ := Analyzer.unmarked_transformations_cleared
    ⟨.ofPolicy .standard, .balanced, .builtin⟩ Loop.plainSum (some (.opinion .favourable)) _ rfl
  exact ⟨⟨t, ht, heq, hunmarked⟩, hcleared ⟨t, ht, hunmarked⟩⟩

/-! ## §5 Reports under two outcomes -/

section Outcomes

variable (a : Analyzer) (facts : LoopFacts) (outcome : Option Outcome) {k : Nat} {t : String}

/-- A static suggestion keeps its place under every outcome that `finish` is given. -/
theorem Analyzer.getElem?_transformations_finish
    (h : (Suggestion.suggest facts.classification facts.vectorization)[k]? = some t) :
    (a.finish facts outcome).verdict.transformations[k]? =
      some (if Verdict.needsCheck (.of facts.dependence facts.vectorization) outcome then
        Suggestion.mark t else t) := by
  obtain ⟨added, hadded⟩ := Verdict.prefix_offered
    (Suggestion.suggest facts.classification facts.vectorization)
    (.of facts.dependence facts.vectorization) outcome
  obtain ⟨hk, -⟩ := List.getElem?_eq_some_iff.mp h
  rw [transformations_finish, Verdict.getElem?_annotate, ← hadded,
    List.getElem?_append_left hk, h, Option.map_some]

/-- A transformation that `isMarked` on static grounds alone is there under every outcome. -/
theorem Analyzer.getElem?_transformations_finish_of_isMarked
    (h : (a.finish facts none).verdict.transformations[k]? = some t)
    (hmarked : Suggestion.isMarked t = true) :
    (a.finish facts outcome).verdict.transformations[k]? = some t := by
  have hstatic := h
  rw [transformations_finish, Verdict.getElem?_annotate, Option.map_eq_some_iff] at hstatic
  obtain ⟨u, hu, rfl⟩ := hstatic
  replace hu : (Suggestion.suggest facts.classification facts.vectorization)[k]? = some u := hu
  rw [a.getElem?_transformations_finish facts outcome hu]
  -- Either the loop is hazardous under every outcome, or the suggestion carries the mark itself.
  cases hcheck : Verdict.needsCheck (.of facts.dependence facts.vectorization) none with
  | true => rw [Verdict.needsCheck_of_none outcome hcheck]
  | false =>
    have hself : Suggestion.mark u = u :=
      Suggestion.mark_of_isMarked (by simpa [hcheck] using hmarked)
    simp [hself]

end Outcomes

/-- **What an opinion cannot change.** What `finish` makes of the same facts under two outcomes
differs in the verdict only, and the verdicts agree on the pattern, on the static confidence and on
the safety class. Under every outcome the static suggestions come first and in order, each as it is
or marked; an element that is marked on static grounds alone stays as it is; and without an opinion,
or in a conflict, nothing comes behind them. -/
theorem Analyzer.finish_agree (a : Analyzer) (facts : LoopFacts) (x y : Option Outcome) :
    a.finish facts x = { a.finish facts y with verdict := (a.finish facts x).verdict } ∧
    (a.finish facts x).verdict.pattern = (a.finish facts y).verdict.pattern ∧
    (a.finish facts x).verdict.staticConfidence = (a.finish facts y).verdict.staticConfidence ∧
    (a.finish facts x).verdict.safety = (a.finish facts y).verdict.safety ∧
    (Suggestion.suggest facts.classification facts.vectorization).length ≤
      (a.finish facts x).verdict.transformations.length ∧
    (∀ (k : Nat) (t : String),
      (Suggestion.suggest facts.classification facts.vectorization)[k]? = some t →
        (a.finish facts x).verdict.transformations[k]? = some t ∨
          (a.finish facts x).verdict.transformations[k]? = some (Suggestion.mark t)) ∧
    (∀ (k : Nat) (t : String), (a.finish facts none).verdict.transformations[k]? = some t →
      Suggestion.isMarked t = true →
        (a.finish facts x).verdict.transformations[k]? = some t) ∧
    (x.bind Outcome.opinion? = none ∨ (a.finish facts x).verdict.conflict = true →
      (a.finish facts x).verdict.transformations.length =
        (Suggestion.suggest facts.classification facts.vectorization).length) := by
  refine ⟨rfl, ?_, ?_, ?_, ?_, ?_, ?_, ?_⟩
  · simp only [finish, Verdict.pattern_combine]
  · simp only [finish, Verdict.staticConfidence_combine]
  · simp only [finish, Verdict.safety_combine]
  · -- Marking keeps the length, and what is offered begins with the static suggestions.
    rw [a.transformations_finish, Verdict.length_annotate]
    exact (Verdict.prefix_offered _ _ x).length_le
  · intro k t h
    rw [a.getElem?_transformations_finish facts x h]
    split
    · exact .inr rfl
    · exact .inl rfl
  · intro k t h hmarked
    exact a.getElem?_transformations_finish_of_isMarked facts x h hmarked
  · intro h
    rw [a.transformations_finish, Verdict.length_annotate]
    exact congrArg List.length (Verdict.offered_eq_of_conflict a.weights a.signatures _ _ _ _ x h)

end LoopAnalysis
