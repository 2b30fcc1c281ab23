import LoopAnalysis.Proofs.Text.Trimming
import LoopAnalysis.Proofs.Verdict.Caution

/-!
# Transformations that are listed twice

The suggestions of the static analyses differ from each other, and one from outside joins them only
if it is not there yet. But the marks are put on afterwards: a suggestion that comes with its mark
is compared with texts that do not have theirs yet. So a list has a text twice exactly if it is
marked and an opinion brings in the marked form of a text that is there without the mark.

## Main definitions

- `Suggestion.withMark`: a text with the mark behind it;
- `Verdict.MarksTwice`: an opinion brings in the marked form of a text that is there.

## Main statements

- `Suggestion.nodup_suggest`: the static suggestions differ from each other;
- `Verdict.mem_addSuggestions`, `Verdict.nodup_addSuggestions`: what an opinion adds;
- `Suggestion.nodup_map_mark_iff`: when marking keeps texts apart;
- `Verdict.transformations_nodup_iff`: when the transformations of a verdict differ.
-/

namespace LoopAnalysis

/-! ## §1 The mark behind a text -/

namespace Suggestion

variable {t u : String} {ts : List String}

/-- A text with the `marker` behind it. -/
def withMark (t : String) : String := t ++ " " ++ marker

@[simp] theorem isMarked_withMark (t : String) : isMarked (withMark t) = true :=
  Text.contains_append_right _ _

theorem mark_of_unmarked (h : isMarked t = false) : mark t = withMark t := by
  rw [mark, h, if_neg Bool.false_ne_true, withMark]

theorem withMark_injective : Function.Injective withMark := by
  intro t u h
  simpa only [withMark, String.append_left_inj] using h

/-- The form that `mark` gives two texts is one only if one of them is the other `withMark`. -/
theorem eq_or_withMark_of_mark_eq (h : mark t = mark u) :
    t = u ∨ isMarked t = false ∧ u = withMark t ∨ isMarked u = false ∧ t = withMark u := by
  -- Only a text without a mark is changed, so the four cases differ in which of the two are.
  cases ht : isMarked t with
  | true =>
    cases hu : isMarked u with
    | true =>
      rw [mark_of_isMarked ht, mark_of_isMarked hu] at h
      exact .inl h
    | false =>
      rw [mark_of_isMarked ht, mark_of_unmarked hu] at h
      exact .inr (.inr ⟨rfl, h⟩)
  | false =>
    cases hu : isMarked u with
    | true =>
      rw [mark_of_unmarked ht, mark_of_isMarked hu] at h
      exact .inr (.inl ⟨rfl, h.symm⟩)
    | false =>
      rw [mark_of_unmarked ht, mark_of_unmarked hu] at h
      exact .inl (withMark_injective h)

/-- **Marking keeps texts apart** exactly if none of them is there `withMark` as well. -/
theorem nodup_map_mark_iff (h : ts.Nodup) :
    (ts.map mark).Nodup ↔ ∀ t ∈ ts, isMarked t = false → withMark t ∉ ts := by
  constructor
  · intro hmap t ht hbare htwin
    have hsame : mark t = mark (withMark t) := by
      rw [mark_of_unmarked hbare, mark_of_isMarked (isMarked_withMark t)]
    have heq : t = withMark t := List.inj_on_of_nodup_map hmap ht htwin hsame
    rw [heq, isMarked_withMark] at hbare
    cases hbare
  · intro htwins
    refine List.Nodup.map_on (fun t ht u hu hsame => ?_) h
    rcases eq_or_withMark_of_mark_eq hsame with heq | ⟨hbare, htwin⟩ | ⟨hbare, htwin⟩
    · exact heq
    · exact absurd (htwin ▸ hu) (htwins t ht hbare)
    · exact absurd (htwin ▸ ht) (htwins u hu hbare)

/-! ## §2 The static suggestions -/

variable {c : PatternClassification} {v : VectorizationVerdict} {first : String}

/-- Whether a text ends with another character than the `marker` does. -/
def endsOtherwise (t : String) : Bool := t.toList.getLast?.any (· != '/')

theorem endsOtherwise_withMark (t : String) : endsOtherwise (withMark t) = false := by
  have hmarker : marker.toList.getLast? = some '/' := by decide
  rw [endsOtherwise, withMark, String.toList_append, List.getLast?_append, hmarker, Option.some_or]
  rfl

/-- What `endsOtherwise` says of an end, it says of the whole text. -/
theorem endsOtherwise_append {t : String} (s : String) (h : endsOtherwise t = true) :
    endsOtherwise (s ++ t) = true := by
  obtain ⟨c, hlast, hc⟩ := (Option.any_eq_true _ _).mp h
  rw [endsOtherwise, String.toList_append, List.getLast?_append, hlast, Option.some_or,
    Option.any_some, hc]

theorem endsOtherwise_reductionClause (info : ReductionInfo) :
    endsOtherwise (reductionClause info) = true := by
  unfold reductionClause
  exact endsOtherwise_append _ (by decide)

theorem endsOtherwise_reductionDirective (reduction : Option ReductionInfo) {otherwise : String}
    (h : endsOtherwise otherwise = true) :
    endsOtherwise (reductionDirective reduction otherwise) = true := by
  unfold reductionDirective
  apply endsOtherwise_append
  cases reduction with
  | none => exact h
  | some info => exact endsOtherwise_reductionClause info

/-- No `primary` suggestion ends like the mark, whatever the label and the reduction. -/
theorem endsOtherwise_primary (kind : PatternKind) (reduction : Option ReductionInfo) :
    endsOtherwise (primary kind reduction) = true := by
  have hthreads : endsOtherwise parallelFor = true := by decide
  have hnote : endsOtherwise boundaryNote = true := by decide
  have hmerges : endsOtherwise " collapse(2)" = true := by decide
  unfold primary
  cases kind with
  | simpleParallel | embarrassinglyParallel | map | filter => exact hthreads
  | vectorizable => exact endsOtherwise_append _ hthreads
  | reduction | frobeniusNorm | complexReduction =>
    exact endsOtherwise_reductionDirective reduction (by decide)
  | prefixSum =>
    cases reduction with
    | none => decide
    | some info => exact endsOtherwise_append _ (by decide)
  | stencil | imageProcessing => exact endsOtherwise_append _ hnote
  | convolution2D => exact endsOtherwise_append _ hmerges
  | matrixAddition | matrixScaling | matrixMultiply | unknown =>
    exact endsOtherwise_append _ (by decide)

theorem endsOtherwise_simdText (width : Nat) (reduction : Option ReductionInfo) :
    endsOtherwise (simdText width reduction) = true := by
  unfold simdText
  cases reduction with
  | none =>
    rw [String.append_empty]
    exact endsOtherwise_append _ (by decide)
  | some info =>
    exact endsOtherwise_append _ (endsOtherwise_append _ (endsOtherwise_reductionClause info))

/-- A `collapseDirective` for a nest is there only beside a primary suggestion without its clause.
-/
theorem bare_of_mem_collapseDirective (h : t ∈ collapseDirective first c) :
    Text.contains first "collapse(" = false ∧
      ∃ depth : Nat, t = parallelFor ++ " collapse(" ++ toString depth ++ ")" := by
  unfold collapseDirective at h
  split at h
  · next depth _ =>
    split at h
    · next hshown =>
      simp only [Bool.and_eq_true, Bool.not_eq_true'] at hshown
      exact ⟨hshown.1.2, depth, List.mem_singleton.mp h⟩
    · cases h
  · cases h

/-- A `simdDirective` for vectors is there only beside a primary suggestion that does not speak of
them. -/
theorem bare_of_mem_simdDirective (h : t ∈ simdDirective first c v) :
    Text.contains first "simd" = false ∧
      t = simdText v.recommendedWidth c.evidence.reduction := by
  rw [simdDirective_eq] at h
  split at h
  · next hshown =>
    simp only [Bool.and_eq_true, Bool.not_eq_true'] at hshown
    exact ⟨hshown.2, List.mem_singleton.mp h⟩
  · cases h

/-- Nothing that `suggest` gives ends with the mark. -/
theorem withMark_notMem_suggest (t : String) : withMark t ∉ suggest c v := by
  have hends : ∀ u ∈ suggest c v, endsOtherwise u = true := by
    intro u hu
    simp only [suggest, List.cons_append, List.mem_cons, List.mem_append] at hu
    rcases hu with rfl | hcollapse | hsimd
    · exact endsOtherwise_primary _ _
    · obtain ⟨-, depth, rfl⟩ := bare_of_mem_collapseDirective hcollapse
      exact endsOtherwise_append _ (by decide)
    · rw [(bare_of_mem_simdDirective hsimd).2]
      exact endsOtherwise_simdText _ _
  intro h
  have hmark := hends _ h
  rw [endsOtherwise_withMark] at hmark
  cases hmark

/-- **The texts that `suggest` gives differ from each other**: what stands behind the primary one
has a word that would keep it away if the primary one had it. -/
theorem nodup_suggest (c : PatternClassification) (v : VectorizationVerdict) :
    (suggest c v).Nodup := by
  rw [suggest, List.cons_append, List.nodup_cons, List.mem_append, not_or, List.nodup_append]
  refine ⟨⟨?_, ?_⟩, ?_, ?_, ?_⟩
  · intro h
    obtain ⟨hbare, depth, htext⟩ := bare_of_mem_collapseDirective h
    have hsplit : parallelFor ++ " collapse(" = (parallelFor ++ " ") ++ "collapse(" := by
      decide
    rw [htext, hsplit, String.append_assoc, String.append_assoc,
      Text.contains_append_of_contains _ (Text.contains_append_left _ _)] at hbare
    cases hbare
  · intro h
    obtain ⟨hbare, htext⟩ := bare_of_mem_simdDirective h
    obtain ⟨rest, hrest⟩ := simdText_eq v.recommendedWidth c.evidence.reduction
    have hsplit : "#pragma omp simd" = "#pragma omp " ++ "simd" := by decide
    rw [htext, hrest, hsplit, String.append_assoc,
      Text.contains_append_of_contains _ (Text.contains_append_left _ _)] at hbare
    cases hbare
  · -- Each of the two directives behind the primary one is there once at most.
    unfold collapseDirective
    split
    · split <;> simp
    · simp
  · rw [simdDirective_eq]
    split <;> simp
  · -- Directives for threads and for vectors begin in different ways.
    intro t ht u hu heq
    obtain ⟨-, depth, hthreads⟩ := bare_of_mem_collapseDirective ht
    obtain ⟨rest, hlanes⟩ := simdText_eq v.recommendedWidth c.evidence.reduction
    rw [hthreads, (bare_of_mem_simdDirective hu).2, hlanes, String.append_assoc,
      String.append_assoc] at heq
    exact Text.append_ne_append _ _ (by decide) (by decide +kernel) heq

end Suggestion

/-! ## §3 Suggestions from outside -/

namespace Verdict

variable {t : String} {ts : List String}

/-- What stands in a list after `addSuggestion`: what was there, and the new text unless it is
blank. -/
theorem mem_addSuggestion {suggestion : String} :
    t ∈ addSuggestion ts suggestion ↔ t ∈ ts ∨ t ≠ "" ∧ t = Text.trim suggestion := by
  unfold addSuggestion
  dsimp only
  split
  · next hskip =>
    rw [Bool.or_eq_true, String.isEmpty_iff, List.contains_iff_mem] at hskip
    constructor
    · exact .inl
    · rintro (hold | ⟨hne, rfl⟩)
      · exact hold
      · exact hskip.resolve_left hne
  · next hadd =>
    rw [Bool.or_eq_true, String.isEmpty_iff, not_or] at hadd
    rw [List.mem_append, List.mem_singleton]
    constructor
    · rintro (hold | rfl)
      · exact .inl hold
      · exact .inr ⟨hadd.1, rfl⟩
    · rintro (hold | ⟨-, hnew⟩)
      · exact .inl hold
      · exact .inr hnew

theorem nodup_addSuggestion (h : ts.Nodup) (suggestion : String) :
    (addSuggestion ts suggestion).Nodup := by
  unfold addSuggestion
  dsimp only
  split
  · exact h
  · next hadd =>
    rw [Bool.or_eq_true, List.contains_iff_mem, not_or] at hadd
    rw [List.nodup_append]
    refine ⟨h, List.nodup_singleton _, ?_⟩
    rintro u hu w hw rfl
    exact hadd.2 (List.mem_singleton.mp hw ▸ hu)

/-- What stands in a list after `addSuggestions` has added those of an opinion. -/
theorem mem_addSuggestions {suggestions : List String} :
    t ∈ addSuggestions ts suggestions ↔ t ∈ ts ∨ t ≠ "" ∧ t ∈ suggestions.map Text.trim := by
  unfold addSuggestions
  -- Each suggestion adds its own trimmed text, unless it is blank.
  induction suggestions generalizing ts with
  | nil => simp
  | cons suggestion suggestions ih =>
    rw [List.foldl_cons, ih, mem_addSuggestion, List.map_cons, List.mem_cons, and_or_left, or_assoc]

/-- A list without repetitions has none after `addSuggestions`. -/
theorem nodup_addSuggestions (h : ts.Nodup) (suggestions : List String) :
    (addSuggestions ts suggestions).Nodup := by
  unfold addSuggestions
  induction suggestions generalizing ts with
  | nil => exact h
  | cons suggestion suggestions ih =>
    rw [List.foldl_cons]
    exact ih (nodup_addSuggestion h suggestion)

/-- Marking by `annotate` keeps the texts of a list apart unless one of them is there `withMark` as
well. -/
theorem nodup_annotate_iff {verify : Bool} (h : ts.Nodup) :
    (annotate verify ts).Nodup ↔
      (verify = true →
        ∀ t ∈ ts, Suggestion.isMarked t = false → Suggestion.withMark t ∉ ts) := by
  cases verify with
  | false => simpa [annotate] using h
  | true => simpa [annotate] using Suggestion.nodup_map_mark_iff h

/-! ## §4 Verdicts -/

/-- **An opinion marks a text twice**: it brings in a text `withMark`, and without the mark that
text is a static suggestion or comes from the opinion as well. -/
def MarksTwice (c : PatternClassification) (v : VectorizationVerdict) (o : Opinion) : Prop :=
  ∃ t, Suggestion.isMarked t = false ∧
    (t ∈ Suggestion.suggest c v ∨ t ∈ o.suggestedTransformations.map Text.trim) ∧
    Suggestion.withMark t ∈ o.suggestedTransformations.map Text.trim

/-- What `trim` leaves is not the mark with a blank in front. -/
theorem withMark_empty_ne_trim (s : String) : Suggestion.withMark "" ≠ Text.trim s := by
  intro h
  have hchars : Text.trimChars s.toList = ' ' :: Suggestion.marker.toList := by
    rw [← Text.toList_trim, ← h]
    decide
  exact absurd (Text.head_trimChars hchars) (by decide)

/-- What `MarksTwice` says of an opinion: marking what it offers makes two texts one. -/
theorem exists_withMark_mem_addSuggestions_iff {c : PatternClassification}
    {v : VectorizationVerdict} {o : Opinion} :
    (∃ t ∈ addSuggestions (Suggestion.suggest c v) o.suggestedTransformations,
      Suggestion.isMarked t = false ∧
        Suggestion.withMark t ∈
          addSuggestions (Suggestion.suggest c v) o.suggestedTransformations) ↔
      MarksTwice c v o := by
  simp only [mem_addSuggestions]
  constructor
  · rintro ⟨t, hmem, hbare, htwin⟩
    have houtside := (htwin.resolve_left (Suggestion.withMark_notMem_suggest t)).2
    exact ⟨t, hbare, hmem.imp_right And.right, houtside⟩
  · rintro ⟨t, hbare, hmem, htwin⟩
    obtain ⟨s, -, hs⟩ := List.mem_map.mp htwin
    have hne : t ≠ "" := by
      rintro rfl
      exact withMark_empty_ne_trim s hs.symm
    have htwinne : Suggestion.withMark t ≠ "" := by
      intro hempty
      have hmarked := Suggestion.isMarked_withMark t
      rw [hempty] at hmarked
      exact absurd hmarked (by decide)
    exact ⟨t, hmem.imp_right fun h => ⟨hne, h⟩, hbare, .inr ⟨htwinne, htwin⟩⟩

/-- **When the transformations of a verdict differ from each other.** There is always at least one
that `combine` gives. Two of them are the same exactly if there is an opinion that is not in
conflict with the static analyses, the transformations are marked because the opinion asks for a
check or the loop is hazardous, and the opinion `MarksTwice`. -/
theorem transformations_nodup_iff (weights : Weights) (signatures : Signatures)
    (c : PatternClassification) (confidence : Float) (v : VectorizationVerdict)
    (dep : DependenceProfile) (outcome : Option Outcome) :
    (combine weights signatures c confidence v dep outcome).transformations ≠ [] ∧
    ((combine weights signatures c confidence v dep outcome).transformations.Nodup ↔
      ∀ o, outcome = some (.opinion o) → contradicts (.of dep v) o.quality = false →
        o.quality = .requiresCheck ∨ SafetyClass.of dep v = .hazardous → ¬ MarksTwice c v o) := by
  have hstatic : ∀ verify, (annotate verify (Suggestion.suggest c v)).Nodup := by
    intro verify
    rw [nodup_annotate_iff (Suggestion.nodup_suggest c v)]
    exact fun _ t _ _ => Suggestion.withMark_notMem_suggest t
  rw [transformations_combine]
  constructor
  · have hprimary : 0 < (Suggestion.suggest c v).length := Nat.succ_pos _
    rw [← List.length_pos_iff, length_annotate]
    exact hprimary.trans_le (prefix_offered _ _ outcome).length_le
  · rcases outcome with _ | (o | reason)
    · exact iff_of_true (hstatic _) fun o ho => by cases ho
    · simp only [Option.some.injEq, Outcome.opinion.injEq, forall_eq']
      by_cases hconflict : contradicts (.of dep v) o.quality = true
      · -- In a conflict nothing is added to the static suggestions.
        have hoffered : offered (Suggestion.suggest c v) (.of dep v) (some (.opinion o)) =
            Suggestion.suggest c v := if_pos hconflict
        rw [hoffered, hconflict]
        simpa using hstatic _
      · have hoffered : offered (Suggestion.suggest c v) (.of dep v) (some (.opinion o)) =
            addSuggestions (Suggestion.suggest c v) o.suggestedTransformations := if_neg hconflict
        have hcheck : needsCheck (.of dep v) (some (.opinion o)) = true ↔
            o.quality = .requiresCheck ∨ SafetyClass.of dep v = .hazardous := by
          simp [needsCheck, Bool.eq_false_iff.mpr hconflict]
        rw [hoffered, nodup_annotate_iff (nodup_addSuggestions (Suggestion.nodup_suggest c v) _),
          hcheck, ← exists_withMark_mem_addSuggestions_iff]
        simp [hconflict]
    · exact iff_of_true (hstatic _) fun o ho => by cases ho

/-- An opinion that asks for a check, and suggests what is suggested already with the mark that it
is going to have. -/
def markedAlready : Opinion :=
  { enhancedPattern := none, quality := .requiresCheck, confidence := 0.75, reasoning := ""
    suggestedTransformations := ["#pragma omp parallel for /* requires verification */"] }

/-- With `markedAlready`, the one static suggestion for a map and the one from outside are the same
once both are marked. -/
theorem marked_suggestion_repeated :
    (combine .balanced .builtin ⟨.map, { summary := "elementwise" }⟩ 0.8
        (.scalar false "None") .readOnly (some (.opinion markedAlready))).transformations =
      ["#pragma omp parallel for /* requires verification */",
        "#pragma omp parallel for /* requires verification */"] := by
  rw [transformations_combine]
  decide

end Verdict

end LoopAnalysis
