import LoopAnalysis.Report.Loop
import LoopAnalysis.Proofs.Program.Straight
import Mathlib.Data.List.Nodup

/-!
# The first pattern that matches

A policy says in which order patterns are tried. Recognizers see a loop and its profiles but never
the policy, so a policy decides only which of the patterns that match becomes the label.

## Main definitions

- `Scene.Recognizes`: the recognizer of a pattern finds evidence for it.

## Main statements

- `Matcher.classify_eq`: a policy is a search through the patterns in its order;
- `Matcher.classify_eq_iff`, `Matcher.classify_unknown_iff`: the label, and when there is none;
- `LoopFacts.policy_chooses_label`: what a policy changes about the facts of a loop.
-/

namespace LoopAnalysis

/-! ## §1 Recognizers by kind -/

/-- The `standard` recognizer of a kind finds evidence. One that fails for lack of structure finds
none. -/
def Scene.Recognizes (s : Scene) (kind : PatternKind) (e : PatternEvidence) : Prop :=
  ∃ r ∈ Recognizer.standard, r.kind = kind ∧ r.recognize s = .ok (some e)

namespace Recognizer

/-- There is one recognizer of each kind in `standard`. -/
theorem eq_of_kind_eq {r r' : Recognizer} (hr : r ∈ standard) (hr' : r' ∈ standard)
    (hkind : r.kind = r'.kind) : r = r' := by
  have hnodup : (standard.map (·.kind)).Nodup := by decide
  exact List.inj_on_of_nodup_map hnodup hr hr' hkind

theorem kind_ne_unknown {r : Recognizer} (hr : r ∈ standard) : r.kind ≠ .unknown := by
  have hkinds : ∀ kind ∈ standard.map (·.kind), kind ≠ PatternKind.unknown := by decide
  exact hkinds r.kind (List.mem_map_of_mem hr)

/-- `get?` finds the one recognizer of a kind, if `standard` has one. -/
theorem get?_eq_some_iff {kind : PatternKind} {r : Recognizer} :
    RecognizerSet.standard.get? kind = some r ↔ r ∈ standard ∧ r.kind = kind := by
  constructor
  · intro h
    exact ⟨List.mem_of_find?_eq_some h, by simpa using List.find?_some h⟩
  · rintro ⟨hr, rfl⟩
    have hsome : (RecognizerSet.standard.get? r.kind).isSome := by
      rw [RecognizerSet.get?, List.find?_isSome]
      exact ⟨r, hr, beq_self_eq_true _⟩
    obtain ⟨r', hr'⟩ := Option.isSome_iff_exists.mp hsome
    have hkind : r'.kind = r.kind := by simpa using List.find?_some hr'
    rw [hr', eq_of_kind_eq (List.mem_of_find?_eq_some hr') hr hkind]

end Recognizer

namespace Scene

variable {s : Scene} {kind : PatternKind} {e e' : PatternEvidence}

/-- The evidence for a kind, if the recognizer that `get?` finds has any. -/
def evidenceFor? (s : Scene) (kind : PatternKind) : Option PatternEvidence :=
  (RecognizerSet.standard.get? kind).bind (Matcher.evidence? s)

theorem evidenceFor?_eq_some_iff : s.evidenceFor? kind = some e ↔ s.Recognizes kind e := by
  simp only [evidenceFor?, Option.bind_eq_some_iff, Recognizer.get?_eq_some_iff, Recognizes,
    and_assoc]
  refine exists_congr fun r => and_congr_right fun _ => and_congr_right fun _ => ?_
  unfold Matcher.evidence?
  cases r.recognize s <;> simp

theorem evidenceFor?_eq_none_iff : s.evidenceFor? kind = none ↔ ∀ e, ¬ s.Recognizes kind e := by
  simp only [← evidenceFor?_eq_some_iff, Option.eq_none_iff_forall_ne_some]

theorem Recognizes.ne_unknown (h : s.Recognizes kind e) : kind ≠ .unknown := by
  obtain ⟨r, hr, rfl, -⟩ := h
  exact Recognizer.kind_ne_unknown hr

/-- A kind is recognized with one evidence only, the one of `evidenceFor?`. -/
theorem Recognizes.unique (h : s.Recognizes kind e) (h' : s.Recognizes kind e') : e = e' := by
  rw [← evidenceFor?_eq_some_iff] at h h'
  exact Option.some.inj (h.symm.trans h')

end Scene

/-! ## §2 The search -/

namespace Matcher

variable {s : Scene} {policy : PatternPolicy}

/-- The label under a kind, if `evidenceFor?` has evidence for it. -/
def labelFor? (s : Scene) (kind : PatternKind) : Option PatternClassification :=
  (s.evidenceFor? kind).map (PatternClassification.mk kind)

theorem labelFor?_eq_some_iff {kind : PatternKind} {c : PatternClassification} :
    labelFor? s kind = some c ↔ c.kind = kind ∧ s.Recognizes kind c.evidence := by
  simp only [labelFor?, Option.map_eq_some_iff, Scene.evidenceFor?_eq_some_iff]
  constructor
  · rintro ⟨e, he, rfl⟩
    exact ⟨rfl, he⟩
  · rintro ⟨rfl, he⟩
    exact ⟨c.evidence, he, rfl⟩

/-- A kind gives no label exactly where nothing `Recognizes` it. -/
theorem labelFor?_eq_none_iff {kind : PatternKind} :
    labelFor? s kind = none ↔ ∀ e, ¬ s.Recognizes kind e := by
  rw [labelFor?, Option.map_eq_none_iff, Scene.evidenceFor?_eq_none_iff]

/-- **A policy is a search**: `classify` looks for the patterns in the order of the policy, whatever
it lists. -/
theorem classify_eq (policy : PatternPolicy) (s : Scene) :
    (ofPolicy policy).classify s =
      (policy.order.findSome? (labelFor? s)).getD (.unknown "No recognizer matched this loop") := by
  -- The policy drops kinds without a recognizer beforehand; the search would pass over them anyway.
  have hsearch : ∀ kinds : List PatternKind,
      ((kinds.filter (· != .unknown)).filterMap RecognizerSet.standard.get?).findSome?
        (fun r => (evidence? s r).map (PatternClassification.mk r.kind)) =
      kinds.findSome? (labelFor? s) := by
    intro kinds
    induction kinds with
    | nil => rfl
    | cons kind kinds ih =>
      cases hget : RecognizerSet.standard.get? kind with
      | none =>
        -- Nothing recognizes the kind; `unknown` is passed over beforehand.
        have hnone : labelFor? s kind = none := by simp [labelFor?, Scene.evidenceFor?, hget]
        rw [List.findSome?_cons, hnone, ← ih, List.filter_cons]
        split
        · rw [List.filterMap_cons_none hget]
        · rfl
      | some r =>
        obtain ⟨hr, rfl⟩ := Recognizer.get?_eq_some_iff.mp hget
        have hlabel : labelFor? s r.kind =
            (evidence? s r).map (PatternClassification.mk r.kind) := by
          simp [labelFor?, Scene.evidenceFor?, hget]
        have hkind : (r.kind != .unknown) = true := by simpa using Recognizer.kind_ne_unknown hr
        rw [List.filter_cons, if_pos hkind, List.filterMap_cons_some hget, List.findSome?_cons,
          List.findSome?_cons, hlabel, ih]
  unfold classify
  rw [← hsearch]
  rfl

/-- A kind that a search through `labelFor?` finds is never `unknown`. -/
private theorem ne_unknown_of_search {kinds : List PatternKind} {c : PatternClassification}
    (h : kinds.findSome? (labelFor? s) = some c) : c.kind ≠ .unknown := by
  obtain ⟨kind, -, hlabel⟩ := List.exists_of_findSome?_eq_some h
  obtain ⟨rfl, he⟩ := labelFor?_eq_some_iff.mp hlabel
  exact he.ne_unknown

/-- **The first match gives the label**: `classify` takes the first kind that `Recognizes` the loop,
with the evidence for it. -/
theorem classify_eq_iff {kind : PatternKind} {e : PatternEvidence} :
    (ofPolicy policy).classify s = ⟨kind, e⟩ ∧ kind ≠ .unknown ↔
      ∃ before after, policy.order = before ++ kind :: after ∧ s.Recognizes kind e ∧
        ∀ earlier ∈ before, ∀ e', ¬ s.Recognizes earlier e' := by
  -- A label other than `unknown` comes from the search, not from its default.
  have hfound : (ofPolicy policy).classify s = ⟨kind, e⟩ ∧ kind ≠ .unknown ↔
      policy.order.findSome? (labelFor? s) = some ⟨kind, e⟩ := by
    rw [classify_eq]
    constructor
    · rintro ⟨hclassify, hkind⟩
      cases hsearch : policy.order.findSome? (labelFor? s) with
      | none =>
        rw [hsearch] at hclassify
        exact absurd (congrArg PatternClassification.kind hclassify).symm hkind
      | some c =>
        rw [hsearch, Option.getD_some] at hclassify
        rw [hclassify]
    · intro hsearch
      exact ⟨by rw [hsearch, Option.getD_some], ne_unknown_of_search hsearch⟩
  rw [hfound, List.findSome?_eq_some_iff]
  simp only [labelFor?_eq_some_iff, labelFor?_eq_none_iff]
  constructor
  · rintro ⟨before, _, after, horder, ⟨rfl, he⟩, hbefore⟩
    exact ⟨before, after, horder, he, hbefore⟩
  · rintro ⟨before, after, horder, he, hbefore⟩
    exact ⟨before, kind, after, horder, ⟨rfl, he⟩, hbefore⟩

/-- **A loop has no label** exactly when nothing that the policy lists is in `Recognizes`. -/
theorem classify_unknown_iff :
    ((ofPolicy policy).classify s).kind = .unknown ↔
      ∀ kind ∈ policy.order, ∀ e, ¬ s.Recognizes kind e := by
  simp only [← labelFor?_eq_none_iff, ← List.findSome?_eq_none_iff]
  rw [classify_eq]
  cases hsearch : policy.order.findSome? (labelFor? s) with
  | none => exact iff_of_true rfl rfl
  | some c => exact iff_of_false (ne_unknown_of_search hsearch) (by simp)

/-- Where one kind alone matches, `classify` gives it under every policy that lists it. -/
theorem classify_of_lone {kind : PatternKind} {e : PatternEvidence} (hkind : kind ∈ policy.order)
    (he : s.Recognizes kind e)
    (hlone : ∀ other ∈ policy.order, ∀ e', s.Recognizes other e' → other = kind) :
    (ofPolicy policy).classify s = ⟨kind, e⟩ := by
  have hlabelled : ((ofPolicy policy).classify s).kind ≠ .unknown := by
    rw [Ne, classify_unknown_iff]
    exact fun hnone => hnone kind hkind e he
  obtain ⟨before, after, horder, hfound, -⟩ := classify_eq_iff.mp ⟨rfl, hlabelled⟩
  have hlisted : ((ofPolicy policy).classify s).kind ∈ policy.order := by
    rw [horder]
    exact List.mem_append_right before List.mem_cons_self
  -- The label is a listed kind that matches, so it is the only one.
  have hsame : ((ofPolicy policy).classify s).kind = kind := hlone _ hlisted _ hfound
  have hevidence : ((ofPolicy policy).classify s).evidence = e := (hsame ▸ hfound).unique he
  rw [← hsame, ← hevidence]

end Matcher

/-! ## §3 What a policy changes -/

/-- **Policies choose labels and change no facts.** Under any two policies the `LoopFacts` of a loop
agree on its place in the nest, its memory profile, its dependences, whether it is vectorized and
how far its label is trusted. The label is the first kind in the order of the policy that
`Recognizes` the loop, with the evidence for it, and `unknown` exactly when none does. So two
policies that list the same kinds leave the same loops without a label, and agree on a loop that
only one of these kinds matches. -/
theorem LoopFacts.policy_chooses_label (p q : PatternPolicy) (lp : Loop) :
    let under := fun policy => LoopFacts.of (.ofPolicy policy) lp
    let s := Scene.of lp
    ((under p).nesting = (under q).nesting ∧ (under p).memory = (under q).memory ∧
      (under p).dependence = (under q).dependence ∧
      (under p).vectorization = (under q).vectorization ∧
      (under p).confidence.score = (under q).confidence.score) ∧
    (∀ kind e, (under p).classification = ⟨kind, e⟩ ∧ kind ≠ .unknown ↔
      ∃ before after, p.order = before ++ kind :: after ∧ s.Recognizes kind e ∧
        ∀ earlier ∈ before, ∀ e', ¬ s.Recognizes earlier e') ∧
    ((under p).classification.kind = .unknown ↔ ∀ kind ∈ p.order, ∀ e, ¬ s.Recognizes kind e) ∧
    ((∀ kind, kind ∈ p.order ↔ kind ∈ q.order) →
      ((under p).classification.kind = .unknown ↔ (under q).classification.kind = .unknown) ∧
      ((∃! kind, kind ∈ p.order ∧ ∃ e, s.Recognizes kind e) →
        (under p).classification = (under q).classification)) := by
  intro under s
  refine ⟨⟨rfl, rfl, rfl, rfl, rfl⟩, fun kind e => Matcher.classify_eq_iff,
    Matcher.classify_unknown_iff, fun hsame => ⟨?_, ?_⟩⟩
  · show ((Matcher.ofPolicy p).classify s).kind = .unknown ↔
      ((Matcher.ofPolicy q).classify s).kind = .unknown
    rw [Matcher.classify_unknown_iff, Matcher.classify_unknown_iff]
    exact forall_congr' fun kind => by rw [hsame kind]
  · -- The kind that matches alone is listed by both.
    rintro ⟨kind, ⟨hkind, e, he⟩, hlone⟩
    have hp : (under p).classification = ⟨kind, e⟩ :=
      Matcher.classify_of_lone hkind he fun other hother e' he' => hlone other ⟨hother, e', he'⟩
    have hq : (under q).classification = ⟨kind, e⟩ :=
      Matcher.classify_of_lone ((hsame kind).mp hkind) he fun other hother e' he' =>
        hlone other ⟨(hsame other).mpr hother, e', he'⟩
    rw [hp, hq]

/-- `for i: total += A[i] * A[i]`, with the total in a register. -/
def Loop.sumOfSquares : Loop :=
  straight ⟨0⟩ [
    .phi ⟨0⟩ [(.int 0, ⟨0⟩), (.value ⟨6⟩, ⟨1⟩)],
    .phi ⟨1⟩ [(.int 0, ⟨0⟩), (.value ⟨5⟩, ⟨1⟩)],
    .elementPtr ⟨2⟩ (.symbol "A") [.value ⟨0⟩],
    .load ⟨3⟩ (.value ⟨2⟩),
    .binary ⟨4⟩ .mul (.value ⟨3⟩) (.value ⟨3⟩),
    .binary ⟨5⟩ .add (.value ⟨1⟩) (.value ⟨4⟩),
    .binary ⟨6⟩ .add (.value ⟨0⟩) (.int 1)]

/-- A sum of squares is a norm or a plain reduction, as the policy prefers. -/
theorem LoopFacts.sumOfSquares_labels :
    let first : PatternPolicy := ⟨1, [.frobeniusNorm, .reduction, .map]⟩
    let second : PatternPolicy := ⟨2, [.map, .unknown, .reduction, .frobeniusNorm, .reduction]⟩
    let under := fun policy => LoopFacts.of (.ofPolicy policy) Loop.sumOfSquares
    (under first).classification.kind = .frobeniusNorm ∧
      (under second).classification.kind = .reduction ∧
      (under first).memory = (under second).memory ∧
      ∃ e, (Scene.of Loop.sumOfSquares).Recognizes .reduction e := by
  intro first second under
  have hfirst : (under first).classification.kind = .frobeniusNorm := by decide +kernel
  have hsecond : (under second).classification.kind = .reduction := by decide +kernel
  have hlabelled : (under second).classification.kind ≠ .unknown := by
    rw [hsecond]
    decide
  obtain ⟨⟨-, hmemory, -⟩, -⟩ := policy_chooses_label first second Loop.sumOfSquares
  obtain ⟨-, hlabel, -⟩ := policy_chooses_label second first Loop.sumOfSquares
  obtain ⟨before, after, -, he, -⟩ := (hlabel _ _).mp ⟨rfl, hlabelled⟩
  exact ⟨hfirst, hsecond, hmemory, _, hsecond ▸ he⟩

end LoopAnalysis
