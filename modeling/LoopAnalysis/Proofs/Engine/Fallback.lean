import LoopAnalysis.Engine
import LoopAnalysis.Proofs.Classifier.Batches
import LoopAnalysis.Proofs.Dependence.Independence

/-!
# Reports without an opinion

The outcomes of a run come in one list and are dealt out to the loops of all functions. The loop at
a place of a function gets the outcome behind those of all loops before it, also when there are
functions without loops in between. So a classifier that is not there, or never comes to an
opinion, leaves every report as the static analyses have it, but for the remark that it was asked
in vain.

## Main definitions

- `Engine.loopsBefore`: how many loops there are in the functions before one;
- `LoopReport.askedInVain`: a report with the remark that there is no opinion.

## Main statements

- `Engine.getElem?_functionReports`: which outcomes the report on a function is made from;
- `Engine.analyzeFunctions_falls_back`: reports without a classifier, and without an opinion.
-/

namespace LoopAnalysis

/-! ## §1 Dealing out outcomes -/

namespace Engine

variable {σ : Type} (e : Engine σ)

/-- How many loops there are in the functions before the one at position `k`. -/
def loopsBefore {α : Type} (functions : List (List α)) (k : Nat) : Nat :=
  (functions.take k).flatten.length

section Positions

variable {α : Type} {functions : List (List α)} {loops : List α} {k : Nat}

theorem loopsBefore_cons_succ (loops : List α) (rest : List (List α)) (k : Nat) :
    loopsBefore (loops :: rest) (k + 1) = loops.length + loopsBefore rest k := by
  simp [loopsBefore]

theorem loopsBefore_map {β : Type} (f : α → β) (functions : List (List α)) (k : Nat) :
    loopsBefore (functions.map (·.map f)) k = loopsBefore functions k := by
  rw [loopsBefore, loopsBefore, ← List.map_take, ← List.map_flatten, List.length_map]

/-- The loops of a function stand between those of the functions before and behind it. -/
theorem flatten_eq_of_getElem? (hk : functions[k]? = some loops) :
    functions.flatten =
      (functions.take k).flatten ++ (loops ++ (functions.drop (k + 1)).flatten) := by
  obtain ⟨hlt, rfl⟩ := List.getElem?_eq_some_iff.mp hk
  rw [← List.flatten_cons, List.getElem_cons_drop, ← List.flatten_append, List.take_append_drop]

theorem loopsBefore_add_length_le (hk : functions[k]? = some loops) :
    loopsBefore functions k + loops.length ≤ functions.flatten.length := by
  rw [flatten_eq_of_getElem? hk, List.length_append, List.length_append, loopsBefore]
  omega

/-- They are what is left of all loops without those before and behind. -/
theorem take_drop_loopsBefore (hk : functions[k]? = some loops) :
    (functions.flatten.drop (loopsBefore functions k)).take loops.length = loops := by
  rw [flatten_eq_of_getElem? hk, loopsBefore, List.drop_left, List.take_left]

end Positions

/-- **The report at position `k` of `functionReports` is made from the outcomes behind those of the
functions before it**, one for each of its loops. -/
theorem getElem?_functionReports (analyses : List (List LoopFacts)) (outcomes : List Outcome)
    (k : Nat) :
    (e.functionReports analyses outcomes)[k]? = analyses[k]?.map fun own =>
      e.functionReport own
        ((List.range own.length).map fun j => outcomes[loopsBefore analyses k + j]?) := by
  -- Induct on the functions, with the outcomes that are left for them.
  induction analyses generalizing outcomes k with
  | nil => simp [functionReports]
  | cons own rest ih =>
    rw [functionReports]
    cases k with
    | zero => simp [loopsBefore]
    | succ k =>
      -- The first function has used up as many outcomes as it has loops.
      rw [List.getElem?_cons_succ, ih, List.getElem?_cons_succ]
      simp only [List.getElem?_drop, loopsBefore_cons_succ, Nat.add_assoc]

theorem length_functionReports (analyses : List (List LoopFacts)) (outcomes : List Outcome) :
    (e.functionReports analyses outcomes).length = analyses.length := by
  induction analyses generalizing outcomes with
  | nil => rfl
  | cons own rest ih => rw [functionReports, List.length_cons, ih, List.length_cons]

/-- The part of the `outcomes` that is dealt to the loops of a function. -/
def dealt (functions : List (List Loop)) (outcomes : List Outcome) (k : Nat) (loops : List Loop) :
    List Outcome :=
  (outcomes.drop (loopsBefore functions k)).take loops.length

section Enough

variable {functions : List (List Loop)} {loops : List Loop} {outcomes : List Outcome} {k : Nat}

theorem length_dealt (henough : outcomes.length = functions.flatten.length)
    (hk : functions[k]? = some loops) :
    (dealt functions outcomes k loops).length = loops.length := by
  have hroom := loopsBefore_add_length_le hk
  rw [dealt, List.length_take, List.length_drop]
  omega

theorem getElem?_dealt {j : Nat} (hj : j < loops.length) :
    (dealt functions outcomes k loops)[j]? = outcomes[loopsBefore functions k + j]? := by
  rw [dealt, List.getElem?_take_of_lt hj, List.getElem?_drop]

/-- Where there is an outcome for every loop, none goes without. -/
theorem functionReports_of_enough (henough : outcomes.length = functions.flatten.length)
    (hk : functions[k]? = some loops) :
    (e.functionReports (e.facts functions) outcomes)[k]? =
      some (e.functionReport (loops.map e.analyzer.facts)
        ((dealt functions outcomes k loops).map some)) := by
  rw [getElem?_functionReports, facts, List.getElem?_map, hk, Option.map_some, Option.map_some,
    List.length_map, loopsBefore_map]
  congr 2
  apply List.ext_getElem?
  intro j
  rw [List.getElem?_map, List.getElem?_map]
  -- Places of loops have an outcome; behind them there is neither loop nor outcome.
  by_cases hj : j < loops.length
  · have hsome : j < (dealt functions outcomes k loops).length := by
      rwa [length_dealt henough hk]
    rw [List.getElem?_range hj, Option.map_some, ← getElem?_dealt hj,
      List.getElem?_eq_getElem hsome, Option.map_some]
  · rw [List.getElem?_eq_none (by simpa using hj),
      List.getElem?_eq_none (by rw [length_dealt henough hk]; omega)]
    rfl

end Enough

theorem candidates_facts (functions : List (List Loop)) :
    candidates (e.facts functions) =
      functions.flatten.map fun lp => (e.analyzer.facts lp).candidate := by
  rw [candidates, facts, ← List.map_flatten, List.map_map]
  rfl

end Engine

/-! ## §2 Counting outcomes -/

@[simp] theorem Outcome.opinion?_opinion (o : Opinion) :
    (Outcome.opinion o).opinion? = some o := rfl

@[simp] theorem Outcome.opinion?_unavailable (reason : Unavailable) :
    (Outcome.unavailable reason).opinion? = none := rfl

theorem Outcome.eq_unavailable_of_opinion? {o : Outcome} (h : o.opinion? = none) :
    ∃ reason, o = .unavailable reason := by
  cases o with
  | opinion => cases h
  | unavailable reason => exact ⟨reason, rfl⟩

namespace Engine

theorem countOpinions_eq_zero {outcomes : List Outcome}
    (h : ∀ o ∈ outcomes, o.opinion? = none) : countOpinions (outcomes.map some) = 0 := by
  rw [countOpinions, List.length_eq_zero_iff, List.filter_eq_nil_iff]
  intro o ho
  obtain ⟨out, hout, rfl⟩ := List.mem_map.mp ho
  simp [h out hout]

/-- An outcome counts as an opinion or as the lack of one, in `countOpinions` or in
`countUnavailable`. -/
theorem countOpinions_add_countUnavailable (outcomes : List Outcome) :
    countOpinions (outcomes.map some) + countUnavailable (outcomes.map some) = outcomes.length := by
  induction outcomes with
  | nil => rfl
  | cons o rest ih =>
    simp only [countOpinions, countUnavailable, List.map_cons] at ih ⊢
    -- The first outcome is kept by exactly one of the two filters.
    cases o with
    | opinion =>
      rw [List.filter_cons_of_pos rfl, List.filter_cons_of_neg (by simp), List.length_cons,
        List.length_cons]
      omega
    | unavailable =>
      rw [List.filter_cons_of_neg (by simp), List.filter_cons_of_pos rfl, List.length_cons,
        List.length_cons]
      omega

end Engine

/-! ## §3 Reports without an opinion -/

/-- The report with the remark that a classifier was asked in vain, for the given `reason`. -/
def LoopReport.askedInVain (r : LoopReport) (reason : Unavailable) : LoopReport :=
  { r with
    verdict :=
      { r.verdict with
        unavailable := some reason
        riskAssessment := r.verdict.riskAssessment ++
          ("; external classifier unavailable (" ++ reason.text ++ ")") } }

theorem Analyzer.finish_unavailable (a : Analyzer) (facts : LoopFacts) (reason : Unavailable) :
    a.finish facts (some (.unavailable reason)) = (a.finish facts none).askedInVain reason := by
  simp [finish, LoopReport.askedInVain, Verdict.combine, Verdict.staticOnly]

namespace Engine

variable {σ : Type} {e : Engine σ} {functions : List (List Loop)} {s : AdapterState σ}

/-- The outcomes for all loops of a run, as `classifyBatch` gives them. -/
def outcomes (e : Engine σ) (functions : List (List Loop)) (s : AdapterState σ) : List Outcome :=
  (e.adapter.classifyBatch (candidates (e.facts functions)) s).1

theorem length_outcomes {classifier : Classifier σ}
    (hactive : e.adapter.active? = some classifier) :
    (e.outcomes functions s).length = functions.flatten.length := by
  rw [outcomes, Adapter.length_classifyBatch hactive, candidates_facts, List.length_map]

theorem analyzeFunctions_of_active {classifier : Classifier σ}
    (hactive : e.adapter.active? = some classifier) :
    (e.analyzeFunctions functions s).1 =
      e.functionReports (e.facts functions) (e.outcomes functions s) := by
  simp [analyzeFunctions, Adapter.isAvailable, hactive, outcomes]

/-- A `functionReport` for which there are no outcomes is the static one. -/
theorem functionReport_of_none (loops : List Loop) :
    e.functionReport (loops.map e.analyzer.facts) (List.replicate loops.length none) =
      e.analyzeFunction loops := by
  -- Without an outcome each loop is finished as it is analyzed alone.
  have hloops : List.zipWith e.analyzer.finish (loops.map e.analyzer.facts)
      (List.replicate loops.length none) = loops.map e.analyzer.analyze := by
    induction loops with
    | nil => rfl
    | cons lp rest ih =>
      rw [List.length_cons, List.replicate_succ, List.map_cons, List.zipWith_cons_cons, ih,
        List.map_cons]
      rfl
  rw [functionReport, hloops, analyzeFunction, analyzeLoops]
  simp [countOpinions, countUnavailable]

theorem functionReports_nil (functions : List (List Loop)) :
    e.functionReports (e.facts functions) [] = functions.map e.analyzeFunction := by
  induction functions with
  | nil => rfl
  | cons loops rest ih =>
    rw [facts] at ih ⊢
    rw [List.map_cons, functionReports, List.drop_nil, ih, List.map_cons,
      ← functionReport_of_none loops]
    simp [List.map_const']

theorem analyzeFunctions_of_inactive (hinactive : e.adapter.active? = none) :
    e.analyzeFunctions functions s = (functions.map e.analyzeFunction, s) := by
  simp [analyzeFunctions, Adapter.isAvailable, hinactive, functionReports_nil]

/-- Where no outcome has an opinion, every loop of a function is `askedInVain` for the reason at its
place. -/
theorem functionReport_of_unavailable {loops : List Loop} {outcomes : List Outcome}
    (hlength : outcomes.length = loops.length) (hnone : ∀ o ∈ outcomes, o.opinion? = none) :
    (e.functionReport (loops.map e.analyzer.facts) (outcomes.map some)).classifier =
        { (e.analyzeFunction loops).classifier with unavailable := loops.length } ∧
      (e.functionReport (loops.map e.analyzer.facts) (outcomes.map some)).loops.length =
        loops.length ∧
      ∀ (j : Nat) (lp : Loop), loops[j]? = some lp →
        ∃ reason, outcomes[j]? = some (Outcome.unavailable reason) ∧
          (e.functionReport (loops.map e.analyzer.facts) (outcomes.map some)).loops[j]? =
            some ((e.analyzer.analyze lp).askedInVain reason) := by
  refine ⟨?_, ?_, ?_⟩
  · -- Of the two counts one is zero, so the other counts all loops.
    have hopinions := countOpinions_eq_zero hnone
    have hall := countOpinions_add_countUnavailable outcomes
    rw [hopinions, Nat.zero_add] at hall
    rw [functionReport, hopinions, hall, hlength]
    rfl
  · simp [functionReport, hlength]
  · intro j lp hj
    have hlt : j < outcomes.length := by
      rw [hlength]
      exact (List.getElem?_eq_some_iff.mp hj).1
    obtain ⟨reason, hreason⟩ :=
      Outcome.eq_unavailable_of_opinion? (hnone outcomes[j] (List.getElem_mem hlt))
    have ho : outcomes[j]? = some (.unavailable reason) := by
      rw [List.getElem?_eq_getElem hlt, hreason]
    refine ⟨reason, ho, ?_⟩
    simp [functionReport, List.getElem?_zipWith, hj, ho, Analyzer.finish_unavailable,
      Analyzer.analyze]

/-- **Without an opinion the reports are the static ones.** Where there is no classifier or it is
not enabled, the report on every function is the one of `analyzeFunction` and nothing is asked.
Where there is one and none of the outcomes has an opinion, there is again a report on every
function. Its status is that of the static report but for the number of loops without an opinion,
which is that of all of its loops; and the report on every loop is the static one with the remark
that the classifier was `askedInVain`, for the reason in the outcome at the place of the loop. -/
theorem analyzeFunctions_falls_back (e : Engine σ) (functions : List (List Loop))
    (s : AdapterState σ) :
    (e.adapter.classifier = none ∨ e.adapter.settings.enabled = false →
      e.analyzeFunctions functions s = (functions.map e.analyzeFunction, s)) ∧
    (e.adapter.isAvailable = true → (∀ o ∈ e.outcomes functions s, o.opinion? = none) →
      (e.analyzeFunctions functions s).1.length = functions.length ∧
      ∀ (k : Nat) (loops : List Loop), functions[k]? = some loops →
        ∃ report, (e.analyzeFunctions functions s).1[k]? = some report ∧
          report.classifier =
            { (e.analyzeFunction loops).classifier with unavailable := loops.length } ∧
          report.loops.length = loops.length ∧
          ∀ (j : Nat) (lp : Loop), loops[j]? = some lp → ∃ reason,
            (e.outcomes functions s)[loopsBefore functions k + j]? = some (.unavailable reason) ∧
            report.loops[j]? = some ((e.analyzer.analyze lp).askedInVain reason)) := by
  constructor
  · intro hinactive
    apply analyzeFunctions_of_inactive
    -- Either way there is nobody to ask.
    rcases hinactive with hnone | hdisabled
    · simp [Adapter.active?, hnone]
    · simp [Adapter.active?, hdisabled]
  · intro havailable hnone
    obtain ⟨classifier, hactive⟩ := Option.isSome_iff_exists.mp havailable
    rw [analyzeFunctions_of_active hactive]
    refine ⟨by rw [length_functionReports, facts, List.length_map], ?_⟩
    intro k loops hk
    have henough : (e.outcomes functions s).length = functions.flatten.length :=
      length_outcomes hactive
    -- What is dealt to one function is part of all outcomes, so it has no opinion either.
    have hdealt : ∀ o ∈ dealt functions (e.outcomes functions s) k loops, o.opinion? = none := by
      intro o ho
      exact hnone o (List.mem_of_mem_drop (List.mem_of_mem_take ho))
    obtain ⟨hstatus, hlength, hloops⟩ :=
      functionReport_of_unavailable (e := e) (length_dealt henough hk) hdealt
    refine ⟨_, e.functionReports_of_enough henough hk, hstatus, hlength, ?_⟩
    intro j lp hj
    rw [← getElem?_dealt (List.getElem?_eq_some_iff.mp hj).1]
    exact hloops j lp hj

end Engine

namespace Script

/-- An engine that sends two loops at a time to a scripted classifier. -/
def paired : Engine (List Reply) :=
  { config := {}, analyzer := { matcher := .ofPolicy .standard }, adapter := inPairs }

/-- Three loops in three functions, the second of which has none. -/
def threeLoops : List (List Loop) := [[Loop.evenFromOdd, Loop.evenFromOdd], [], [Loop.evenFromOdd]]

/-- One reply, which comes too late. -/
def late : List Reply := [{ delayMs := 60000, body := .ok "[]" }]

theorem outcomes_late : paired.outcomes threeLoops (inPairs.start late) =
    [.unavailable .timeout, .unavailable .timeout, .unavailable .unreachable] := by
  rw [Engine.outcomes, Engine.candidates_facts]
  simp [Adapter.classifyBatch, paired, inPairs, Adapter.active?, Adapter.ofClassifier, threeLoops,
    Adapter.chunksOf, Adapter.classifyChunks, Adapter.chunkOutcomes, late, Adapter.start,
    classifier, next, Reply.within, ClassifierSettings.patience, ClassifierError.reason]

/-- The theorem at three loops: the first two are waited for in vain, and when the third is asked
about there is nobody left. -/
theorem paired_falls_back :
    ∃ report, (paired.analyzeFunctions threeLoops (inPairs.start late)).1[2]? = some report ∧
      report.classifier.unavailable = 1 ∧
      report.loops[0]? =
        some ((paired.analyzer.analyze Loop.evenFromOdd).askedInVain .unreachable) := by
  obtain ⟨-, hvain⟩ := Engine.analyzeFunctions_falls_back paired threeLoops (inPairs.start late)
  obtain ⟨-, hreports⟩ := hvain rfl (by simp [outcomes_late])
  obtain ⟨report, hreport, hstatus, -, hloops⟩ := hreports 2 [Loop.evenFromOdd] rfl
  obtain ⟨reason, hreason, hloop⟩ := hloops 0 Loop.evenFromOdd rfl
  rw [outcomes_late] at hreason
  obtain rfl : Unavailable.unreachable = reason := by
    simpa [Engine.loopsBefore, threeLoops] using hreason
  exact ⟨report, hreport, by rw [hstatus]; rfl, hloop⟩

end Script

end LoopAnalysis
