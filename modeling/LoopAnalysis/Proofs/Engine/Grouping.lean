import LoopAnalysis.Proofs.Engine.Fallback
import LoopAnalysis.Proofs.Opinion.Documents

/-!
# Reports do not depend on how loops are grouped

All loops of a run are put to the classifier together, in chunks that take no notice of where one
function ends and the next begins. If the classifier's entry for a candidate depends on nothing but
the candidate, then so does the outcome of every loop: neither the size of the chunks nor the other
functions of the run make a difference to a report.

## Main definitions

- `Classifier.AnswersBy`: a classifier whose entries depend on the candidates alone;
- `Engine.reportBy`: the report on a function whose loops get the answers to their own candidates.

## Main statements

- `Adapter.classifyBatch_of_answersBy`: the outcomes of a batch, candidate by candidate;
- `Engine.analyzeFunctions_of_answersBy`: the reports of a run, function by function;
- `Engine.reports_independent_of_grouping`: chunks and other functions make no difference.
-/

namespace LoopAnalysis

/-! ## §1 Batches -/

/-- **The entry for a candidate depends on the candidate alone.**  Whichever stretch of the
candidates it is asked about, and in whatever state, the classifier answers in time, with a document
and nothing around it, in which every candidate has its own entry. -/
def Classifier.AnswersBy {σ : Type} (classifier : Classifier σ) (patience : Nat)
    (candidates : List Candidate) (answer : Candidate → Option Json) : Prop :=
  ∀ chunk state, chunk ≠ [] → chunk <:+: candidates → ∃ raw document,
    (classifier.askBatch chunk state).1.within patience = .ok raw ∧ BareDocument raw document ∧
    ∀ (i : Nat) (c : Candidate), chunk[i]? = some c → EntryFor i document (answer c)

section Batches

variable {σ : Type} {classifier : Classifier σ} {patience : Nat} {candidates own : List Candidate}
  {answer : Candidate → Option Json}

theorem Classifier.AnswersBy.of_isInfix (h : classifier.AnswersBy patience candidates answer)
    (hown : own <:+: candidates) : classifier.AnswersBy patience own answer := by
  intro chunk state hne hchunk
  exact h chunk state hne (hchunk.trans hown)

/-- Every candidate has the outcome of its own entry, by `entryOutcome`. -/
theorem Adapter.classifyBatch_of_answersBy {a : Adapter σ} {s : AdapterState σ}
    (hactive : a.active? = some classifier)
    (h : classifier.AnswersBy a.settings.patience candidates answer) :
    (a.classifyBatch candidates s).1 = candidates.map fun c => entryOutcome (answer c) := by
  have hlength : (a.classifyBatch candidates s).1.length = candidates.length :=
    length_classifyBatch hactive
  apply List.ext_getElem?
  intro k
  by_cases hk : k < candidates.length
  · have hc := List.getElem?_eq_getElem hk
    have ho := List.getElem?_eq_getElem (hlength.symm ▸ hk)
    obtain ⟨r, hr, hanswers⟩ := answers_of_classifyBatch hactive ho
    obtain ⟨chunk, reached, hchunk, hplace, hreply⟩ :=
      a.asked_with_chunk classifier candidates hc s.inner
    obtain rfl := Option.some.inj (hr.symm.trans hreply)
    have hne : chunk ≠ [] := by
      rintro rfl
      cases hplace
    have hstretch : chunk <:+: candidates := by
      rw [hchunk]
      exact (List.take_prefix _ _).isInfix.trans (List.drop_suffix _ _).isInfix
    -- The reply has a document with an entry for the candidate, and no other answer.
    obtain ⟨raw, document, hraw, hbare, hentries⟩ := h chunk reached hne hstretch
    have hentry := Reply.Answers.entry hraw hbare.parseValue_extractDocument (hentries _ _ hplace)
    rw [ho, hanswers.unique hentry, List.getElem?_map, hc, Option.map_some]
  · rw [List.getElem?_eq_none (by omega), List.getElem?_eq_none (by rw [List.length_map]; omega)]

end Batches

/-! ## §2 Runs -/

namespace Engine

variable {σ : Type} {e : Engine σ} {classifier : Classifier σ} {answer : Candidate → Option Json}
  {functions : List (List Loop)} {s : AdapterState σ}

/-- The outcome of a loop for which the classifier has the `answer` to its candidate. -/
def ownOutcome (e : Engine σ) (answer : Candidate → Option Json) (lp : Loop) : Outcome :=
  entryOutcome (answer (e.analyzer.facts lp).candidate)

/-- The report on a function whose loops each get their `ownOutcome`. -/
def reportBy (e : Engine σ) (answer : Candidate → Option Json) (loops : List Loop) :
    FunctionReport :=
  e.functionReport (loops.map e.analyzer.facts) ((loops.map (e.ownOutcome answer)).map some)

theorem outcomes_of_answersBy (hactive : e.adapter.active? = some classifier)
    (h : classifier.AnswersBy e.adapter.settings.patience (candidates (e.facts functions)) answer) :
    e.outcomes functions s = functions.flatten.map (e.ownOutcome answer) := by
  rw [outcomes, Adapter.classifyBatch_of_answersBy hactive h, candidates_facts, List.map_map]
  rfl

/-- **The reports of a run, function by function**: each is `reportBy` the answers to its
candidates. -/
theorem analyzeFunctions_of_answersBy (hactive : e.adapter.active? = some classifier)
    (h : classifier.AnswersBy e.adapter.settings.patience (candidates (e.facts functions)) answer) :
    (e.analyzeFunctions functions s).1 = functions.map (e.reportBy answer) := by
  have henough : (e.outcomes functions s).length = functions.flatten.length :=
    length_outcomes hactive
  rw [analyzeFunctions_of_active hactive]
  apply List.ext_getElem?
  intro k
  cases hk : functions[k]? with
  | none =>
    rw [List.getElem?_map, hk, Option.map_none, getElem?_functionReports, facts,
      List.getElem?_map, hk]
    rfl
  | some loops =>
    -- The outcomes dealt to a function are those of its own loops.
    have hdealt : dealt functions (e.outcomes functions s) k loops =
        loops.map (e.ownOutcome answer) := by
      rw [dealt, outcomes_of_answersBy hactive h, ← List.map_drop, ← List.map_take,
        take_drop_loopsBefore hk]
    rw [e.functionReports_of_enough henough hk, hdealt, List.getElem?_map, hk]
    rfl

theorem analyzeFunctionWith_of_answersBy {loops : List Loop}
    (hactive : e.adapter.active? = some classifier)
    (h : classifier.AnswersBy e.adapter.settings.patience (candidates (e.facts [loops])) answer) :
    (e.analyzeFunctionWith loops s).1 = e.reportBy answer loops := by
  have hreports := analyzeFunctions_of_answersBy (s := s) hactive h
  simp [analyzeFunctionWith, hreports]

/-- The candidates of a function are a stretch of those of the run. -/
theorem candidates_isInfix {k : Nat} {loops : List Loop} (hk : functions[k]? = some loops) :
    candidates (e.facts [loops]) <:+: candidates (e.facts functions) := by
  rw [candidates_facts, candidates_facts, flatten_eq_of_getElem? hk]
  apply List.IsInfix.map
  exact ⟨(functions.take k).flatten, (functions.drop (k + 1)).flatten, by simp⟩

/-! ## §3 Grouping -/

/-- The engine that sends chunks of another `size`. -/
def withBatchSize (e : Engine σ) (size : Nat) : Engine σ :=
  { e with adapter := { e.adapter with settings := { e.adapter.settings with batchSize := size } } }

/-- **Reports do not depend on how loops are grouped.** Take a classifier whose entries depend on
the candidates alone (`AnswersBy`). The reports are the same whatever the size of the chunks and the
state from which the run starts. There is one for each function, and it is the one that comes out
when the function is put to the classifier on its own. It has the loops of the function in order,
each with the outcome of its own candidate, and every loop counts as having an opinion or lacking
one. -/
theorem reports_independent_of_grouping (e : Engine σ) (classifier : Classifier σ)
    (hactive : e.adapter.active? = some classifier) (functions : List (List Loop))
    (answer : Candidate → Option Json)
    (h : classifier.AnswersBy e.adapter.settings.patience (candidates (e.facts functions)) answer)
    (s : AdapterState σ) :
    (∀ (size : Nat) (t : AdapterState σ),
      ((e.withBatchSize size).analyzeFunctions functions t).1 =
        (e.analyzeFunctions functions s).1) ∧
    (e.analyzeFunctions functions s).1.length = functions.length ∧
    ∀ (k : Nat) (loops : List Loop), functions[k]? = some loops →
      ∃ report, (e.analyzeFunctions functions s).1[k]? = some report ∧
        (∀ t, (e.analyzeFunctionWith loops t).1 = report) ∧
        report.loops = loops.map (fun lp =>
          e.analyzer.finish (e.analyzer.facts lp) (some (e.ownOutcome answer lp))) ∧
        report.classifier.opinions + report.classifier.unavailable = loops.length := by
  have hreports := analyzeFunctions_of_answersBy (s := s) hactive h
  refine ⟨?_, by rw [hreports, List.length_map], ?_⟩
  · intro size t
    -- Neither the classifier nor its patience has changed.
    have hsized : (e.withBatchSize size).adapter.active? = some classifier := hactive
    rw [hreports, analyzeFunctions_of_answersBy hsized h]
    rfl
  · intro k loops hk
    refine ⟨e.reportBy answer loops, by rw [hreports, List.getElem?_map, hk, Option.map_some],
      ?_, ?_, ?_⟩
    · intro t
      exact analyzeFunctionWith_of_answersBy hactive (h.of_isInfix (candidates_isInfix hk))
    · rw [reportBy, functionReport, List.map_map, List.zipWith_map, List.zipWith_self]
      rfl
    · -- Each outcome is counted once, and there is one for each loop.
      have hcount := countOpinions_add_countUnavailable (loops.map (e.ownOutcome answer))
      rw [List.length_map] at hcount
      exact hcount

end Engine

/-! ## §4 A classifier that lists its entries -/

namespace Listing

/-- The entry for a loop of a function: one with a `quality` for `f`, an empty one for the others.
-/
def entry (function : String) : Json :=
  if function = "f" then .obj [("quality", .str "safe")] else .obj []

/-- The `entry` as text. -/
def entryText (function : String) : String :=
  if function = "f" then "\x7b\"quality\": \"safe\"\x7d" else "\x7b\x7d"

/-- A list of entries as text. -/
def listText (functions : List String) : String :=
  "[" ++ Text.join ", " (functions.map entryText) ++ "]"

/-- A classifier that lists its entries. -/
def classifier : Classifier Unit where
  name := "listing"
  ask _ state := ({ body := .error .notConfigured }, state)
  askBatch chunk state := ({ body := .ok (listText (chunk.map (·.function))) }, state)

/-- An engine with the `classifier` that lists its entries. -/
def engine : Engine Unit :=
  { config := {}, analyzer := { matcher := .ofPolicy .standard }
    adapter := .ofClassifier classifier { enabled := true } }

/-- A loop of a function. -/
def loopOf (function : String) : Loop := { Loop.evenFromOdd with functionName := function }

/-- One loop of `f`, a function without loops, and one loop of `g`. -/
def functions : List (List Loop) := [[loopOf "f"], [], [loopOf "g"]]

theorem bareDocument_of_isInfix {asked : List String} (hne : asked ≠ [])
    (h : asked <:+: ["f", "g"]) : BareDocument (listText asked) (.arr (asked.map entry)) := by
  -- There are only three stretches to ask about.
  have hcases : (∃ rest, asked = "f" :: rest ∧ (rest = [] ∨ rest = ["g"])) ∨ asked = ["g"] := by
    simpa [List.infix_cons_iff, List.prefix_cons_iff, hne] using h
  rcases hcases with ⟨_, rfl, rfl | rfl⟩ | rfl
  · exact ⟨by cbv, by cbv, by cbv⟩
  · exact ⟨by cbv, by cbv, by cbv⟩
  · exact ⟨by cbv, by cbv, by cbv⟩

theorem answersBy : classifier.AnswersBy engine.adapter.settings.patience
    (Engine.candidates (engine.facts functions)) (fun c => some (entry c.function)) := by
  intro chunk state hne hchunk
  have hbare : BareDocument (listText (chunk.map (·.function)))
      (.arr ((chunk.map (·.function)).map entry)) :=
    bareDocument_of_isInfix (by simpa using hne) (hchunk.map (·.function))
  refine ⟨_, _, rfl, hbare, ?_⟩
  intro i c hc
  have hentry : ((chunk.map (·.function)).map entry)[i]? = some (entry c.function) := by
    simp [hc]
  show EntryFor i _ (some (entry c.function))
  rw [← hentry]
  exact .listed _

/-- The theorem at two loops: sent one by one or together, the loop of `g` has the outcome of its
own entry, which names no quality. -/
theorem engine_ignores_grouping :
    ((engine.withBatchSize 1).analyzeFunctions functions (engine.adapter.start ())).1 =
        (engine.analyzeFunctions functions (engine.adapter.start ())).1 ∧
      ∃ report, (engine.analyzeFunctions functions (engine.adapter.start ())).1[2]? = some report ∧
        report.loops = [engine.analyzer.finish (engine.analyzer.facts (loopOf "g"))
          (some (.unavailable .rejected))] := by
  obtain ⟨hsizes, -, hreports⟩ := Engine.reports_independent_of_grouping engine classifier rfl
    functions _ answersBy (engine.adapter.start ())
  obtain ⟨report, hreport, -, hloops, -⟩ := hreports 2 _ rfl
  exact ⟨hsizes 1 _, report, hreport, hloops⟩

end Listing
end LoopAnalysis
