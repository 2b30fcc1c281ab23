import LoopAnalysis.Proofs.Json.Plain
import LoopAnalysis.Proofs.Opinion.Fences

/-!
# One answer, alone and in a batch

A record that answers for one candidate is read directly when it comes alone, and from its plain
value when it is the only entry of a batch. The two readings come to the same outcome, but for two
kinds of records. Under two equal keys a batch has the later entry, while a record alone is refused
if the key is that of a field. And what stands under other keys is passed over in a record alone,
while a batch is refused if there is no plain value of it.

## Main definitions

- `LaterEntryCounts`, `PassesOverUnplain`: the two kinds of records.

## Main statements

- `Response.ofJson?_plain`: a response can be read from the plain value of its record;
- `parseBatch_singleton`, `ofResult_parseOpinion`: the two outcomes;
- `alone_and_batched_agree_iff`: they are the same but for the two kinds of records.
-/

namespace LoopAnalysis

open Json

variable {document : Json} {entries : List (String × Json)} {room : Nat}

/-! ## §1 Responses from plain values -/

namespace Response

variable {values values' : List (String × Json)}

/-- The response that `ofJson?` builds once `collect` has given each field its value. -/
def ofValues? (values : List (String × Json)) : Option Response := do
  let r : Record := ⟨values, false⟩
  return { enhancedPattern := ← r.defaulted "enhancedPattern" (option? text?) none
           quality := ← r.defaulted "quality" (option? text?) none
           confidence := ← r.defaulted "confidence" (option? number?) none
           reasoning := ← r.defaulted "reasoning" (option? text?) none
           suggestedTransformations := ← r.defaulted "suggestedTransformations" (list? text?) [] }

theorem ofJson?_obj : ofJson? (.obj entries) = (collect fields entries []).bind ofValues? := by
  unfold ofJson?
  rw [record?, namedRecord?, Option.bind_eq_bind, Option.bind_map]
  rfl

theorem ofValues?_settled (h : List.Forall₂ (Settled (room + 1)) values values') :
    ofValues? values' = ofValues? values := by
  have htext : ReadsPlain (room + 1) (option? text?) := readsPlain_text?.option
  have hnumber : ReadsPlain (room + 1) (option? number?) := readsPlain_number?.option
  have hlist : ReadsPlain (room + 1) (list? text?) := readsPlain_text?.list
  -- One reader for each kind of field; all of them look at nothing but the plain value.
  simp only [ofValues?, defaulted_settled htext h, defaulted_settled hnumber h,
    defaulted_settled hlist h]

/-- A value that `ofValues?` has read for a field of `fields` has a plain value. -/
theorem settle_isSome_of_ofValues? {r : Response} {f : Field} {value : Json}
    (h : ofValues? values = some r) (hf : f ∈ fields)
    (hfind : values.find? (·.1 == f.name) = some (f.name, value)) :
    (settle (room + 1) value).isSome = true := by
  obtain ⟨_, hpattern, h⟩ := Option.bind_eq_some_iff.mp h
  obtain ⟨_, hquality, h⟩ := Option.bind_eq_some_iff.mp h
  obtain ⟨_, hconfidence, h⟩ := Option.bind_eq_some_iff.mp h
  obtain ⟨_, hreasoning, h⟩ := Option.bind_eq_some_iff.mp h
  obtain ⟨_, hlist, -⟩ := Option.bind_eq_some_iff.mp h
  -- Whichever field it is, its reader has succeeded.
  simp only [fields, List.mem_cons, List.not_mem_nil, or_false] at hf
  rcases hf with rfl | rfl | rfl | rfl | rfl
  · exact settle_isSome_of_defaulted readsPlain_text?.option hpattern hfind
  · exact settle_isSome_of_defaulted readsPlain_text?.option hquality hfind
  · exact settle_isSome_of_defaulted readsPlain_number?.option hconfidence hfind
  · exact settle_isSome_of_defaulted readsPlain_text?.option hreasoning hfind
  · exact settle_isSome_of_defaulted readsPlain_text?.list hlist hfind

/-- A key in the sense of `isFieldKey` answers to a field, the one that `find?` gives. -/
theorem exists_field {key : String} (h : isFieldKey fields key = true) :
    ∃ f ∈ fields, fields.find? (·.answersTo key) = some f := by
  obtain ⟨f, hf⟩ := Option.isSome_iff_exists.mp (List.find?_isSome.mpr (List.any_eq_true.mp h))
  exact ⟨f, List.mem_of_find?_eq_some hf, hf⟩

/-- Where `settleEntries` finds no plain record, `ofJson?` finds no response: nothing that is passed
over can be to blame. -/
theorem ofJson?_eq_none_of_settleEntries
    (hpassed : ∀ e ∈ entries, isFieldKey fields e.1 = false → Plain (room + 1) e.2)
    (h : settleEntries (room + 1) entries [] = none) : ofJson? (.obj entries) = none := by
  rw [ofJson?_obj, Option.bind_eq_none_iff]
  intro values hvalues
  -- What has no plain value is asked for as a field, and then it cannot be read.
  have hfails : ¬ (settleEntries (room + 1) entries []).isSome = true := by simp [h]
  rw [settleEntries_isSome_iff] at hfails
  push Not at hfails
  obtain ⟨⟨key, value⟩, hmem, hvalue⟩ := hfails
  rw [Option.eq_none_iff_forall_ne_some]
  intro r hr
  cases hkey : isFieldKey fields key with
  | false => exact hvalue (settle_isSome_iff.mpr (hpassed _ hmem hkey))
  | true =>
    obtain ⟨f, hf, hfield⟩ := exists_field hkey
    exact hvalue (settle_isSome_of_ofValues? hr hf (find?_collect hvalues hmem hfield))

/-- **`ofJson?` reads the same response from the plain value of a record**, if no field stands twice
under one key and there is a plain value of all that is passed over. -/
theorem ofJson?_plain (hdistinct : ((fieldEntries fields entries).map (·.1)).Nodup)
    (hpassed : ∀ e ∈ entries, isFieldKey fields e.1 = false → Plain (room + 1) e.2) :
    (settle (room + 2) (.obj entries)).bind ofJson? = ofJson? (.obj entries) := by
  rw [settle, Option.bind_map]
  cases hsettle : settleEntries (room + 1) entries [] with
  | none => rw [ofJson?_eq_none_of_settleEntries hpassed hsettle, Option.bind_none]
  | some result =>
    -- Both records collect, field by field, a value and its plain form.
    have hcollect := collect_settleEntries hdistinct hsettle
    change ofJson? (.obj result) = ofJson? (.obj entries)
    rw [ofJson?_obj, ofJson?_obj]
    generalize collect fields entries [] = values at hcollect ⊢
    generalize collect fields result [] = values' at hcollect ⊢
    cases hcollect with
    | none => rfl
    | some hvalues => exact ofValues?_settled hvalues

theorem ofJson?_eq_none_of_repeated (h : ¬ ((fieldEntries fields entries).map (·.1)).Nodup) :
    ofJson? (.obj entries) = none := by
  rw [ofJson?_obj, collect_eq_none_of_repeated h, Option.bind_none]

end Response

/-! ## §2 The two outcomes -/

/-- The `Outcome` of a candidate whose opinion was read alone. -/
def Outcome.ofResult : Except ClassifierError Opinion → Outcome
  | .ok o => .opinion o
  | .error e => .unavailable e.reason

/-- The `Outcome` of a response: what `Response.validate` makes of it, or malformed if there is
none. -/
def Outcome.ofResponse (response : Option Response) : Outcome :=
  match response with
  | some r => .ofResult r.validate
  | none => .unavailable .malformed

theorem Outcome.ofResult_documentOpinion (document : Json) :
    Outcome.ofResult (documentOpinion document) = .ofResponse (Response.ofJson? document) := by
  unfold documentOpinion Outcome.ofResponse
  cases Response.ofJson? document <;> rfl

theorem entryOutcome_some (document : Json) :
    entryOutcome (some document) = .ofResponse (Response.ofJson? document) := by
  unfold entryOutcome Outcome.ofResponse
  dsimp only
  cases Response.ofJson? document with
  | none => rfl
  | some r =>
    dsimp only
    cases r.validate <;> rfl

/-- A response that can be read is never malformed: `Response.validate` has other errors. -/
theorem Outcome.ofResponse_some_ne (r : Response) : ofResponse (some r) ≠ ofResponse none := by
  unfold ofResponse Response.validate
  dsimp only
  split <;> simp [ofResult, ClassifierError.reason]

/-- Whether a batch of one has the outcome that `Outcome.ofResult` gives an opinion read alone. -/
theorem singleton_eq_ofResult_iff {outcome : Outcome} {result : Except ClassifierError Opinion} :
    ((∀ o, [outcome] = [.opinion o] ↔ result = .ok o) ∧
      (∀ reason, [outcome] = [.unavailable reason] ↔ ∃ e, result = .error e ∧ e.reason = reason)) ↔
      outcome = .ofResult result := by
  constructor
  · rintro ⟨hopinion, hunavailable⟩
    cases result with
    | ok o => exact List.singleton_inj.mp ((hopinion o).mpr rfl)
    | error e => exact List.singleton_inj.mp ((hunavailable e.reason).mpr ⟨e, rfl, rfl⟩)
  · rintro rfl
    cases result <;> simp [Outcome.ofResult]

namespace Json.RecordText

variable {t : String}

/-- A record without a fence in it is read by `parseOpinion` as it stands. -/
theorem ofResult_parseOpinion (h : RecordText t document)
    (hfence : Text.contains t (String.ofList codeFence) = false) :
    Outcome.ofResult (parseOpinion t) = .ofResponse (Response.ofJson? document) := by
  have hblock : ¬ HasFencedBlock (Text.trim t).toList := by
    -- A fence in the trimmed text would be one in the text itself.
    refine not_hasFencedBlock ?_
    rw [Text.toList_trim, Bool.eq_false_iff]
    intro hfound
    have hinfix := (Text.occursIn_iff.mp hfound).trans (Text.trimChars_isInfix t.toList)
    rw [Text.contains, String.toList_ofList, Text.occursIn_iff.mpr hinfix] at hfence
    cases hfence
  rw [h.trim.parseOpinion_eq hblock, Outcome.ofResult_documentOpinion]

/-- A list of one record is its own document for `extractDocument`. -/
theorem extractDocument_singleton (hfence : Text.contains t (String.ofList codeFence) = false) :
    extractDocument ("[" ++ t ++ "]") = "[" ++ t ++ "]" := by
  have hchars : ("[" ++ t ++ "]").toList = '[' :: t.toList ++ [']'] := by simp
  have htrim : Text.trimChars ("[" ++ t ++ "]").toList = '[' :: t.toList ++ [']'] := by
    rw [hchars]
    exact Text.trimChars_eq_self (by decide) (by decide) _
  have hblock : ¬ HasFencedBlock (Text.trimChars ("[" ++ t ++ "]").toList) := by
    -- Neither bracket can be part of a fence.
    refine not_hasFencedBlock ?_
    have hsame : Text.contains ("[" ++ t) (String.ofList codeFence ++ "") =
        Text.contains t (String.ofList codeFence ++ "") := Text.contains_append_eq t "" (by decide)
    have hwhole : Text.contains ("[" ++ t ++ "]") (String.ofList codeFence) = false := by
      rw [String.append_empty] at hsame
      rw [Text.contains_append_of_foreign (by simp [codeFence]), hsame, hfence]
      rfl
    rwa [Text.contains, String.toList_ofList, hchars, ← htrim] at hwhole
  rw [extractDocument_of_brackets htrim rfl rfl (fenced?_eq_none_iff.mpr hblock), Text.trim, htrim,
    ← hchars, String.ofList_toList]

theorem parse_singleton (h : RecordText t document) :
    parse ("[" ++ t ++ "]") = some (.arr [document]) := by
  have hlist : Written ('[' :: (t.toList ++ [']'])) (.value (.arr [document])) :=
    .list (.lastItem h.written)
  rw [parse_eq_some_iff]
  simpa using Written.spaced gaps_nil gaps_nil hlist

/-- `parseBatch` reads the plain value of the record, one level below the list. -/
theorem parseBatch_singleton (h : RecordText t document)
    (hfence : Text.contains t (String.ofList codeFence) = false) :
    parseBatch ("[" ++ t ++ "]") 1 =
      [.ofResponse ((settle (depthLimit - 1) document).bind Response.ofJson?)] := by
  have hvalue : parseValue ("[" ++ t ++ "]") =
      (settle (depthLimit - 1) document).map fun plain => .arr [plain] := by
    rw [parseValue, h.parse_singleton, Option.bind_some]
    change (settleItems (depthLimit - 1) [document]).map Json.arr = _
    rw [settleItems]
    cases settle (depthLimit - 1) document <;> simp [settleItems]
  delta parseBatch
  rw [extractDocument_singleton hfence, hvalue]
  cases settle (depthLimit - 1) document with
  | none => rfl
  | some plain => exact congrArg (fun outcome => [outcome]) (entryOutcome_some plain)

end Json.RecordText

/-! ## §3 Agreement -/

/-- **A record with a field under two equal keys**, which would be a response if only the later
entries counted, as they do in what `settle` gives. -/
def LaterEntryCounts (document : Json) : Prop :=
  ∃ entries, document = .obj entries ∧
    ¬ ((fieldEntries Response.fields entries).map (·.1)).Nodup ∧
    ∃ plain r, settle (depthLimit - 1) document = some plain ∧ Response.ofJson? plain = some r

/-- **A response that passes over something that is not `Plain`**, under a key that is no
`isFieldKey`. -/
def PassesOverUnplain (document : Json) : Prop :=
  ∃ entries, document = .obj entries ∧ (∃ r, Response.ofJson? document = some r) ∧
    ∃ e ∈ entries, isFieldKey Response.fields e.1 = false ∧ ¬ Plain (depthLimit - 2) e.2

example : PassesOverUnplain (.obj [("quality", .str "safe"), ("margin", .unreadable)]) := by
  refine ⟨_, rfl, ⟨_, rfl⟩, ("margin", .unreadable), by simp, by decide +kernel, ?_⟩
  rintro (⟨-, hread⟩ | _ | _)
  exact hread rfl

/-- The outcomes of the two readings are the same but for `LaterEntryCounts` and
`PassesOverUnplain`. -/
theorem ofResponse_plain_eq_iff :
    Outcome.ofResponse ((settle (depthLimit - 1) (.obj entries)).bind Response.ofJson?) =
        .ofResponse (Response.ofJson? (.obj entries)) ↔
      ¬ LaterEntryCounts (.obj entries) ∧ ¬ PassesOverUnplain (.obj entries) := by
  constructor
  · intro hsame
    constructor
    -- In each of the two cases one reading gives a response and the other gives none.
    · rintro ⟨_, ⟨⟩, hrepeated, plain, r, hplain, hr⟩
      rw [hplain, Option.bind_some, hr, Response.ofJson?_eq_none_of_repeated hrepeated] at hsame
      exact Outcome.ofResponse_some_ne r hsame
    · rintro ⟨_, ⟨⟩, ⟨r, hr⟩, e, he, -, hunplain⟩
      have hnone : settle (depthLimit - 1) (.obj entries) = none := settle_obj_eq_none he hunplain
      rw [hnone, hr, Option.bind_none] at hsame
      exact Outcome.ofResponse_some_ne r hsame.symm
  · rintro ⟨hlater, hpasses⟩
    apply congrArg Outcome.ofResponse
    by_cases hdistinct : ((fieldEntries Response.fields entries).map (·.1)).Nodup
    · by_cases hpassed : ∀ e ∈ entries, isFieldKey Response.fields e.1 = false →
        Plain (depthLimit - 2) e.2
      · exact Response.ofJson?_plain hdistinct hpassed
      · -- There is no plain value, and so there must not be a response either.
        push Not at hpassed
        obtain ⟨e, he, hkey, hunplain⟩ := hpassed
        have hnone : settle (depthLimit - 1) (.obj entries) = none := settle_obj_eq_none he hunplain
        rw [hnone, Option.bind_none, eq_comm, Option.eq_none_iff_forall_ne_some]
        intro r hr
        exact hpasses ⟨entries, rfl, ⟨r, hr⟩, e, he, hkey, hunplain⟩
    · rw [Response.ofJson?_eq_none_of_repeated hdistinct, Option.bind_eq_none_iff]
      intro plain hplain
      rw [Option.eq_none_iff_forall_ne_some]
      intro r hr
      exact hlater ⟨entries, rfl, hdistinct, plain, r, hplain, hr⟩

/-- **One answer, alone and in a batch**: the outcomes are the same but for a record with a field
under two equal keys, and for one that passes over something without a plain value. -/
theorem alone_and_batched_agree_iff {t : String} {document : Json} (h : RecordText t document)
    (hfence : Text.contains t (String.ofList codeFence) = false) :
    ((∀ o, parseBatch ("[" ++ t ++ "]") 1 = [.opinion o] ↔ parseOpinion t = .ok o) ∧
      (∀ reason, parseBatch ("[" ++ t ++ "]") 1 = [.unavailable reason] ↔
        ∃ e, parseOpinion t = .error e ∧ e.reason = reason)) ↔
      ¬ LaterEntryCounts document ∧ ¬ PassesOverUnplain document := by
  rw [h.parseBatch_singleton hfence, singleton_eq_ofResult_iff, h.ofResult_parseOpinion hfence]
  rcases h.eq_obj_or_unreadable with ⟨entries, rfl⟩ | rfl
  · exact ofResponse_plain_eq_iff
  · -- A document that cannot be read at all is malformed in both readings, and neither kind of
    -- record.
    refine iff_of_true rfl ⟨?_, ?_⟩
    · rintro ⟨entries, ⟨⟩, -⟩
    · rintro ⟨entries, ⟨⟩, -⟩

/-- An answer between blanks, with the quality under its other name and two notes under one key. -/
def answerWithNotes : String :=
  " \x7b\"classification\": \"Safe-Parallel\", \"note\": [1, \x7b\"n\": null\x7d], " ++
    "\"note\": \"again\"\x7d\n"

/-- The record in `answerWithNotes`. -/
def answerWithNotesDocument : Json :=
  .obj [("classification", .str "Safe-Parallel"), ("note", .arr [.int 1, .obj [("n", .null)]]),
    ("note", .str "again")]

theorem answerWithNotes_agrees :
    RecordText answerWithNotes answerWithNotesDocument ∧
      Text.contains answerWithNotes (String.ofList codeFence) = false ∧
      (∀ o, parseBatch ("[" ++ answerWithNotes ++ "]") 1 = [.opinion o] ↔
        parseOpinion answerWithNotes = .ok o) ∧
      (∀ reason, parseBatch ("[" ++ answerWithNotes ++ "]") 1 = [.unavailable reason] ↔
        ∃ e, parseOpinion answerWithNotes = .error e ∧ e.reason = reason) := by
  have hrecord : RecordText answerWithNotes answerWithNotesDocument :=
    ⟨parse_eq_some_iff.mp (by cbv), by decide +kernel⟩
  have hfence : Text.contains answerWithNotes (String.ofList codeFence) = false := by
    decide +kernel
  refine ⟨hrecord, hfence, (alone_and_batched_agree_iff hrecord hfence).mpr ⟨?_, ?_⟩⟩
  · rintro ⟨entries, ⟨⟩, hrepeated, -⟩
    exact hrepeated (by decide +kernel)
  · rintro ⟨entries, ⟨⟩, -, e, he, -, hunplain⟩
    refine hunplain (settle_isSome_iff.mp ?_)
    simp only [List.mem_cons, List.not_mem_nil, or_false] at he
    rcases he with rfl | rfl | rfl <;> rfl

/-- An answer that gives its quality twice. -/
def repeatedQuality : String :=
  "\x7b\"quality\":\"safe_parallel\",\"quality\":\"not_parallel\"\x7d"

/-- The record in `repeatedQuality`. -/
def repeatedQualityDocument : Json :=
  .obj [("quality", .str "safe_parallel"), ("quality", .str "not_parallel")]

/-- **Alone the answer is malformed, in a batch the later quality counts.** -/
theorem repeated_quality_disagrees :
    RecordText repeatedQuality repeatedQualityDocument ∧
      Text.contains repeatedQuality (String.ofList codeFence) = false ∧
      parseOpinion repeatedQuality = .error .malformed ∧
      ∃ o, parseBatch ("[" ++ repeatedQuality ++ "]") 1 = [.opinion o] ∧
        o.quality = .notParallel := by
  have hrecord : RecordText repeatedQuality repeatedQualityDocument :=
    ⟨parse_eq_some_iff.mp (by cbv), by decide +kernel⟩
  have hfence : Text.contains repeatedQuality (String.ofList codeFence) = false := by
    decide +kernel
  have hblock : ¬ HasFencedBlock (Text.trim repeatedQuality).toList := by decide +kernel
  refine ⟨hrecord, hfence, ?_, ?_⟩
  · rw [hrecord.trim.parseOpinion_eq hblock]
    rfl
  · rw [hrecord.parseBatch_singleton hfence]
    exact ⟨_, rfl, by decide +kernel⟩

end LoopAnalysis
