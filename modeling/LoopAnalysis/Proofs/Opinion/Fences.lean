import LoopAnalysis.Proofs.Opinion.Documents

/-!
# Fences inside a record

A record that a classifier sends alone is to be read as it is, whatever its texts say. The search
for a fenced block does not know about quoted text, though: where the texts of a record hold two
fences, what stands between them is taken for the document.

## Main definitions

- `HasFencedBlock`: a text with something between two fences;
- `documentOpinion`: the opinion of a document as it is.

## Main statements

- `fenced?_isSome_iff`: a block is found exactly where there is one;
- `record_read_whole_iff`: a record alone is read as it is exactly if there is no block in it;
- `fenced_transformation_lost`: a record with a block in one of its texts, which is not read.
-/

namespace LoopAnalysis

/-! ## §1 Fenced blocks -/

namespace Text

variable {sub cs before after behind : List Char}

theorem eq_of_cutAt (h : cutAt sub cs = some (before, after)) : cs = before ++ sub ++ after := by
  induction cs generalizing before with
  | nil =>
    simp only [cutAt, List.isEmpty_iff, Option.ite_none_right_eq_some, Option.some.injEq,
      Prod.mk.injEq] at h
    obtain ⟨rfl, rfl, rfl⟩ := h
    rfl
  | cons c cs ih =>
    rw [cutAt] at h
    split at h
    · next hhere =>
      cases h
      obtain ⟨rest, hrest⟩ := List.isPrefixOf_iff_prefix.mp hhere
      simp [← hrest]
    · obtain ⟨⟨first, rest⟩, hcut, heq⟩ := Option.map_eq_some_iff.mp h
      cases heq
      rw [ih hcut]
      rfl

/-- `cutAt` cuts a text where `sub` is first found, so all that follows it elsewhere is left. -/
theorem exists_cutAt (h : cs = before ++ sub ++ behind) :
    ∃ first rest, cutAt sub cs = some (first, rest) ∧ behind <:+ rest := by
  induction cs generalizing before with
  | nil =>
    obtain ⟨rfl, rfl, rfl⟩ : before = [] ∧ sub = [] ∧ behind = [] := by simpa using h.symm
    exact ⟨[], [], rfl, List.suffix_refl []⟩
  | cons c cs ih =>
    rw [cutAt]
    split
    · -- `sub` is found here, and the other place cannot be earlier.
      refine ⟨[], _, rfl, ?_⟩
      have hbehind : behind <:+ c :: cs := by
        rw [h]
        exact List.suffix_append _ _
      have hlength := congrArg List.length h
      refine List.suffix_of_suffix_length_le hbehind (List.drop_suffix _ _) ?_
      simp only [List.length_append, List.length_drop] at hlength ⊢
      omega
    · next hhere =>
      cases before with
      | nil =>
        rw [List.nil_append] at h
        exact absurd (List.isPrefixOf_iff_prefix.mpr ⟨behind, h.symm⟩) hhere
      | cons b before =>
        rw [List.cons_append, List.cons_append] at h
        obtain ⟨rfl, htail⟩ := List.cons_eq_cons.mp h
        obtain ⟨first, rest, hcut, hrest⟩ := ih htail
        exact ⟨c :: first, rest, by simp [hcut], hrest⟩

theorem dropLeading_suffix (lead cs : List Char) : dropLeading lead cs <:+ cs := by
  unfold dropLeading
  split
  · exact List.drop_suffix _ _
  · exact List.suffix_refl cs

/-- `dropLeading` takes a word away in which `sub` cannot begin, and so it leaves `sub` where it is.
-/
theorem infix_dropLeading {lead : List Char} (hlead : neverBegins sub lead = true)
    (h : sub <:+: cs) : sub <:+: dropLeading lead cs := by
  unfold dropLeading
  split
  · next hhere =>
    obtain ⟨rest, rfl⟩ := List.isPrefixOf_iff_prefix.mp hhere
    rw [List.drop_left, ← occursIn_iff, ← List.append_nil sub, ← occursIn_append hlead,
      List.append_nil, occursIn_iff]
    exact h
  · exact h

end Text

/-- **A text with something between two fences**, each of them a `codeFence`. -/
def HasFencedBlock (cs : List Char) : Prop :=
  ∃ before inside behind, cs = before ++ codeFence ++ inside ++ codeFence ++ behind

variable {cs : List Char}

/-- The block that `fenced?` finds, with the two fences around it. -/
theorem exists_fences_of_fenced? {block : List Char} (h : fenced? cs = some block) :
    ∃ before inside behind, cs = before ++ codeFence ++ inside ++ codeFence ++ behind ∧
      block.length ≤ inside.length := by
  obtain ⟨⟨before, body⟩, hfirst, h⟩ := Option.bind_eq_some_iff.mp h
  obtain ⟨⟨inside, behind⟩, hsecond, hblock⟩ := Option.bind_eq_some_iff.mp h
  cases hblock
  obtain ⟨lead, hlead⟩ := Text.dropLeading_suffix "json".toList body
  rw [Text.eq_of_cutAt hsecond] at hlead
  -- The word after the first fence belongs to what stands between the two.
  refine ⟨before, lead ++ inside, behind, ?_, ?_⟩
  · rw [Text.eq_of_cutAt hfirst, ← hlead]
    simp
  · have htrim := (Text.trimChars_isInfix inside).length_le
    rw [List.length_append]
    omega

/-- **A block is found by `fenced?` exactly where `HasFencedBlock` has one.** -/
theorem fenced?_isSome_iff : (fenced? cs).isSome = true ↔ HasFencedBlock cs := by
  constructor
  · intro h
    obtain ⟨block, hblock⟩ := Option.isSome_iff_exists.mp h
    obtain ⟨before, inside, behind, hcs, -⟩ := exists_fences_of_fenced? hblock
    exact ⟨before, inside, behind, hcs⟩
  · rintro ⟨before, inside, behind, hcs⟩
    -- The first cut leaves the second fence, and so does the word that may follow the first.
    have hcs' : cs = before ++ codeFence ++ (inside ++ codeFence ++ behind) := by simp [hcs]
    obtain ⟨first, body, hfirst, hbody⟩ := Text.exists_cutAt hcs'
    have hfence : codeFence <:+: body := .trans ⟨inside, behind, rfl⟩ hbody.isInfix
    have hword : Text.neverBegins codeFence "json".toList = true := by decide
    obtain ⟨front, back, hback⟩ := Text.infix_dropLeading hword hfence
    obtain ⟨block, rest, hsecond, -⟩ := Text.exists_cutAt hback.symm
    simp only [fenced?, hfirst, Option.bind_eq_bind, Option.bind_some, hsecond]
    rfl

instance (cs : List Char) : Decidable (HasFencedBlock cs) :=
  decidable_of_iff _ fenced?_isSome_iff

/-- A text in which `codeFence` does not occur has no block in it. -/
theorem not_hasFencedBlock (h : Text.occursIn codeFence cs = false) : ¬ HasFencedBlock cs := by
  rintro ⟨before, inside, behind, rfl⟩
  rw [Bool.eq_false_iff, ne_eq, Text.occursIn_iff] at h
  exact h ⟨before, inside ++ codeFence ++ behind, by simp⟩

theorem fenced?_eq_none_iff : fenced? cs = none ↔ ¬ HasFencedBlock cs := by
  rw [← fenced?_isSome_iff, Option.not_isSome_iff_eq_none]

/-! ## §2 Records alone -/

/-- The opinion of a document as it is: `Response.ofJson?` reads it and `Response.validate` checks
it. -/
def documentOpinion (document : Json) : Except ClassifierError Opinion :=
  match Response.ofJson? document with
  | some r => r.validate
  | none => .error .malformed

/-- What `parseOpinion` reads from a text is the `documentOpinion` of the document in it. -/
theorem parseOpinion_eq_match (raw : String) :
    parseOpinion raw =
      match Json.parse (extractDocument raw) with
      | some document => documentOpinion document
      | none => .error .malformed := by
  delta parseOpinion
  cases Json.parse (extractDocument raw) <;> rfl

namespace Json.RecordText

variable {text raw : String} {document : Json}

/-- `trimChars` leaves what stands from brace to brace. -/
theorem trimChars_eq (h : RecordText text document) :
    ∃ inside, Text.trimChars text.toList = '{' :: inside ++ ['}'] ∧
      Written ('{' :: inside ++ ['}']) (.value document) := by
  obtain ⟨front, inside, back, htext, hfront, hback, hbody⟩ := h.exists_body
  refine ⟨inside, ?_, hbody⟩
  rw [htext, Text.trimChars_surrounded (fun c hc => Text.isBlank_of_isGap (hfront c hc))
    fun c hc => Text.isBlank_of_isGap (hback c hc)]
  exact Text.trimChars_eq_self (by decide) (by decide) inside

theorem trim (h : RecordText text document) : RecordText (Text.trim text) document := by
  obtain ⟨inside, htrim, hbody⟩ := h.trimChars_eq
  rw [← Text.toList_trim] at htrim
  refine ⟨?_, ?_⟩
  · rw [htrim]
    simpa using Written.spaced gaps_nil gaps_nil hbody
  · rw [htrim, List.cons_append, skipGaps_cons rfl]
    rfl

/-- `extractDocument` leaves a record alone as it is exactly if there is no fenced block in it. -/
theorem extractDocument_eq_iff (h : RecordText (Text.trim raw) document) :
    extractDocument raw = Text.trim raw ↔ ¬ HasFencedBlock (Text.trim raw).toList := by
  obtain ⟨inside, htrim, -⟩ := h.trimChars_eq
  rw [Text.toList_trim, Text.trimChars_trimChars] at htrim
  rw [Text.toList_trim]
  -- From right to left the braces decide; from left to right a block would have to be the whole
  -- text.
  refine ⟨fun hsame => ?_, fun hblock =>
    extractDocument_of_brackets htrim rfl rfl (fenced?_eq_none_iff.mpr hblock)⟩
  rw [← fenced?_eq_none_iff, Option.eq_none_iff_forall_ne_some]
  intro block hblock
  -- The block lacks the two fences at least.
  obtain ⟨before, inside, behind, hcs, hlength⟩ := exists_fences_of_fenced? hblock
  have hwhole : block = Text.trimChars raw.toList := by
    simpa [extractDocument, Text.trim, hblock, String.ofList_inj] using hsame
  have hlonger := congrArg List.length hcs
  simp only [← hwhole, List.length_append, codeFence, List.length_cons, List.length_nil] at hlonger
  omega

/-- Without a block, `parseOpinion` gives the opinion of the record. -/
theorem parseOpinion_eq (h : RecordText (Text.trim raw) document)
    (hblock : ¬ HasFencedBlock (Text.trim raw).toList) :
    parseOpinion raw = documentOpinion document := by
  rw [parseOpinion_eq_match, h.extractDocument_eq_iff.mpr hblock, h.parse_eq]

end Json.RecordText

/-- **A record alone is read as it is exactly if there is no `HasFencedBlock` in it**; its opinion
is then that of the record. -/
theorem record_read_whole_iff {raw : String} {document : Json}
    (h : Json.RecordText (Text.trim raw) document) :
    (extractDocument raw = Text.trim raw ↔ ¬ HasFencedBlock (Text.trim raw).toList) ∧
    (¬ HasFencedBlock (Text.trim raw).toList → parseOpinion raw = documentOpinion document) :=
  ⟨h.extractDocument_eq_iff, h.parseOpinion_eq⟩

/-- A record alone, between blanks, with one fence in its text and brackets around it. -/
def loneFence : String :=
  " \x7b\"quality\": \"safe\", \"reasoning\": \"]no ``` block[\"\x7d\n"

/-- The record in `loneFence`. -/
def loneFenceDocument : Json :=
  .obj [("quality", .str "safe"), ("reasoning", .str "]no ``` block[")]

theorem loneFence_read_whole :
    Json.RecordText (Text.trim loneFence) loneFenceDocument ∧
      ¬ HasFencedBlock (Text.trim loneFence).toList ∧
      extractDocument loneFence = Text.trim loneFence ∧
      parseOpinion loneFence = documentOpinion loneFenceDocument := by
  have hrecord : Json.RecordText (Text.trim loneFence) loneFenceDocument :=
    ⟨Json.parse_eq_some_iff.mp (by cbv), by decide +kernel⟩
  have hblock : ¬ HasFencedBlock (Text.trim loneFence).toList := by decide +kernel
  obtain ⟨hextract, hopinion⟩ := record_read_whole_iff hrecord
  exact ⟨hrecord, hblock, hextract.mpr hblock, hopinion hblock⟩

/-- A record alone that suggests a block of code. -/
def fencedTransformation : String :=
  "\x7b\"quality\":\"safe_parallel\",\"code_transformations\":" ++
    "[\"```c\\n#pragma omp parallel for\\n```\"]\x7d"

/-- The record in `fencedTransformation`. -/
def fencedTransformationDocument : Json :=
  .obj [("quality", .str "safe_parallel"),
    ("code_transformations", .arr [.str "```c\n#pragma omp parallel for\n```"])]

/-- **The block of code is taken for the document**, and the opinion in the record is lost. -/
theorem fenced_transformation_lost :
    Json.RecordText (Text.trim fencedTransformation) fencedTransformationDocument ∧
      (∃ o, documentOpinion fencedTransformationDocument = .ok o ∧ o.quality = .safeParallel) ∧
      extractDocument fencedTransformation ≠ Text.trim fencedTransformation ∧
      parseOpinion fencedTransformation = .error .malformed := by
  have hrecord : Json.RecordText (Text.trim fencedTransformation) fencedTransformationDocument :=
    ⟨Json.parse_eq_some_iff.mp (by cbv), by decide +kernel⟩
  have hblock : extractDocument fencedTransformation = "c\\n#pragma omp parallel for\\n" := by
    decide +kernel
  refine ⟨hrecord, ⟨_, rfl, by decide +kernel⟩, by decide +kernel, ?_⟩
  -- What was cut out begins with a letter that no document begins with.
  have hnone : Json.parse "c\\n#pragma omp parallel for\\n" = none := by cbv
  rw [parseOpinion_eq_match, hblock, hnone]

end LoopAnalysis
