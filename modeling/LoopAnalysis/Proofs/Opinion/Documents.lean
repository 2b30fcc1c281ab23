import LoopAnalysis.Opinion.Reading
import LoopAnalysis.Proofs.Json.Extent
import LoopAnalysis.Proofs.Text.Occurrence
import LoopAnalysis.Proofs.Text.Trimming

/-!
# Documents without anything around them

A classifier may wrap its document in a fence or in words. One that sends the document alone is
taken at its word: but for blanks at its ends, the text is read as it is.

## Main definitions

- `BareDocument`: a text that is a list or a record and has no fence in it.

## Main statements

- `bracketed?_of_brackets`: a text from an opening to a closing bracket is its own document;
- `BareDocument.extractDocument_eq`: a bare document is read as it is.
-/

namespace LoopAnalysis

/-! ## §1 Gaps and cuts -/

namespace Text

variable {cs sub : List Char}

theorem cutAt_eq_none (hsub : sub ≠ []) (h : occursIn sub cs = false) : cutAt sub cs = none := by
  induction cs with
  | nil => simp [cutAt, hsub]
  | cons c cs ih =>
    rw [occursIn, Bool.or_eq_false_iff] at h
    simp [cutAt, h.1, ih h.2]

end Text

theorem Text.isBlank_of_isGap {c : Char} (h : Json.isGap c = true) : Text.isBlank c = true := by
  simp only [Json.isGap, Bool.or_eq_true, beq_iff_eq] at h
  rcases h with ((rfl | rfl) | rfl) | rfl <;> decide

/-- Every gap of `Json.isGap` is a blank, so `trimChars` leaves none to skip. -/
theorem Text.skipGaps_trimChars (cs : List Char) :
    Json.skipGaps (Text.trimChars cs) = Text.trimChars cs := by
  cases htrim : Text.trimChars cs with
  | nil => rfl
  | cons c rest =>
    have hgap : Json.isGap c = false := by
      rw [Bool.eq_false_iff]
      intro hgap
      have hblank := Text.head_trimChars htrim
      rw [Text.isBlank_of_isGap hgap] at hblank
      cases hblank
    simp [Json.skipGaps, hgap]

/-! ## §2 Bare documents -/

theorem bracketed?_of_brackets {opening closing : Char} (inside : List Char)
    (hopen : opensDocument opening = true) (hclose : closesDocument closing = true) :
    bracketed? (opening :: inside ++ [closing]) = some (opening :: inside ++ [closing]) := by
  simp [bracketed?, hopen, hclose]

/-- A text from bracket to bracket in which `fenced?` finds no block is the document. -/
theorem extractDocument_of_brackets {raw : String} {opening closing : Char} {inside : List Char}
    (htrim : Text.trimChars raw.toList = opening :: inside ++ [closing])
    (hopen : opensDocument opening = true) (hclose : closesDocument closing = true)
    (hblock : fenced? (Text.trimChars raw.toList) = none) :
    extractDocument raw = Text.trim raw := by
  have hbrackets : bracketed? (Text.trimChars raw.toList) = some (Text.trimChars raw.toList) := by
    rw [htrim]
    exact bracketed?_of_brackets inside hopen hclose
  rw [extractDocument, Text.trim]
  simp [hblock, hbrackets]

/-- **A document without anything around it**: but for blanks, the text is a list or a record that
`Json.parseValue` reads, and there is no `codeFence` in it. -/
structure BareDocument (raw : String) (document : Json) : Prop where
  reads     : Json.parseValue (Text.trim raw) = some document
  bracketed : document.isBracketed = true
  unfenced  : Text.contains raw (String.ofList codeFence) = false

namespace BareDocument

variable {raw : String} {document : Json}

/-- A bare document has no fence, so `fenced?` finds no block in it. -/
theorem fenced?_eq_none (h : BareDocument raw document) :
    fenced? (Text.trimChars raw.toList) = none := by
  have hunfenced : Text.occursIn codeFence (Text.trimChars raw.toList) = false := by
    rw [Bool.eq_false_iff]
    intro hfence
    have hraw := (Text.occursIn_iff.mp hfence).trans (Text.trimChars_isInfix raw.toList)
    have hnone := h.unfenced
    rw [Text.contains, String.toList_ofList, Text.occursIn_iff.mpr hraw] at hnone
    cases hnone
  simp [fenced?, Text.cutAt_eq_none (by decide) hunfenced]

/-- The trimmed text begins with an `opensDocument` bracket and ends with a `closesDocument` one. -/
theorem trimChars_eq (h : BareDocument raw document) :
    ∃ opening inside closing, Text.trimChars raw.toList = opening :: inside ++ [closing] ∧
      opensDocument opening = true ∧ closesDocument closing = true := by
  have hreads := h.reads
  rw [Json.parseValue] at hreads
  obtain ⟨value, hvalue, hsettle⟩ := Option.bind_eq_some_iff.mp hreads
  rw [Json.parse] at hvalue
  obtain ⟨⟨read, rest⟩, hread, hend⟩ := Option.bind_eq_some_iff.mp hvalue
  dsimp only at hend
  obtain ⟨hempty, rfl⟩ : (Json.skipGaps rest).isEmpty = true ∧ read = value := by
    simpa using hend
  rw [Text.trim, String.toList_ofList] at hread
  have hbracketed : read.isBracketed = true := by
    rw [← Json.isBracketed_of_settle hsettle]
    exact h.bracketed
  -- What `readValue` consumed for a list or a record stands between its brackets.
  obtain ⟨opening, inside, closing, hpair, hopen, body, hbody⟩ :=
    (Json.extent_of_readValue hread).brackets hbracketed
  rw [Text.skipGaps_trimChars, ← hbody] at hopen
  -- Only blanks could follow the closing bracket, and they have been trimmed.
  have hrest : rest = [] := by
    rcases List.eq_nil_or_concat' rest with hnil | ⟨init, last, rfl⟩
    · exact hnil
    · have hgap : Json.isGap last = true := by
        rw [List.isEmpty_iff, Json.skipGaps, List.dropWhile_eq_nil_iff] at hempty
        exact hempty last (by simp)
      have hends : Text.trimChars raw.toList = opening :: (body ++ closing :: init) ++ [last] := by
        simp [hopen]
      have hlast := Text.getLast_trimChars hends
      rw [Text.isBlank_of_isGap hgap] at hlast
      cases hlast
  rw [hrest] at hopen
  refine ⟨opening, body, closing, by simp [hopen], ?_, ?_⟩
  · rcases hpair with ⟨rfl, -⟩ | ⟨rfl, -⟩ <;> rfl
  · rcases hpair with ⟨-, rfl⟩ | ⟨-, rfl⟩ <;> rfl

/-- **A bare document is read as it is**: `extractDocument` only trims it. -/
theorem extractDocument_eq (h : BareDocument raw document) :
    extractDocument raw = Text.trim raw := by
  obtain ⟨opening, inside, closing, htrim, hopen, hclose⟩ := h.trimChars_eq
  exact extractDocument_of_brackets htrim hopen hclose h.fenced?_eq_none

/-- The document of a `BareDocument` is the one that is read in the end. -/
theorem parseValue_extractDocument (h : BareDocument raw document) :
    Json.parseValue (extractDocument raw) = some document := by
  rw [h.extractDocument_eq]
  exact h.reads

end BareDocument

end LoopAnalysis
