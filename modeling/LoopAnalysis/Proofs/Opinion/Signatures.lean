import LoopAnalysis.Opinion.Signature
import LoopAnalysis.Proofs.Text.Trimming

/-!
# Which signature a label finds

A label is looked up without the blanks around it, but the names of signatures are compared as they
were written. So an entry is found under its own name exactly as long as that name has no blanks
around it: one that has is in the list and out of reach, whatever label is asked for.

## Main definitions

- `Signature.answersTo`: an entry has the name that a label asks for.

## Main statements

- `Signatures.lookup_of_last`, `Signatures.lookup_of_none`: what a label finds;
- `Signature.trim_name_of_answersTo`: no label finds a name with blanks around it;
- `Signatures.found_under_own_name_iff`: what follows for a list that extends the built-in one.
-/

namespace LoopAnalysis

/-! ## §1 One entry -/

/-- **An entry answers to a label**: by `Text.sameLetters`, so but for the case of letters, its name
is the label without the blanks around it. -/
def Signature.answersTo (e : Signature) (label : String) : Bool :=
  Text.sameLetters e.name (Text.trim label)

namespace Signature

variable {e : Signature} {label : String}

/-- The test that `Signatures.lookup` makes of an entry is `answersTo`. -/
theorem sameLetters_lower_trim (e : Signature) (label : String) :
    Text.sameLetters e.name (Text.lower (Text.trim label)) = e.answersTo label := by
  rw [answersTo, Bool.eq_iff_iff, Text.sameLetters_iff, Text.sameLetters_iff, Text.lower_lower]

/-- No label asks for a name with blanks around it: an entry that `answersTo` one has none. -/
theorem trim_name_of_answersTo (h : e.answersTo label = true) : Text.trim e.name = e.name :=
  Text.eq_of_sameLetters_trim h

theorem answersTo_name (h : Text.trim e.name = e.name) : e.answersTo e.name = true := by
  rw [answersTo, h, Text.sameLetters_iff]

/-- `answersTo` does not see the case of a label or the blanks around it. -/
theorem answersTo_congr (e : Signature) {variant : String}
    (h : Text.sameLetters (Text.trim variant) (Text.trim label) = true) :
    e.answersTo variant = e.answersTo label := by
  rw [Text.sameLetters_iff] at h
  rw [answersTo, answersTo, Bool.eq_iff_iff, Text.sameLetters_iff, Text.sameLetters_iff, h]

end Signature

/-! ## §2 Names of patterns -/

namespace PatternKind

/-- `normalize` gives the same for a label that has been tidied before. -/
theorem normalize_lower_trim (label : String) :
    normalize (Text.lower (Text.trim label)) = normalize label := by
  rw [normalize, normalize, Text.trim_lower, Text.trim_trim, Text.lower_lower]

theorem ofLabel?_lower_trim (label : String) :
    ofLabel? (Text.lower (Text.trim label)) = ofLabel? label := by
  unfold ofLabel?
  rw [normalize_lower_trim]

end PatternKind

/-! ## §3 Lists of entries -/

namespace Signatures

variable {s : Signatures} {before after : List Signature} {e : Signature} {label : String}

/-- `lookup` takes the last entry that `answersTo` the label, and `PatternKind.ofLabel?` if there is
none. -/
theorem lookup_eq (s : Signatures) (label : String) :
    s.lookup label = ((s.entries.reverse.find? (·.answersTo label)).map (·.pattern)).or
      (PatternKind.ofLabel? label) := by
  simp only [lookup, Signature.sameLetters_lower_trim, PatternKind.ofLabel?_lower_trim]
  split
  · next hfind => rw [hfind, Option.map_some, Option.some_or]
  · next hfind => rw [hfind, Option.map_none, Option.none_or]

/-- The last entry that `answersTo` a label is the one that counts. -/
theorem lookup_of_last (h : s.entries = before ++ e :: after) (he : e.answersTo label = true)
    (hlater : ∀ later ∈ after, later.answersTo label = false) :
    s.lookup label = some e.pattern := by
  have hnone : after.reverse.find? (·.answersTo label) = none :=
    List.find?_eq_none.mpr (by simpa using hlater)
  simp [lookup_eq, h, List.find?_append, hnone, he]

/-- A label that no entry `answersTo` is the name of a pattern, or nothing. -/
theorem lookup_of_none (h : ∀ e ∈ s.entries, e.answersTo label = false) :
    s.lookup label = PatternKind.ofLabel? label := by
  have hnone : s.entries.reverse.find? (·.answersTo label) = none :=
    List.find?_eq_none.mpr (by simpa using h)
  simp [lookup_eq, hnone]

/-- An entry that does not answer to a label might as well not be there for `lookup`. -/
theorem lookup_of_not_answersTo (h : s.entries = before ++ e :: after)
    (he : e.answersTo label = false) : s.lookup label = lookup ⟨before ++ after⟩ label := by
  simp [lookup_eq, h, List.find?_append, he]

/-- Labels that differ in case and in the blanks around them have the same `lookup`. -/
theorem lookup_congr (s : Signatures) {variant : String}
    (h : Text.sameLetters (Text.trim variant) (Text.trim label) = true) :
    s.lookup variant = s.lookup label := by
  have hpattern : PatternKind.ofLabel? variant = PatternKind.ofLabel? label := by
    rw [← PatternKind.ofLabel?_lower_trim variant, Text.sameLetters_iff.mp h,
      PatternKind.ofLabel?_lower_trim label]
  simp only [lookup_eq, Signature.answersTo_congr _ h, hpattern]

/-- **Which signatures are found under their own names.** Take any list that follows `builtin`, and
an entry of the whole after which its name does not come again in whatever case. If there are no
blanks around the name, the name finds the entry. If there are, no label finds it: every label has
the `lookup` it would have if the entry were missing, so its name finds its pattern only where
something else stands for the same one. What a label finds does not change with its case and with
blanks around it, and a label that is the name of no entry finds what `PatternKind.ofLabel?` makes
of it. -/
theorem found_under_own_name_iff (extra : Signatures) :
    (∀ before e after, (builtin.extended extra).entries = before ++ e :: after →
      (∀ later ∈ after, Text.sameLetters later.name e.name = false) →
        ((builtin.extended extra).lookup e.name = some e.pattern ↔
          Text.trim e.name = e.name ∨ lookup ⟨before ++ after⟩ e.name = some e.pattern) ∧
        (Text.trim e.name ≠ e.name → ∀ label,
          (builtin.extended extra).lookup label = lookup ⟨before ++ after⟩ label)) ∧
    (∀ label variant front back : String, Text.sameLetters variant label = true →
      (∀ c ∈ front.toList, Text.isBlank c = true) → (∀ c ∈ back.toList, Text.isBlank c = true) →
        (builtin.extended extra).lookup (front ++ variant ++ back) =
          (builtin.extended extra).lookup label) ∧
    ∀ label, (∀ e ∈ (builtin.extended extra).entries,
        Text.sameLetters (Text.trim e.name) (Text.trim label) = false) →
      (builtin.extended extra).lookup label = PatternKind.ofLabel? label := by
  refine ⟨fun before e after hsplit hlater => ?_, ?_, ?_⟩
  · -- An entry is found, or else it is out of reach of every label.
    have hmissing : Text.trim e.name ≠ e.name → ∀ label,
        (builtin.extended extra).lookup label = lookup ⟨before ++ after⟩ label := by
      intro hblanks label
      refine lookup_of_not_answersTo hsplit (Bool.eq_false_iff.mpr fun hanswers => ?_)
      exact hblanks (Signature.trim_name_of_answersTo hanswers)
    refine ⟨?_, hmissing⟩
    by_cases htrim : Text.trim e.name = e.name
    · have hnone : ∀ later ∈ after, later.answersTo e.name = false := by
        intro later hmem
        rw [Signature.answersTo, htrim, hlater later hmem]
      simp [htrim, lookup_of_last hsplit (Signature.answersTo_name htrim) hnone]
    · simp [htrim, hmissing htrim]
  · -- Trimming and lowering the two labels gives the same text.
    intro label variant front back hcase hfront hback
    refine lookup_congr _ ?_
    rw [Text.trim_surrounded variant hfront hback, Text.sameLetters_iff, ← Text.trim_lower,
      ← Text.trim_lower, Text.sameLetters_iff.mp hcase]
  · intro label hnone
    refine lookup_of_none fun e he => Bool.eq_false_iff.mpr fun hanswers => ?_
    -- An entry that answers has a trimmed name, so trimming it would make no difference.
    have hother := hnone e he
    rw [Signature.trim_name_of_answersTo hanswers, ← Signature.answersTo, hanswers] at hother
    cases hother

/-- A list in which a known label is given another pattern, under a name in other case. -/
def blurred : Signatures := ⟨[⟨"Stencil_Pattern", .convolution2D, "blur"⟩]⟩

/-- The entry of `blurred` is found under its own name and under the name that it overrides; blanks
around the label make no difference, and other labels are what they were. -/
theorem blurred_found :
    (builtin.extended blurred).lookup "Stencil_Pattern" = some .convolution2D ∧
    (builtin.extended blurred).lookup ("\t " ++ "stencil_pattern" ++ "\n") = some .convolution2D ∧
    (builtin.extended blurred).lookup " Matrix Multiplication" = some .matrixMultiply := by
  obtain ⟨hown, hvariant, hother⟩ := found_under_own_name_iff blurred
  have hfound := (hown builtin.entries _ [] rfl (by simp)).1.mpr (.inl (by decide +kernel))
  refine ⟨hfound, ?_, ?_⟩
  · exact (hvariant "Stencil_Pattern" "stencil_pattern" "\t " "\n" (by decide +kernel)
      (by simp [Text.isBlank]) (by simp [Text.isBlank])).trans hfound
  · have hname : PatternKind.ofLabel? " Matrix Multiplication" = some .matrixMultiply := by
      decide +kernel
    exact (hother " Matrix Multiplication" (by decide +kernel)).trans hname

/-- A list is read whose only entry has blanks around its name. Nothing finds that entry, neither
its name nor its name without the blanks. -/
theorem padded_name_unreachable :
    let padded : Signature := ⟨" tiled_sweep ", .stencil, ""⟩
    parse "[\x7b\"name\": \" tiled_sweep \", \"pattern\": \"stencil\"\x7d]" = .ok ⟨[padded]⟩ ∧
    (builtin.extended ⟨[padded]⟩).entries = builtin.entries ++ [padded] ∧
    (builtin.extended ⟨[padded]⟩).lookup padded.name = none ∧
    (builtin.extended ⟨[padded]⟩).lookup "tiled_sweep" = none := by
  refine ⟨?_, rfl, ?_, ?_⟩
  · have hread : Json.parse "[\x7b\"name\": \" tiled_sweep \", \"pattern\": \"stencil\"\x7d]" =
        some (.arr [.obj [("name", .str " tiled_sweep "), ("pattern", .str "stencil")]]) := by cbv
    have hname : (Text.trim " tiled_sweep ").isEmpty = false := by decide +kernel
    have hentries : Json.list? Signature.ofJson?
        (.arr [.obj [("name", .str " tiled_sweep "), ("pattern", .str "stencil")]]) =
          some [⟨" tiled_sweep ", .stencil, ""⟩] := by rfl
    simp [parse, hread, hentries, hname]
  · decide +kernel
  · decide +kernel

end Signatures

end LoopAnalysis
