import LoopAnalysis.Text.Basic
import Mathlib.Data.List.DropRight
import Mathlib.Data.List.Infix
import Mathlib.Tactic.Common

/-!
# Trimming and case

Labels are compared without the blanks around them and without regard to the case of their letters.
Both can be taken off in either order, and taking them off a second time changes nothing.

## Main statements

- `head_trimChars`, `getLast_trimChars`: what trimming leaves has no blank at its ends;
- `trimChars_surrounded`: blanks around a text do not matter to what trimming leaves;
- `trimChars_map_lowerChar`: trimming and lower case commute;
- `eq_of_sameLetters_trim`: what differs from a trimmed text in case alone is trimmed itself.
-/

namespace LoopAnalysis.Text

variable {cs front back : List Char}

/-! ## §1 Blanks at the ends -/

/-- What `trimChars` leaves stands at the front of the text without its leading blanks. -/
theorem trimChars_isPrefix (cs : List Char) : trimChars cs <+: cs.dropWhile isBlank := by
  have hback : (cs.dropWhile isBlank).reverse.dropWhile isBlank <:+
      (cs.dropWhile isBlank).reverse := List.dropWhile_suffix _
  simpa [trimChars] using List.reverse_prefix.mpr hback

theorem trimChars_isInfix (cs : List Char) : trimChars cs <:+: cs :=
  (trimChars_isPrefix cs).isInfix.trans (List.dropWhile_suffix _).isInfix

theorem isBlank_of_dropWhile {c : Char} {rest : List Char}
    (h : cs.dropWhile isBlank = c :: rest) : isBlank c = false := by
  have hne : cs.dropWhile isBlank ≠ [] := by simp [h]
  simpa [h] using List.head_dropWhile_not isBlank hne

/-- What `trimChars` leaves has no blank in front. -/
theorem head_trimChars {c : Char} {rest : List Char} (h : trimChars cs = c :: rest) :
    isBlank c = false := by
  obtain ⟨more, hmore⟩ := trimChars_isPrefix cs
  rw [h, List.cons_append] at hmore
  exact isBlank_of_dropWhile hmore.symm

/-- What `trimChars` leaves has no blank at the end. -/
theorem getLast_trimChars {c : Char} {front : List Char} (h : trimChars cs = front ++ [c]) :
    isBlank c = false := by
  have hreverse := congrArg List.reverse h
  rw [trimChars, List.reverse_reverse, List.reverse_append] at hreverse
  exact isBlank_of_dropWhile hreverse

/-- A text that neither begins nor ends with a blank is left as it is by `trimChars`. -/
theorem trimChars_eq_self {opening closing : Char} (hopen : isBlank opening = false)
    (hclose : isBlank closing = false) (inside : List Char) :
    trimChars (opening :: inside ++ [closing]) = opening :: inside ++ [closing] := by
  simp [trimChars, hopen, hclose]

theorem trimChars_trimChars (cs : List Char) : trimChars (trimChars cs) = trimChars cs := by
  have hfront : (trimChars cs).dropWhile isBlank = trimChars cs := by
    cases htrim : trimChars cs with
    | nil => rfl
    | cons c rest => simp [head_trimChars htrim]
  calc trimChars (trimChars cs)
      = ((trimChars cs).dropWhile isBlank).rdropWhile isBlank := rfl
    _ = (trimChars cs).rdropWhile isBlank := by rw [hfront]
    _ = trimChars cs := List.rdropWhile_idempotent isBlank (cs.dropWhile isBlank)

/-- Blanks around a text do not matter to what `trimChars` leaves of it. -/
theorem trimChars_surrounded (hfront : ∀ c ∈ front, isBlank c = true)
    (hback : ∀ c ∈ back, isBlank c = true) : trimChars (front ++ cs ++ back) = trimChars cs := by
  have hreverse : ∀ c ∈ back.reverse, isBlank c = true := by simpa using hback
  unfold trimChars
  rw [List.append_assoc, List.dropWhile_append_of_pos hfront, List.dropWhile_append]
  split
  · next hempty =>
    -- Nothing but blanks stands there.
    rw [List.isEmpty_iff] at hempty
    rw [hempty, List.dropWhile_eq_nil_iff.mpr hback]
  · -- Something is left in front, so the blanks behind are the first to go from the other end.
    rw [List.reverse_append, List.dropWhile_append_of_pos hreverse]

/-! ## §2 Case -/

/-- Code points of capital letters are moved by `lowerChar`, and no others. -/
theorem toNat_lowerChar (c : Char) :
    (lowerChar c).toNat = if 65 ≤ c.toNat ∧ c.toNat ≤ 90 then c.toNat + 32 else c.toNat := by
  have hrange : ('A' ≤ c && c ≤ 'Z') = true ↔ 65 ≤ c.toNat ∧ c.toNat ≤ 90 := by
    rw [Bool.and_eq_true, decide_eq_true_iff, decide_eq_true_iff]
    exact Iff.rfl
  unfold lowerChar
  by_cases h : 65 ≤ c.toNat ∧ c.toNat ≤ 90
  · have hvalid : (c.toNat + 32).isValidChar := .inl (by omega)
    rw [if_pos (hrange.mpr h), if_pos h, Char.ofNat, dif_pos hvalid]
    rfl
  · rw [if_neg (mt hrange.mp h), if_neg h]

@[simp] theorem lowerChar_lowerChar (c : Char) : lowerChar (lowerChar c) = lowerChar c := by
  apply Char.toNat_inj.mp
  have hletter := toNat_lowerChar c
  rw [toNat_lowerChar]
  split
  · split at hletter <;> omega
  · rfl

/-- A letter is no blank in either case, so `isBlank` does not see `lowerChar`. -/
@[simp] theorem isBlank_lowerChar (c : Char) : isBlank (lowerChar c) = isBlank c := by
  unfold isBlank
  rw [toNat_lowerChar]
  split
  · next h =>
    rw [Bool.eq_iff_iff]
    simp only [Bool.or_eq_true, Bool.and_eq_true, decide_eq_true_eq, beq_iff_eq]
    omega
  · rfl

theorem trimChars_map_lowerChar (cs : List Char) :
    trimChars (cs.map lowerChar) = (trimChars cs).map lowerChar := by
  have hblank : isBlank ∘ lowerChar = isBlank := funext isBlank_lowerChar
  simp only [trimChars, List.dropWhile_map, ← List.map_reverse, hblank]

/-! ## §3 Texts -/

@[simp] theorem toList_trim (s : String) : (trim s).toList = trimChars s.toList :=
  String.toList_ofList

@[simp] theorem toList_lower (s : String) : (lower s).toList = s.toList.map lowerChar :=
  String.toList_ofList

@[simp] theorem trim_trim (s : String) : trim (trim s) = trim s :=
  String.toList_inj.mp (by simp [trimChars_trimChars])

@[simp] theorem lower_lower (s : String) : lower (lower s) = lower s :=
  String.toList_inj.mp (by simp)

theorem trim_lower (s : String) : trim (lower s) = lower (trim s) :=
  String.toList_inj.mp (by simp [trimChars_map_lowerChar])

theorem trim_surrounded {front back : String} (s : String)
    (hfront : ∀ c ∈ front.toList, isBlank c = true) (hback : ∀ c ∈ back.toList, isBlank c = true) :
    trim (front ++ s ++ back) = trim s := by
  apply String.toList_inj.mp
  rw [toList_trim, toList_trim, String.toList_append, String.toList_append]
  exact trimChars_surrounded hfront hback

/-- Texts with the same letters for `sameLetters` are those that have one lower case. -/
theorem sameLetters_iff {a b : String} : sameLetters a b = true ↔ lower a = lower b := by
  rw [sameLetters, beq_iff_eq, ← String.toList_inj, toList_lower, toList_lower]

/-- A text with the letters of a trimmed one, by `sameLetters`, has no blanks around it either. -/
theorem eq_of_sameLetters_trim {a b : String} (h : sameLetters a (trim b) = true) : trim a = a := by
  rw [sameLetters_iff] at h
  -- In lower case nothing is left to trim, and trimming shortens what it changes.
  have hlower : lower (trim a) = lower a := by
    rw [← trim_lower, h, trim_lower, trim_trim]
  have hlength : (trimChars a.toList).length = a.toList.length := by
    simpa using congrArg (fun s : String => s.toList.length) hlower
  exact String.toList_inj.mp (by simpa using (trimChars_isInfix a.toList).eq_of_length hlength)

end LoopAnalysis.Text
