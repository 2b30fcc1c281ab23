import LoopAnalysis.Text.Basic
import Mathlib.Data.List.Infix

/-!
# Occurrences of one text in another

Searching for a text is asking for an infix of its characters.

## Main statements

- `contains_iff`: what the search finds;
- `contains_of_contains_append`: whoever contains a text contains its beginning;
- `contains_append_eq`: a lead-in in which the text cannot begin does not matter;
- `append_ne_append`: texts with different beginnings differ;
- `contains_append_of_foreign`: a text cannot lie across a character that it does not have;
- `toString_injective`, `toString_int_injective`: numbers are told apart by their texts.
-/

namespace LoopAnalysis.Text

theorem occursIn_iff {sub cs : List Char} : occursIn sub cs = true ↔ sub <:+: cs := by
  induction cs with
  | nil => rw [occursIn, List.isEmpty_iff, List.infix_nil]
  | cons c cs ih =>
    rw [occursIn, Bool.or_eq_true, List.isPrefixOf_iff_prefix, ih, List.infix_cons_iff]

/-- The search of `contains` finds exactly the infixes. -/
theorem contains_iff {s sub : String} : contains s sub = true ↔ sub.toList <:+: s.toList :=
  occursIn_iff

/-- Whatever contains a text contains all that is in it. -/
theorem contains_trans {s t sub : String} (ht : contains s t = true) (h : contains t sub = true) :
    contains s sub = true := by
  rw [contains_iff] at ht h ⊢
  exact h.trans ht

/-- Whatever contains a text contains the beginning of that text. -/
theorem contains_of_contains_append {s first second : String}
    (h : contains s (first ++ second) = true) : contains s first = true := by
  rw [contains_iff, String.toList_append] at h
  exact contains_iff.mpr ((List.prefix_append _ _).isInfix.trans h)

/-- Joined texts contain the second of them, by `contains`. -/
theorem contains_append_right (s sub : String) : contains (s ++ sub) sub = true := by
  rw [contains_iff, String.toList_append]
  exact (List.suffix_append _ _).isInfix

/-- Joined texts contain the first of them, by `contains`. -/
theorem contains_append_left (sub s : String) : contains (sub ++ s) sub = true := by
  rw [contains_iff, String.toList_append]
  exact (List.prefix_append _ _).isInfix

/-- What an end of a text contains, the text contains. -/
theorem contains_append_of_contains {t sub : String} (s : String) (h : contains t sub = true) :
    contains (s ++ t) sub = true :=
  contains_trans (contains_append_right s t) h

/-- Texts differ if neither of their beginnings can be continued to the other. -/
theorem append_ne_append {first second : String} (s t : String)
    (hfirst : first.toList.isPrefixOf second.toList = false)
    (hsecond : second.toList.isPrefixOf first.toList = false) : first ++ s ≠ second ++ t := by
  intro h
  have hbegin : first.toList <+: second.toList ++ t.toList := by
    rw [← String.toList_append, ← h, String.toList_append]
    exact List.prefix_append _ _
  rcases List.prefix_or_prefix_of_prefix hbegin (List.prefix_append _ _) with hp | hp
  · exact Bool.eq_false_iff.mp hfirst (List.isPrefixOf_iff_prefix.mpr hp)
  · exact Bool.eq_false_iff.mp hsecond (List.isPrefixOf_iff_prefix.mpr hp)

/-- Whether a text that begins with `first` can never begin within `lead`, whatever follows it: no
end of `lead` begins with `first` or is a beginning of it. -/
def neverBegins (first : List Char) : List Char → Bool
  | [] => true
  | c :: lead =>
    !first.isPrefixOf (c :: lead) && !(c :: lead).isPrefixOf first && neverBegins first lead

/-- A lead-in for which `neverBegins` holds does not matter to the search. -/
theorem occursIn_append {first more lead cs : List Char} (h : neverBegins first lead = true) :
    occursIn (first ++ more) (lead ++ cs) = occursIn (first ++ more) cs := by
  induction lead with
  | nil => rfl
  | cons c lead ih =>
    simp only [neverBegins, Bool.and_eq_true, Bool.not_eq_true', ← Bool.not_eq_true,
      List.isPrefixOf_iff_prefix] at h
    obtain ⟨⟨hlong, hshort⟩, hrest⟩ := h
    -- If it began here, one of the two texts would be a beginning of the other.
    have hhere : (first ++ more).isPrefixOf (c :: (lead ++ cs)) = false := by
      rw [← Bool.not_eq_true, List.isPrefixOf_iff_prefix]
      intro hbegin
      have hfirst : first <+: (c :: lead) ++ cs := (List.prefix_append _ _).trans hbegin
      rcases List.prefix_or_prefix_of_prefix hfirst (List.prefix_append _ _) with hp | hp
      · exact hlong hp
      · exact hshort hp
    rw [List.cons_append, occursIn, hhere, Bool.false_or, ih hrest]

/-- The same as `occursIn_append` for texts. -/
theorem contains_append_eq {lead first : String} (s more : String)
    (h : neverBegins first.toList lead.toList = true) :
    contains (lead ++ s) (first ++ more) = contains s (first ++ more) := by
  rw [contains, contains, String.toList_append, String.toList_append]
  exact occursIn_append h

/-- A text without one of the characters of another does not contain it. -/
theorem contains_eq_false_of_notMem {s sub : String} {c : Char} (hc : c ∈ sub.toList)
    (hs : c ∉ s.toList) : contains s sub = false := by
  rw [Bool.eq_false_iff]
  intro h
  exact hs ((contains_iff.mp h).subset hc)

/-- By `contains`, a text is in one of two that are joined, or it has the character at which they
are. -/
theorem contains_append_of_foreign {s more sub : String}
    (h : ∀ c ∈ more.toList.head?, c ∉ sub.toList) :
    contains (s ++ more) sub = (contains s sub || contains more sub) := by
  rw [Bool.eq_iff_iff, Bool.or_eq_true, contains_iff, contains_iff, contains_iff,
    String.toList_append, List.infix_append_iff]
  constructor
  · rintro (hs | hmore | ⟨left, right, hsub, hleft, hright⟩)
    · exact .inl hs
    · exact .inr hmore
    · -- It lies across the place where the two are joined.
      cases right with
      | nil =>
        rw [hsub, List.append_nil]
        exact .inl hleft.isInfix
      | cons c right =>
        -- The part in the second text would begin with its first character.
        obtain ⟨rest, hrest⟩ := hright
        refine absurd ?_ (h c (by simp [← hrest]))
        simp [hsub]
  · rintro (hs | hmore)
    · exact .inl hs
    · exact .inr (.inl hmore)

/-- Numbers are written in different ways by `toString`. -/
theorem toString_injective : Function.Injective (toString : Nat → String) := by
  intro i j h
  rw [Nat.toString_eq_ofList_toDigits, Nat.toString_eq_ofList_toDigits, String.ofList_inj] at h
  -- The digits of a number give it back.
  have hvalues := congrArg (Nat.ofDigitChars 10 · 0) h
  simpa only [Nat.ofDigitChars_toDigits (b := 10) (by decide) (by decide)] using hvalues

/-- A number without a sign is not written with one. -/
theorem toString_ne_minus (m n : Nat) : toString m ≠ "-" ++ toString n := by
  intro h
  have hmem : '-' ∈ (toString m).toList := by simp [h]
  rw [Nat.toString_eq_ofList_toDigits, String.toList_ofList] at hmem
  have hdigit : '-'.isDigit = true := Nat.isDigit_of_mem_toDigits (by decide) (by decide) hmem
  exact absurd hdigit (by decide)

/-- Integers are written in different ways by `toString`, with their signs. -/
theorem toString_int_injective : Function.Injective (toString : Int → String) := by
  intro i j h
  -- Two of the same sign are told apart by their digits, and others by the sign.
  cases i with
  | ofNat m =>
    cases j with
    | ofNat n => exact congrArg _ (toString_injective h)
    | negSucc n => exact absurd h (toString_ne_minus m (n + 1))
  | negSucc m =>
    cases j with
    | ofNat n => exact absurd h.symm (toString_ne_minus n (m + 1))
    | negSucc n =>
      have hsame : "-" ++ toString (m + 1) = "-" ++ toString (n + 1) := h
      rw [String.append_right_inj] at hsame
      rw [Nat.succ.inj (toString_injective hsame)]

end LoopAnalysis.Text
