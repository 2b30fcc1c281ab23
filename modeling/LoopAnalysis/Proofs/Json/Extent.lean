import LoopAnalysis.Proofs.Json.Grammar

/-!
# How far a reader reads

A reader takes characters off the front of a text and hands back the rest. What it reads as a list
or a record stands between the brackets of one.

## Main definitions

- `Json.isBracketed`: lists and records;
- `Json.Extent`: the characters that a value is read from.

## Main statements

- `extent_of_readValue`: a list or a record is read from between two brackets;
- `isBracketed_of_settle`: and stays one as a plain value.
-/

namespace LoopAnalysis.Json

variable {cs rest front : List Char} {fuel : Nat} {j : Json}

/-! ## §1 Numbers -/

/-- Lists and records, the values written between brackets. -/
def isBracketed : Json → Bool
  | .arr _ => true
  | .obj _ => true
  | _ => false

theorem isBracketed_ofParts (negative : Bool) (significand : Nat) (e : Int) :
    (ofParts negative significand e).isBracketed = false := by
  unfold ofParts
  split <;> rfl

theorem isBracketed_ofWhole (negative : Bool) (s : Significand) :
    (ofWhole negative s).isBracketed = false := by
  unfold ofWhole
  split
  · exact isBracketed_ofParts _ _ _
  · split
    · rfl
    · split <;> rfl

theorem isBracketed_ofScaled (negative : Bool) (significand : Nat) (shift : Int)
    (exponent : Option (Bool × Nat)) :
    (ofScaled negative significand shift exponent).isBracketed = false := by
  unfold ofScaled
  -- Every number comes to an integer or a fraction, or cannot be read.
  split
  · exact isBracketed_ofParts _ _ _
  · split
    · split <;> rfl
    · exact isBracketed_ofParts _ _ _

theorem isBracketed_of_readMagnitude {negative : Bool}
    (h : readMagnitude negative cs = some (j, rest)) : j.isBracketed = false := by
  unfold readMagnitude at h
  generalize takeDigits cs = digits at h
  obtain ⟨whole, tail⟩ := digits
  dsimp only at h
  split at h
  · cases h
  · cases h
  · split at h
    · next tail' =>
      -- A fraction and an exponent follow.
      generalize takeDigits tail' = digits at h
      obtain ⟨fraction, left⟩ := digits
      dsimp only at h
      split at h
      · cases h
      · obtain ⟨⟨exponent, left'⟩, -, heq⟩ := Option.bind_eq_some_iff.mp h
        cases heq
        exact isBracketed_ofScaled _ _ _ _
    · -- No fraction: whether there is an exponent decides how the digits count.
      obtain ⟨⟨exponent, left⟩, -, heq⟩ := Option.bind_eq_some_iff.mp h
      dsimp only at heq
      split at heq
      · cases heq
        exact isBracketed_ofWhole _ _
      · cases heq
        exact isBracketed_ofScaled _ _ _ _

theorem isBracketed_of_readNumber (h : readNumber cs = some (j, rest)) :
    j.isBracketed = false := by
  unfold readNumber at h
  split at h
  · exact isBracketed_of_readMagnitude h
  · exact isBracketed_of_readMagnitude h

/-! ## §2 Values -/

/-- An opening bracket and the one that closes it. -/
def Brackets (opening closing : Char) : Prop :=
  (opening = '[' ∧ closing = ']') ∨ (opening = '{' ∧ closing = '}')

/-- **The characters that a value is read from**, given what was there and what is left as `rest`.
-/
inductive Extent (cs : List Char) : Json → List Char → Prop where
  | scalar {j : Json} {rest : List Char} (hscalar : j.isBracketed = false) (hrest : rest <:+ cs) :
      Extent cs j rest
  /-- A value between `Brackets`, behind the closing one of which the rest begins. -/
  | bracketed {j : Json} {rest inside : List Char} {opening closing : Char}
      (hpair : Brackets opening closing) (hopen : skipGaps cs = opening :: inside)
      (hclose : closing :: rest <:+ inside) : Extent cs j rest

theorem Extent.brackets (h : Extent cs j rest) (hj : j.isBracketed = true) :
    ∃ opening inside closing, Brackets opening closing ∧ skipGaps cs = opening :: inside ∧
      closing :: rest <:+ inside := by
  -- A scalar has no brackets.
  cases h with
  | scalar hscalar _ =>
    rw [hj] at hscalar
    cases hscalar
  | bracketed hpair hopen hclose => exact ⟨_, _, _, hpair, hopen, hclose⟩

theorem extent_of_brackets {opening closing : Char} (hpair : Brackets opening closing)
    (hfront : Gaps front) (inside rest : List Char) :
    Extent (front ++ opening :: (inside ++ [closing]) ++ rest) j rest := by
  have hgap : isGap opening = false := by
    rcases hpair with ⟨rfl, -⟩ | ⟨rfl, -⟩ <;> rfl
  have hopen : skipGaps (front ++ opening :: (inside ++ [closing]) ++ rest) =
      opening :: (inside ++ closing :: rest) := by
    rw [List.append_assoc, skipGaps_append hfront]
    simp [skipGaps_cons hgap]
  exact .bracketed hpair hopen (List.suffix_append _ _)

/-- A value that is `Written` somewhere extends as far as it is written. -/
theorem Written.extent (h : Written cs (.value j)) (hfront : Gaps front) (rest : List Char) :
    Extent (front ++ cs ++ rest) j rest := by
  generalize hpart : Part.value j = part at h
  cases h with
  | null | yes | no =>
    cases hpart
    exact .scalar rfl (List.suffix_append _ _)
  | number hread =>
    cases hpart
    exact .scalar (isBracketed_of_readNumber hread) (List.suffix_append _ _)
  | @quoted cs pieces hread =>
    cases hpart
    refine .scalar ?_ (List.suffix_append _ _)
    unfold ofPieces
    split <;> rfl
  | @emptyList gaps _ => exact extent_of_brackets (.inl ⟨rfl, rfl⟩) hfront gaps rest
  | @list cs items hitems =>
    obtain ⟨inside, rfl⟩ := hitems.closing.1 items rfl
    exact extent_of_brackets (.inl ⟨rfl, rfl⟩) hfront inside rest
  | @emptyRecord gaps _ => exact extent_of_brackets (.inr ⟨rfl, rfl⟩) hfront gaps rest
  | @record cs entries hentries =>
    obtain ⟨inside, rfl⟩ := hentries.closing.2 entries rfl
    exact extent_of_brackets (.inr ⟨rfl, rfl⟩) hfront inside rest
  | _ => cases hpart

theorem extent_of_readValue (h : readValue fuel cs = some (j, rest)) : Extent cs j rest := by
  obtain ⟨front, taken, hfront, rfl, hwritten⟩ := (written_of_readers fuel).1 h
  exact hwritten.extent hfront rest

/-! ## §3 Plain values -/

/-- The plain value that `settle` makes is a list or a record exactly when the document is one. -/
theorem isBracketed_of_settle {room : Nat} {document : Json} (h : settle room j = some document) :
    document.isBracketed = j.isBracketed := by
  cases j with
  | arr items =>
    cases room with
    | zero => simp [settle] at h
    | succ room =>
      obtain ⟨settled, -, rfl⟩ := Option.map_eq_some_iff.mp h
      rfl
  | obj entries =>
    cases room with
    | zero => simp [settle] at h
    | succ room =>
      obtain ⟨settled, -, rfl⟩ := Option.map_eq_some_iff.mp h
      rfl
  | unreadable => simp [settle] at h
  | null | bool | int | float | str =>
    simp only [settle, Option.some.injEq] at h
    rw [← h]

end LoopAnalysis.Json
