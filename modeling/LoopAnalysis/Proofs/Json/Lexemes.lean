import LoopAnalysis.Json.Parser
import Mathlib.Data.List.Infix
import Mathlib.Tactic.Common

/-!
# The characters of numbers and of quoted text

Numbers and quoted text are read from the front of a text. What is read depends on the characters
that are taken and on nothing behind them, as long as a number is not followed by something that
would go on with it.

## Main definitions

- `EndsNumber`: what may follow a number.

## Main statements

- `readNumber_taken`, `readPieces_taken`: the characters that a number or a text is read from, and
  that it is read from them whatever follows.
-/

namespace LoopAnalysis.Json

variable {cs rest more : List Char} {j : Json}

/-! ## §1 Digits -/

/-- No digit stands in front of the text. -/
def NoDigit (cs : List Char) : Prop := ∀ c ∈ cs.head?, digit? c = none

theorem noDigit_takeDigits (cs : List Char) : NoDigit (takeDigits cs).2 := by
  fun_induction takeDigits cs with
  | case1 => simp [NoDigit]
  | case2 c tail d hd ds left hleft ih => rwa [hleft] at ih
  | case3 c tail hd => simpa [NoDigit] using hd

/-- The digits that `takeDigits` takes off a text are taken from it whatever follows them. -/
theorem takeDigits_taken {ds : List Nat} (h : takeDigits cs = (ds, rest)) :
    ∃ taken, cs = taken ++ rest ∧
      ∀ more, NoDigit more → takeDigits (taken ++ more) = (ds, more) := by
  -- The digits end with the text, go on, or end at another character.
  fun_induction takeDigits cs generalizing ds with
  | case1 =>
    cases h
    refine ⟨[], rfl, fun more hmore => ?_⟩
    cases more with
    | nil => rfl
    | cons c more => simp [takeDigits, hmore c rfl]
  | case2 c tail d hd ds' left hleft ih =>
    cases h
    obtain ⟨taken, htail, htaken⟩ := ih hleft
    exact ⟨c :: taken, by rw [htail, List.cons_append],
      fun more hmore => by simp [takeDigits, hd, htaken more hmore]⟩
  | case3 c tail hd =>
    cases h
    refine ⟨[], rfl, fun more hmore => ?_⟩
    cases more with
    | nil => rfl
    | cons c more => simp [takeDigits, hmore c rfl]

/-! ## §2 Numbers -/

/-- **What may follow a number**: neither a digit nor a point nor the letter of an exponent. -/
def EndsNumber (cs : List Char) : Prop :=
  ∀ c ∈ cs.head?, digit? c = none ∧ c ≠ '.' ∧ c ≠ 'e' ∧ c ≠ 'E'

theorem EndsNumber.noDigit (h : EndsNumber more) : NoDigit more := fun c hc => (h c hc).1

/-- A property of the first character, if there is one, holds of two texts put together if it holds
of the second and, wherever the first goes on, there too. -/
theorem head?_append_of_head? {P : Char → Prop} {taken : List Char}
    (h : ∀ c ∈ (taken ++ rest).head?, P c) (hmore : ∀ c ∈ more.head?, P c) :
    ∀ c ∈ (taken ++ more).head?, P c := by
  cases taken with
  | nil => exact hmore
  | cons c taken => exact h

/-- What `takeExponent` takes, an exponent or its absence, is taken whatever follows. -/
theorem takeExponent_taken {exponent : Option (Bool × Nat)}
    (h : takeExponent cs = some (exponent, rest)) :
    ∃ taken, cs = taken ++ rest ∧
      ∀ more, EndsNumber more → takeExponent (taken ++ more) = some (exponent, more) := by
  have habsent : ∀ more, EndsNumber more → takeExponent ([] ++ more) = some (none, more) := by
    intro more hmore
    cases more with
    | nil => rfl
    | cons c more =>
      obtain ⟨-, -, he, hE⟩ := hmore c rfl
      simp [takeExponent, he, hE]
  unfold takeExponent at h
  split at h
  · cases h
    exact ⟨[], rfl, habsent⟩
  · next c tail =>
    dsimp only at h
    split at h
    · next hletter =>
      split at h
      · cases h
      · next ds left hds hdigits =>
        cases h
        -- The digits follow a plus sign, a minus sign or neither.
        split at hdigits
        · next digits =>
          obtain ⟨taken, rfl, htaken⟩ := takeDigits_taken hdigits
          refine ⟨c :: '+' :: taken, rfl, fun more hmore => ?_⟩
          simp [takeExponent, hletter, htaken more hmore.noDigit]
        · next digits =>
          obtain ⟨taken, rfl, htaken⟩ := takeDigits_taken hdigits
          refine ⟨c :: '-' :: taken, rfl, fun more hmore => ?_⟩
          simp [takeExponent, hletter, htaken more hmore.noDigit]
        · next hplus hminus =>
          obtain ⟨taken, rfl, htaken⟩ := takeDigits_taken hdigits
          refine ⟨c :: taken, rfl, fun more hmore => ?_⟩
          have hdigits' := htaken more hmore.noDigit
          cases taken with
          | nil =>
            -- There has to be a digit.
            have hempty := htaken [] (by simp [NoDigit])
            exact (hds (congrArg Prod.fst hempty).symm).elim
          | cons d taken =>
            have hd : d ≠ '+' := by
              rintro rfl
              exact hplus _ rfl
            have hd' : d ≠ '-' := by
              rintro rfl
              exact hminus _ rfl
            rw [List.cons_append] at hdigits'
            simp [takeExponent, hletter, hd, hd', hdigits']
    · cases h
      exact ⟨[], rfl, habsent⟩

/-- Whether digits make the whole part of a number: a single zero, or no zero in front. -/
def isWholePart : List Nat → Bool
  | [] => false
  | 0 :: _ :: _ => false
  | _ => true

/-- What is read behind the whole part: a fraction, an exponent, both or neither. -/
def readBehindWhole (negative : Bool) (whole : List Nat) (rest : List Char) :
    Option (Json × List Char) := do
  let s := whole.foldl Significand.push ⟨0, 0⟩
  match rest with
  | '.' :: rest =>
    let (fraction, rest) := takeDigits rest
    if fraction.isEmpty then none
    else
      let t := fraction.foldl Significand.push ⟨s.value, 0⟩
      let counted : Int := (s.omitted : Int) - (fraction.length - t.omitted : Nat)
      let (exponent, rest) ← takeExponent rest
      return (ofScaled negative t.value counted exponent, rest)
  | rest =>
    let (exponent, tail) ← takeExponent rest
    match exponent with
    | none => return (ofWhole negative s, tail)
    | some _ => return (ofScaled negative s.value s.omitted exponent, tail)

/-- A number is its whole part and what `readBehindWhole` makes of the rest. -/
theorem readMagnitude_eq {negative : Bool} {whole : List Nat} {tail : List Char}
    (h : takeDigits cs = (whole, tail)) :
    readMagnitude negative cs =
      if isWholePart whole then readBehindWhole negative whole tail else none := by
  unfold readMagnitude
  rw [h]
  dsimp only
  split
  · rfl
  · rfl
  · next hne hzero =>
    have hwhole : isWholePart whole = true := by
      unfold isWholePart
      split
      · exact (hne rfl).elim
      · exact (hzero _ _ rfl).elim
      · rfl
    rw [if_pos hwhole]
    rfl

/-- What `readBehindWhole` reads is read whatever follows. -/
theorem readBehindWhole_taken {negative : Bool} {whole : List Nat}
    (h : readBehindWhole negative whole cs = some (j, rest)) :
    ∃ taken, cs = taken ++ rest ∧ ∀ more, EndsNumber more →
      readBehindWhole negative whole (taken ++ more) = some (j, more) := by
  unfold readBehindWhole at h
  dsimp only at h
  split at h
  · next tail =>
    -- A fraction needs a digit, and an exponent may follow it.
    obtain ⟨fraction, left, hfraction⟩ : ∃ fraction left, takeDigits tail = (fraction, left) :=
      ⟨_, _, rfl⟩
    have hnone := noDigit_takeDigits tail
    rw [hfraction] at h hnone
    obtain ⟨digits, rfl, hdigits⟩ := takeDigits_taken hfraction
    split at h
    · cases h
    · next hsome =>
      obtain ⟨⟨exponent, left'⟩, hexponent, heq⟩ := Option.bind_eq_some_iff.mp h
      cases heq
      obtain ⟨power, rfl, hpower⟩ := takeExponent_taken hexponent
      refine ⟨'.' :: (digits ++ power), by simp, fun more hmore => ?_⟩
      have htaken := hdigits _ (head?_append_of_head? hnone hmore.noDigit)
      simp [readBehindWhole, htaken, hpower more hmore, hsome]
  · next hpoint =>
    obtain ⟨⟨exponent, left⟩, hexponent, heq⟩ := Option.bind_eq_some_iff.mp h
    dsimp only at heq
    obtain ⟨power, rfl, hpower⟩ := takeExponent_taken hexponent
    have hleft : left = rest := by
      split at heq
      · cases heq
        rfl
      · cases heq
        rfl
    subst hleft
    refine ⟨power, rfl, fun more hmore => ?_⟩
    -- Neither the exponent nor what follows begins with a point.
    have hpower' : ∀ c ∈ (power ++ left).head?, c ≠ '.' := by
      rintro c hc rfl
      obtain ⟨tail, htail⟩ := List.head?_eq_some_iff.mp hc
      exact hpoint tail htail
    have hnopoint := head?_append_of_head? hpower' fun c hc => (hmore c hc).2.1
    unfold readBehindWhole
    split
    · next heq => exact (hnopoint '.' (by simp [heq]) rfl).elim
    · rw [hpower more hmore]
      cases exponent <;> cases heq <;> rfl

theorem readMagnitude_taken {negative : Bool} (h : readMagnitude negative cs = some (j, rest)) :
    ∃ taken, cs = taken ++ rest ∧
      ∀ more, EndsNumber more → readMagnitude negative (taken ++ more) = some (j, more) := by
  obtain ⟨whole, tail, hdigits⟩ : ∃ whole tail, takeDigits cs = (whole, tail) := ⟨_, _, rfl⟩
  have hnone := noDigit_takeDigits cs
  rw [hdigits] at hnone
  rw [readMagnitude_eq hdigits, Option.ite_none_right_eq_some] at h
  obtain ⟨hwhole, hbehind⟩ := h
  obtain ⟨digits, rfl, htaken⟩ := takeDigits_taken hdigits
  obtain ⟨behind, rfl, hread⟩ := readBehindWhole_taken hbehind
  refine ⟨digits ++ behind, by simp, fun more hmore => ?_⟩
  have hfirst := htaken _ (head?_append_of_head? hnone hmore.noDigit)
  rw [List.append_assoc, readMagnitude_eq hfirst, if_pos hwhole, hread more hmore]

/-- What `readMagnitude` reads begins with a digit. -/
theorem head_of_readMagnitude {negative : Bool} (h : readMagnitude negative cs = some (j, rest)) :
    ∃ c tail, cs = c :: tail ∧ (digit? c).isSome = true := by
  cases cs with
  | nil => simp [readMagnitude, takeDigits] at h
  | cons c tail =>
    refine ⟨c, tail, rfl, ?_⟩
    cases hc : digit? c with
    | none => simp [readMagnitude, takeDigits, hc] at h
    | some d => rfl

/-- What `readNumber` reads begins with a digit or a minus sign. -/
theorem head_of_readNumber (h : readNumber cs = some (j, rest)) :
    ∃ c tail, cs = c :: tail ∧ (c = '-' ∨ (digit? c).isSome = true) := by
  unfold readNumber at h
  split at h
  · next tail => exact ⟨'-', tail, rfl, .inl rfl⟩
  · obtain ⟨c, tail, rfl, hc⟩ := head_of_readMagnitude h
    exact ⟨c, tail, rfl, .inr hc⟩

/-- **The characters of a number**: `readNumber` reads it from them whatever follows, if that does
not go on with the number. -/
theorem readNumber_taken (h : readNumber cs = some (j, rest)) :
    ∃ taken, cs = taken ++ rest ∧
      ∀ more, EndsNumber more → readNumber (taken ++ more) = some (j, more) := by
  unfold readNumber at h
  split at h
  · obtain ⟨taken, rfl, htaken⟩ := readMagnitude_taken h
    exact ⟨'-' :: taken, rfl, htaken⟩
  · next hminus =>
    obtain ⟨taken, rfl, htaken⟩ := readMagnitude_taken h
    refine ⟨taken, rfl, fun more hmore => ?_⟩
    have hread := htaken more hmore
    obtain ⟨c, tail, hcons, hc⟩ := head_of_readMagnitude hread
    rw [hcons] at hread ⊢
    -- Without a minus the first character is a digit, so none appears in front of it.
    have hne : c ≠ '-' := by
      rintro rfl
      simp [digit?] at hc
    simp [readNumber, hne, hread]

/-! ## §3 Quoted text -/

/-- **The characters of a text**, behind its opening quote: `readPieces` reads it from them whatever
follows. -/
theorem readPieces_taken {pieces : List Piece} (h : readPieces cs = some (pieces, rest)) :
    ∃ taken, cs = taken ++ rest ∧ ∀ more, readPieces (taken ++ more) = some (pieces, more) := by
  -- One case for each way in which the text goes on: its end, an escape, or a plain character.
  fun_induction readPieces cs generalizing pieces with
  | case1 => cases h
  | case2 tail =>
    cases h
    exact ⟨['"'], rfl, fun more => rfl⟩
  | case3 a b c d tail ih =>
    obtain ⟨n, hn, h⟩ := Option.bind_eq_some_iff.mp h
    obtain ⟨⟨pieces', left⟩, hleft, heq⟩ := Option.bind_eq_some_iff.mp h
    cases heq
    obtain ⟨taken, rfl, htaken⟩ := ih hleft
    refine ⟨'\\' :: 'u' :: a :: b :: c :: d :: taken, rfl, fun more => ?_⟩
    simp only [List.cons_append, readPieces, hn, htaken more]
    rfl
  | case4 c tail hunit ih =>
    obtain ⟨e, he, h⟩ := Option.bind_eq_some_iff.mp h
    obtain ⟨⟨pieces', left⟩, hleft, heq⟩ := Option.bind_eq_some_iff.mp h
    cases heq
    obtain ⟨taken, rfl, htaken⟩ := ih hleft
    refine ⟨'\\' :: c :: taken, rfl, fun more => ?_⟩
    -- A short escape is not the one with four digits.
    have hc : c ≠ 'u' := by
      rintro rfl
      simp [escape?] at he
    simp [readPieces, hc, he, htaken more]
  | case5 => cases h
  | case6 c tail hquote hunit hescape hplain ih =>
    obtain ⟨⟨pieces', left⟩, hleft, heq⟩ := Option.bind_eq_some_iff.mp h
    cases heq
    obtain ⟨taken, rfl, htaken⟩ := ih hleft
    refine ⟨c :: taken, rfl, fun more => ?_⟩
    have hc : c ≠ '\\' := by
      rintro rfl
      simp at hplain
    rw [List.cons_append, readPieces]
    · simp [hplain, htaken more]
    · exact hquote
    · exact fun _ _ _ _ _ heq _ => hc heq
    · exact fun _ _ heq _ => hc heq

end LoopAnalysis.Json
