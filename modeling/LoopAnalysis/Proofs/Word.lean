import LoopAnalysis.Word
import Mathlib.Tactic.Positivity

/-!
# Checked words are exact

A checked operation on 64-bit words that gives a result gives the one of the integers, and it gives
a result exactly where the integer one fits into a word.

## Main statements

- `ofInt?_eq_some_iff`: a word stands for an integer exactly when it has that value;
- `add?_eq_some_iff`, `sub?_eq_some_iff`, `mul?_eq_some_iff`: the same for sums, differences and
  products;
- `div?_eq_some_iff`, `rem?_eq_zero`: quotients, and remainders that vanish.
-/

namespace LoopAnalysis.Word

/-! ## §1 Words and integers -/

/-- The word that `ofInt?` makes of an integer has its value, and out of the range it makes none. -/
theorem ofInt?_eq_some_iff {z : Int} {w : Int64} : ofInt? z = some w ↔ w.toInt = z := by
  -- Every word has a value in the range, which settles both the guard and the way back.
  have hlow : -2 ^ 63 ≤ w.toInt := w.le_toInt
  have hhigh : w.toInt < 2 ^ 63 := w.toInt_lt
  unfold ofInt?
  constructor
  · intro h
    split at h
    · next hrange =>
      cases h
      exact Int64.toInt_ofInt_of_le (by omega) (by omega)
    · cases h
  · rintro rfl
    rw [if_pos (by omega), Int64.ofInt_toInt]

/-! ## §2 Operations -/

theorem add?_eq_some_iff {a b c : Int64} : add? a b = some c ↔ c.toInt = a.toInt + b.toInt :=
  ofInt?_eq_some_iff

theorem sub?_eq_some_iff {a b c : Int64} : sub? a b = some c ↔ c.toInt = a.toInt - b.toInt :=
  ofInt?_eq_some_iff

theorem mul?_eq_some_iff {a b c : Int64} : mul? a b = some c ↔ c.toInt = a.toInt * b.toInt :=
  ofInt?_eq_some_iff

theorem div?_eq_some_iff {a b c : Int64} :
    div? a b = some c ↔ b ≠ 0 ∧ c.toInt = a.toInt.tdiv b.toInt := by
  unfold div?
  by_cases hb : b = 0
  · simp [hb]
  · simp [hb, ofInt?_eq_some_iff]

/-- The remainder that `rem?` gives is the integer one, rounded towards zero like `Int.tmod`. -/
theorem toInt_of_rem? {a b r : Int64} (h : rem? a b = some r) :
    r.toInt = a.toInt.tmod b.toInt := by
  unfold rem? at h
  -- `rem?` refuses a zero divisor and a quotient out of range, and is the integer one elsewhere.
  split at h
  · cases h
  · split at h
    · exact ofInt?_eq_some_iff.mp h
    · cases h

/-- A word is zero when its value is. -/
theorem eq_zero_iff {w : Int64} : w = 0 ↔ w.toInt = 0 := by
  rw [← Int64.toInt_inj]
  rfl

theorem magnitude_pos {w : Int64} (h : w ≠ 0) : 0 < magnitude w :=
  Int.natAbs_pos.mpr (mt eq_zero_iff.mpr h)

/-- The remainder of `rem?` vanishes exactly when the divisor divides. -/
theorem rem?_eq_zero {a b r : Int64} (h : rem? a b = some r) : r = 0 ↔ b.toInt ∣ a.toInt := by
  rw [eq_zero_iff, toInt_of_rem? h, Int.dvd_iff_tmod_eq_zero]

/-- A power of two below `2 ^ 32` is the value of its word. -/
theorem toInt_twoPow {k : Nat} (hk : k < 32) :
    (Int64.ofInt (Nat.pow 2 k : Nat)).toInt = 2 ^ k := by
  -- The bound leaves room for the sign, so the power lies in the range of `Int64.ofInt`.
  have hbound : (2 : Int) ^ k < 2 ^ 32 := by
    exact_mod_cast Nat.pow_lt_pow_right (by decide : 1 < 2) hk
  have hpos : (0 : Int) < 2 ^ k := by positivity
  have hcast : ((Nat.pow 2 k : Nat) : Int) = 2 ^ k := by
    rw [Nat.pow_eq, Int.natCast_pow]
    rfl
  rw [hcast]
  exact Int64.toInt_ofInt_of_le (by omega) (by omega)

end LoopAnalysis.Word
