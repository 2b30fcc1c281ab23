/-!
# Checked 64-bit integers

Index arithmetic is carried out on signed 64-bit words. Every operation here answers `none`
instead of wrapping, so a result that is present is the mathematical one.
-/

namespace LoopAnalysis.Word

/-- The word whose value is `z`, when `z` lies between `-2 ^ 63` and `2 ^ 63 - 1`. -/
def ofInt? (z : Int) : Option Int64 :=
  if -9223372036854775808 ≤ z ∧ z ≤ 9223372036854775807 then some (Int64.ofInt z) else none

/-- Sum, unless it leaves the range of `ofInt?`. -/
def add? (a b : Int64) : Option Int64 := ofInt? (a.toInt + b.toInt)

/-- Difference, unless it leaves the range. -/
def sub? (a b : Int64) : Option Int64 := ofInt? (a.toInt - b.toInt)

/-- Product, unless it leaves the range of `ofInt?`. -/
def mul? (a b : Int64) : Option Int64 := ofInt? (a.toInt * b.toInt)

/-- Quotient rounded toward zero; `none` for a zero divisor and for the one quotient that leaves
the range. -/
def div? (a b : Int64) : Option Int64 :=
  if b = 0 then none else ofInt? (a.toInt.tdiv b.toInt)

/-- Remainder of the quotient rounded toward zero, defined exactly where `div?` is. -/
def rem? (a b : Int64) : Option Int64 :=
  if b = 0 then none
  else if a.toInt.tdiv b.toInt ≤ 9223372036854775807 then ofInt? (a.toInt.tmod b.toInt)
  else none

/-- Distance from zero as a natural number, so that the least word has one too. -/
def magnitude (a : Int64) : Nat := a.toInt.natAbs

end LoopAnalysis.Word
