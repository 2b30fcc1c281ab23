/-!
# Shortest decimal digits

A finite double is `m * 2 ^ q`. Among the decimals that lie in its rounding interval this module
finds one with the fewest digits, and of those the one nearest to the value. All arithmetic is
exact, on natural numbers.
-/

namespace LoopAnalysis.Decimal

/-- A positive decimal `digits * 10 ^ exponent`. -/
structure Digits where
  digits   : Nat
  exponent : Int
deriving Repr, BEq

/-- A finite magnitude `mantissa * 2 ^ exponent`; `tight` says that the next smaller double is
half as far away as the next larger one. -/
structure Binary where
  mantissa : Nat
  exponent : Int
  tight    : Bool
deriving Repr

/-- How a double reads. -/
inductive Reading where
  | nan
  | infinite (negative : Bool)
  | finite (negative : Bool) (magnitude : Binary)

/-- The bit of a mantissa that is not stored, `2 ^ 52`. -/
def hiddenBit : Nat := 4503599627370496

/-- The parts of a double, from its bits. -/
def Reading.ofFloat (x : Float) : Reading :=
  let bits := x.toBits.toNat
  let negative := bits / 9223372036854775808 == 1
  let exponent : Nat := bits / hiddenBit % 2048
  let fraction : Nat := bits % hiddenBit
  if exponent == 2047 then
    if fraction == 0 then .infinite negative else .nan
  else if exponent == 0 then .finite negative ⟨fraction, -1074, false⟩
  else
    .finite negative
      ⟨hiddenBit + fraction, (exponent : Int) - 1075, fraction == 0 && exponent != 1⟩

/-- The power `base ^ e` with a signed exponent, as a numerator and a denominator. -/
def signedPower (base : Nat) (e : Int) : Nat × Nat :=
  match e with
  | .ofNat n => (Nat.pow base n, 1)
  | .negSucc n => (1, Nat.pow base (n + 1))

/-- The least `k` with `m * 2 ^ q < 10 ^ k`. -/
def leadingPlace (m : Nat) (q : Int) : Int :=
  let estimate : Int := (((Nat.log2 m : Int) + q) * 30103).fdiv 100000
  let below (k : Int) : Bool :=
    let (tn, td) := signedPower 2 q
    let (kn, kd) := signedPower 10 k
    m * tn * kd < kn * td
  let candidates := [estimate - 1, estimate, estimate + 1]
  (candidates.find? below).getD (estimate + 2)

/-- Which way an exact tie between two decimals of `onGrid` goes. -/
inductive Tie where
  | up
  | toEven

/-- The decimal with `n` digits that stands for the value `v`, if one reads back; two that are
equally near are told apart by `tie`. -/
def onGrid (v : Binary) (tie : Tie) (place : Int) (n : Nat) : Option Digits :=
  let e : Int := place - n
  let (tn, td) := signedPower 2 (v.exponent - 2)
  let (en, ed) := signedPower 10 e
  -- Every quantity below is scaled by `4 * td * ed`.
  let unit := en * td
  let value := 4 * v.mantissa * tn * ed
  let low := (4 * v.mantissa - (if v.tight then 1 else 2)) * tn * ed
  let high := (4 * v.mantissa + 2) * tn * ed
  let closed := v.mantissa % 2 == 0
  let inside (x : Nat) : Bool := if closed then low ≤ x && x ≤ high else low < x && x < high
  let c := value / unit
  let below := c * unit
  let above := below + unit
  match c != 0 && inside below, inside above with
  | true, true =>
    if value - below < above - value then some ⟨c, e⟩
    else if above - value < value - below then some ⟨c + 1, e⟩
    else
      match tie with
      | .up => some ⟨c + 1, e⟩
      | .toEven => some ⟨if c % 2 == 0 then c else c + 1, e⟩
  | true, false => some ⟨c, e⟩
  | false, true => some ⟨c + 1, e⟩
  | false, false => none

/-- Drops trailing zeros of the digits; at most `fuel` of them. -/
def Digits.strip : Nat → Digits → Digits
  | 0, d => d
  | fuel + 1, d =>
    if d.digits != 0 && d.digits % 10 == 0 then strip fuel ⟨d.digits / 10, d.exponent + 1⟩ else d

/-- The shortest decimal that reads back as a nonzero magnitude: the first that `onGrid` finds.
Seventeen digits always do. -/
def shortest (tie : Tie) (v : Binary) : Digits :=
  let place := leadingPlace v.mantissa v.exponent
  let found := (List.range 17).findSome? fun n => onGrid v tie place (n + 1)
  (found.getD ⟨v.mantissa, v.exponent⟩).strip 20

end LoopAnalysis.Decimal
