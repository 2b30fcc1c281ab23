import LoopAnalysis.Decimal.Shortest

/-!
# Layout of decimals

How a double is written: positionally or with an exponent, with or without a fraction, and with a
fixed number of places.
-/

namespace LoopAnalysis.Decimal

/-- The decisions a format makes about a double. -/
structure Layout where
  /-- Whether a number whose decimal point follows its `k`-th digit is written positionally. -/
  positional : Int → Bool
  /-- Whether an integral number keeps the fraction `.0`. -/
  keepsFraction : Bool
  tie : Tie
  nan : String
  infinity : String

/-- `n` zeros. -/
def zeros (n : Nat) : String := String.ofList (List.replicate n '0')

/-- Digits with the decimal point after the `place`-th of them, and `zeros` where digits are
missing. -/
def writePositional (keepsFraction : Bool) (digits : String) (place : Int) : String :=
  let n := digits.length
  if place ≤ 0 then "0." ++ zeros (-place).toNat ++ digits
  else if n ≤ place.toNat then
    digits ++ zeros (place.toNat - n) ++ (if keepsFraction then ".0" else "")
  else
    String.ofList (digits.toList.take place.toNat) ++ "." ++
      String.ofList (digits.toList.drop place.toNat)

/-- One digit before the point, and the exponent after `e`. -/
def writeScientific (digits : String) (place : Int) : String :=
  let fraction := String.ofList (digits.toList.drop 1)
  String.ofList (digits.toList.take 1) ++ (if fraction.isEmpty then "" else "." ++ fraction) ++
    "e" ++ toString (place - 1)

/-- The text of a double under a layout, from its `shortest` digits. -/
def Layout.write (layout : Layout) (x : Float) : String :=
  match Reading.ofFloat x with
  | .nan => layout.nan
  | .infinite negative => (if negative then "-" else "") ++ layout.infinity
  | .finite negative magnitude =>
    let sign := if negative then "-" else ""
    if magnitude.mantissa == 0 then sign ++ (if layout.keepsFraction then "0.0" else "0")
    else
      let d := shortest layout.tie magnitude
      let digits := toString d.digits
      let place : Int := digits.length + d.exponent
      sign ++ (if layout.positional place then writePositional layout.keepsFraction digits place
        else writeScientific digits place)

/-- Numbers in messages: never an exponent, and no fraction on integral values. -/
def plain : Layout := ⟨fun _ => true, false, .up, "NaN", "inf"⟩

/-- Numbers in rendered expressions: always recognisable as fractional, with an exponent from
`10 ^ 16` upwards and below `10 ^ -4`. -/
def literal : Layout := ⟨fun place => -4 < place && place ≤ 16, true, .up, "NaN", "inf"⟩

/-- Numbers in documents: an exponent above `10 ^ 16` and below `10 ^ -5`. -/
def document : Layout := ⟨fun place => -5 < place && place ≤ 16, true, .toEven, ".nan", ".inf"⟩

/-- Quotient rounded to the nearest integer, a half going to the even neighbour. -/
def roundDiv (num den : Nat) : Nat :=
  let q := num / den
  let r := num % den
  if 2 * r < den then q else if den < 2 * r then q + 1 else if q % 2 == 0 then q else q + 1

/-- A double with `places` places after the point. The exact binary value is rounded by `roundDiv`,
a half to the even neighbour. -/
def fixed (places : Nat) (x : Float) : String :=
  match Reading.ofFloat x with
  | .nan => "NaN"
  | .infinite negative => if negative then "-inf" else "inf"
  | .finite negative magnitude =>
    let (tn, td) := signedPower 2 magnitude.exponent
    let scale := Nat.pow 10 places
    let scaled := roundDiv (magnitude.mantissa * tn * scale) td
    let whole := toString (scaled / scale)
    let part := toString (scaled % scale)
    (if negative then "-" else "") ++ whole ++
      (if places == 0 then "" else "." ++ zeros (places - part.length) ++ part)

end LoopAnalysis.Decimal
