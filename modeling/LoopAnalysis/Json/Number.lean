import LoopAnalysis.Json.Basic

/-!
# Numbers in documents

A number without fraction and exponent that fits a 64-bit word is an integer. Any other is a
double, computed from the leading digits that fit an unsigned 64-bit word and a decimal exponent:
one conversion and one multiplication or division by a power of ten, repeated while the exponent
exceeds the range of doubles.
-/

namespace LoopAnalysis.Json

/-- The decimal digit a character stands for. -/
def digit? (c : Char) : Option Nat :=
  if '0' ≤ c && c ≤ '9' then some (c.toNat - 48) else none

/-- Leading digits that still fit an unsigned 64-bit word, and how many digits were left out. -/
structure Significand where
  value   : Nat
  omitted : Nat

/-- Adds the digit `d`, unless an earlier one had to be left out or this one no longer fits. -/
def Significand.push (s : Significand) (d : Nat) : Significand :=
  if s.omitted == 0 && s.value * 10 + d < 18446744073709551616 then ⟨s.value * 10 + d, 0⟩
  else ⟨s.value, s.omitted + 1⟩

/-- The double nearest to `10 ^ n`. -/
def powerOfTen (n : Nat) : Float := Float.ofScientific 1 false n

/-- `x * 10 ^ e`, or `none` when it exceeds every double. Each step takes off 308 from an exponent
below the range, so the number of steps is bounded by the exponent. -/
def scale : (fuel : Nat) → Float → Int → Option Float
  | 0, x, _ => some x
  | fuel + 1, x, e =>
    if e.natAbs ≤ 308 then
      if 0 ≤ e then
        let y := x * powerOfTen e.natAbs
        if y.isInf then none else some y
      else some (x / powerOfTen e.natAbs)
    else if x == 0.0 then some x
    else if 0 ≤ e then none
    else scale fuel (x / powerOfTen 308) (e + 308)

/-- Signs the magnitude `x`. -/
def signed (negative : Bool) (x : Float) : Float := if negative then -x else x

/-- The double for a significand and an exponent, as `scale` computes it. -/
def ofParts (negative : Bool) (significand : Nat) (e : Int) : Json :=
  match scale (e.natAbs / 308 + 2) significand.toUInt64.toFloat e with
  | some x => .float (signed negative x)
  | none => .unreadable

/-- The value of an integer written without fraction and exponent; one that `Significand.push` had
to cut is a double. -/
def ofWhole (negative : Bool) (s : Significand) : Json :=
  if s.omitted != 0 then ofParts negative s.value s.omitted
  else if !negative then .int s.value
  else if s.value == 0 || 9223372036854775808 < s.value then .float (-(s.value.toUInt64.toFloat))
  else .int (-(s.value : Int))

/-- The largest exponent that is computed with; beyond it only the sign of the exponent counts. -/
def exponentLimit : Nat := 2147483647

/-- The exponent kept within the range of a 32-bit word, from above by `exponentLimit`. -/
def clampExponent (e : Int) : Int :=
  if (exponentLimit : Int) < e then exponentLimit
  else if e < -2147483648 then -2147483648 else e

/-- The value of a number with a fraction or an exponent. `shift` is the exponent that the digits
before and after the point account for. -/
def ofScaled (negative : Bool) (significand : Nat) (shift : Int)
    (exponent : Option (Bool × Nat)) : Json :=
  match exponent with
  | none => ofParts negative significand shift
  | some (below, e) =>
    if exponentLimit < e then
      if significand != 0 && !below then .unreadable else .float (signed negative 0.0)
    else ofParts negative significand (clampExponent (if below then shift - e else shift + e))

/-- Splits off the leading characters that `digit?` accepts. -/
def takeDigits (cs : List Char) : List Nat × List Char :=
  match cs with
  | [] => ([], [])
  | c :: rest =>
    match digit? c with
    | some d => let (ds, tail) := takeDigits rest; (d :: ds, tail)
    | none => ([], c :: rest)

/-- An exponent part, if there is one: whether it is negative, its magnitude, and the rest. -/
def takeExponent (cs : List Char) : Option (Option (Bool × Nat) × List Char) :=
  match cs with
  | [] => some (none, [])
  | c :: rest =>
    if c == 'e' || c == 'E' then
      let (below, rest) : Bool × List Char :=
        match rest with
        | '+' :: r => (false, r)
        | '-' :: r => (true, r)
        | r => (false, r)
      match takeDigits rest with
      | ([], _) => none
      | (ds, tail) => some (some (below, ds.foldl (fun n d => n * 10 + d) 0), tail)
    else some (none, c :: rest)

/-- Reads a number after its sign. The whole part is a single zero or starts with another digit. -/
def readMagnitude (negative : Bool) (cs : List Char) : Option (Json × List Char) := do
  let (whole, rest) := takeDigits cs
  match whole with
  | [] => none
  | 0 :: _ :: _ => none
  | _ => pure ()
  let s := whole.foldl Significand.push ⟨0, 0⟩
  match rest with
  | '.' :: rest =>
    let (fraction, rest) := takeDigits rest
    if fraction.isEmpty then none
    else
      let t := fraction.foldl Significand.push ⟨s.value, 0⟩
      let counted : Int := (s.omitted : Int) - (fraction.length - t.omitted : Nat)
      let (exponent, rest) ← takeExponent rest
      return (ofScaled negative t.value counted exponent, rest)
  | rest =>
    let (exponent, tail) ← takeExponent rest
    match exponent with
    | none => return (ofWhole negative s, tail)
    | some _ => return (ofScaled negative s.value s.omitted exponent, tail)

/-- Reads a number: its sign, and the rest by `readMagnitude`. -/
def readNumber : List Char → Option (Json × List Char)
  | '-' :: rest => readMagnitude true rest
  | cs => readMagnitude false cs

end LoopAnalysis.Json
