import LoopAnalysis.Json.Basic
import LoopAnalysis.Json.Number
import LoopAnalysis.Json.Parser
import LoopAnalysis.Decimal.Nearest

/-!
# What plain scalars spell

The spellings of truth values, numbers and absent values in scalars without quotes.
-/

namespace LoopAnalysis.Yaml

/-! ## §1 Words -/

/-- The spellings of an absent value. -/
def nullSpellings : List String := ["null", "Null", "NULL", "~"]

/-- A text among the `nullSpellings`, or an empty one. -/
def isNullText (text : String) : Bool := text.isEmpty || nullSpellings.contains text

/-- The spellings of the truth values. -/
def flagSpellings : List (String × Bool) :=
  [("true", true), ("True", true), ("TRUE", true), ("false", false), ("False", false),
   ("FALSE", false)]

/-! ## §2 Integers -/

/-- The value of digits in a `base` up to sixteen; there has to be one. -/
def digitsIn? (base : Nat) (cs : List Char) : Option Nat := do
  if cs.isEmpty then none
  cs.foldlM (fun n c => do
    let d ← Json.hexDigit? c
    if d < base then some (n * base + d) else none) 0

/-- Digits only, more than one of them, the first a zero: a text and not a number. -/
def hasLeadingZero (cs : List Char) : Bool :=
  match cs with
  | '0' :: c :: rest => (c :: rest).all fun d => (Json.digit? d).isSome
  | _ => false

/-- The value that `digitsIn?` gives under the sign of a base, or without one in base ten. -/
def magnitude? (cs : List Char) : Option Nat :=
  match cs with
  | '0' :: 'x' :: rest => digitsIn? 16 rest
  | '0' :: 'o' :: rest => digitsIn? 8 rest
  | '0' :: 'b' :: rest => digitsIn? 2 rest
  | _ => if hasLeadingZero cs then none else digitsIn? 10 cs

/-- A text without a leading plus. -/
def dropPlus (cs : List Char) : List Char :=
  match cs with
  | '+' :: rest => rest
  | _ => cs

/-- The natural number that a plain text denotes: a `magnitude?` after a plus, if there is one. -/
def whole? (text : String) : Option Nat := magnitude? (dropPlus text.toList)

/-! ## §3 Numbers with a fraction -/

/-- The digits around a decimal point and the exponent after them. -/
def decimal? (cs : List Char) : Option (Nat × Int) := do
  let (before, rest) := Json.takeDigits cs
  let (after, rest) : List Nat × List Char :=
    match rest with
    | '.' :: rest => Json.takeDigits rest
    | rest => ([], rest)
  if before.isEmpty && after.isEmpty then none
  let (exponent, rest) ← Json.takeExponent rest
  if !rest.isEmpty then none
  let shift : Int :=
    match exponent with
    | none => 0
    | some (below, e) => if below then -(e : Int) else e
  return ((before ++ after).foldl (fun n d => n * 10 + d) 0, shift - after.length)

/-- The finite number that a text denotes: a `decimal?` with a sign, if it is in range. -/
def finite? (cs : List Char) : Option Float := do
  let (negative, cs) : Bool × List Char :=
    match cs with
    | '-' :: rest => (true, rest)
    | '+' :: rest => (false, rest)
    | rest => (false, rest)
  let (digits, exponent) ← decimal? cs
  let x := Decimal.nearest digits exponent
  if x.isFinite then some (Json.signed negative x) else none

/-- The number that a plain text denotes: a `finite?` one, or one with a spelling of its own. -/
def number? (text : String) : Option Float :=
  if [".inf", ".Inf", ".INF", "+.inf", "+.Inf", "+.INF"].contains text then some (1.0 / 0.0)
  else if ["-.inf", "-.Inf", "-.INF"].contains text then some (-1.0 / 0.0)
  else if [".nan", ".NaN", ".NAN"].contains text then some (0.0 / 0.0)
  else
    match text.toList with
    | '+' :: '+' :: _ => none
    | '+' :: '-' :: _ => none
    | cs => finite? cs

end LoopAnalysis.Yaml
