/-!
# From decimals to doubles

The double nearest to a decimal number.
-/

namespace LoopAnalysis.Decimal

/-- The double nearest to `digits * 10 ^ exponent`, infinite beyond the range of doubles. Outside
of that range by a wide margin the power of ten is not computed. -/
def nearest (digits : Nat) (exponent : Int) : Float :=
  let size : Int := (toString digits).length + exponent
  if digits == 0 || size < -400 then 0.0
  else if 400 < size then 1.0 / 0.0
  else Float.ofScientific digits (exponent < 0) exponent.natAbs

end LoopAnalysis.Decimal
