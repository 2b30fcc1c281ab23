import LoopAnalysis.Access.Affine
import LoopAnalysis.Decimal.Layout

/-!
# Rendered expressions

The text of an operand as it appears in reports, such as `A[i+1]` or `sum`. The same text decides
which accesses belong to one array.
-/

namespace LoopAnalysis.LoopBody

/-- The text of an operand, unfolding the definitions of unnamed values down to a number of
levels. Casts and loads are transparent. -/
def renderAt (lp : LoopBody) : (levels : Nat) → Operand → String
  | levels, op =>
    match op with
    | .int c => toString c.toInt
    | .float x => Decimal.literal.write x
    | .symbol name => name
    | .value v =>
      match lp.valueName v with
      | some name => name
      | none =>
        match levels with
        | 0 => v.text
        | levels + 1 =>
          match lp.definition v with
          | some (.cast _ operand) => lp.renderAt levels operand
          | some (.load _ address) => lp.renderAt levels address
          | some (.elementPtr _ base indices) =>
            lp.renderAt levels base ++
              String.join (indices.map fun ix => "[" ++ lp.renderAt levels ix ++ "]")
          | some (.binary _ op lhs rhs) =>
            lp.renderAt levels lhs ++ op.sign ++ lp.renderAt levels rhs
          | _ => v.text

/-- The text of an operand, by `renderAt` down to `exprLevels`. -/
def render (lp : LoopBody) (op : Operand) : String := lp.renderAt exprLevels op

end LoopAnalysis.LoopBody
