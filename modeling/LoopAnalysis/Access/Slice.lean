import LoopAnalysis.Program.Loop

/-!
# Backward slices

The values inside a loop from which an operand is computed. Phis belong to a slice but are not
looked through, and a slice that has grown beyond 64 values is not extended any further.
-/

namespace LoopAnalysis.LoopBody

/-- The largest slice that is still extended. -/
def sliceLimit : Nat := 64

/-- The values that a slice goes on with from the `definition` of one of its members, the last
operand first. -/
def sliceStep (lp : LoopBody) (v : ValueId) : List ValueId :=
  match lp.definition v with
  | some (.phi _ _) => []
  | some i => (i.operands.filterMap Operand.value?).reverse
  | none => []

/-- Takes values off a stack and adds those the loop `defines` to the slice, each once, together
with the `sliceStep` from them. -/
def sliceFrom (lp : LoopBody) (stack seen : List ValueId) : List ValueId :=
  match stack with
  | [] => seen
  | v :: rest =>
    if sliceLimit < seen.length ∨ lp.defines v = false ∨ v ∈ seen then lp.sliceFrom rest seen
    else lp.sliceFrom (lp.sliceStep v ++ rest) (v :: seen)
termination_by (sliceLimit + 1 - seen.length, stack.length)
decreasing_by
  · exact Prod.Lex.right _ (by simp)
  · rename_i h
    refine Prod.Lex.left _ _ ?_
    have : ¬ sliceLimit < seen.length := fun hl => h (.inl hl)
    simp only [List.length_cons]
    omega

/-- The values inside the loop from which an operand is computed, itself included, by `sliceFrom`.
-/
def expressionValues (lp : LoopBody) (root : Operand) : List ValueId :=
  lp.sliceFrom root.value?.toList []

/-- Whether an operand is a value, or is computed from it inside the loop: the value is among its
`expressionValues`. -/
def flowsFrom (lp : LoopBody) (op : Operand) (source : ValueId) : Bool :=
  (lp.expressionValues op).contains source || op.isValue source

end LoopAnalysis.LoopBody
