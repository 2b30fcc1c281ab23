import LoopAnalysis.Pattern.Scene
import LoopAnalysis.Proofs.Program.Execution
import LoopAnalysis.Proofs.Program.Straight

/-!
# What the terms of indices mean

An affine term gives the value of its index in every iteration, an invariant index has one value in
all of them, and a swept index has one for each combination of inner iterations. The last rests on
less than the first: the form of a swept index leaves out operands that the loop does not define, so
it says nothing of the value, only of what the value depends on.

## Main definitions

- `Reading`: what the operators of a program compute, the same wherever one of them is executed;
- `Valuation.Solves`: a valuation of one iteration under a reading.

## Main statements

- `LoopBody.affineWith_determines`: what the value of an expression with a form depends on;
- `Scene.eval_of_nestOffset?`: the level and the offset of an index are those of its value;
- `Loop.index_terms_exact`: all of it for every index of a loop.
-/

namespace LoopAnalysis

/-! ## §1 Readings -/

/-- What the binary operators of a program compute. Each value that is defined by one has a fixed
function of the two sides; where `meaning?` knows the operator, it is that of the integers. -/
structure Reading where
  compute : ValueId → BinaryOp → Int → Int → Int
  exact {v : ValueId} {op : BinaryOp} {x y z : Int} (h : op.meaning? x y = some z) :
    compute v op x y = z

/-- Every operator computes what `BinaryOp.apply` does when a loop is run. -/
def Reading.standard : Reading where
  compute _ op x y := op.apply x y
  exact {v op x y z} h := by
    cases op with
    | add | sub | mul => exact Option.some.inj h
    | shl =>
      simp only [BinaryOp.meaning?] at h
      split at h
      · exact Option.some.inj h
      · cases h
    | _ => cases h

namespace Valuation

variable {r r₁ r₂ : Valuation} {k : Reading} {lp : LoopBody}

/-- Every cast has the value of its operand, and every operator what the reading makes of its
sides. -/
structure Solves (r : Valuation) (k : Reading) (lp : LoopBody) : Prop where
  cast {v w : ValueId} {operand : Operand} (h : lp.definition v = some (.cast w operand)) :
    r.value v = r.eval operand
  binary {v w : ValueId} {op : BinaryOp} {lhs rhs : Operand}
    (h : lp.definition v = some (.binary w op lhs rhs)) :
    r.value v = k.compute v op (r.eval lhs) (r.eval rhs)

theorem Solves.respects (h : r.Solves k lp) : r.Respects lp := by
  intro v i z hdef hz
  cases i with
  | cast w operand => exact (h.cast hdef).trans (Option.some.inj hz)
  | binary w op lhs rhs => exact (h.binary hdef).trans (k.exact hz)
  | _ => cases hz

end Valuation

/-! ## §2 What a form depends on -/

namespace LoopBody

variable {lp : LoopBody} {k : Reading} {r₁ r₂ : Valuation} {iv : ValueId}

/-- The form of one side of an operator, where an operand that is `symbolic` counts as zero. -/
def sideForm (lp : LoopBody) (iv : ValueId) (symbolic : Operand → Bool) (levels : Nat)
    (x : Operand) : Option Affine :=
  if symbolic x && !x.isValue iv then some (.constant 0) else lp.affineWith iv symbolic levels x

theorem affineWith_binary {symbolic : Operand → Bool} {levels : Nat} {v w : ValueId}
    {op : BinaryOp} {lhs rhs : Operand} (hv : v ≠ iv)
    (hdef : lp.definition v = some (.binary w op lhs rhs)) :
    lp.affineWith iv symbolic (levels + 1) (.value v) =
      (lp.sideForm iv symbolic levels lhs).bind fun l =>
        (lp.sideForm iv symbolic levels rhs).bind fun r =>
          Affine.combine? op l r (symbolic lhs) (symbolic rhs) := by
  simp only [affineWith, if_neg hv, hdef, sideForm, bind]
  -- Each side is left out or followed, on its own.
  split <;> split <;> rfl

/-- **An expression with a form depends on the induction variable and the operands left out only**:
two valuations under one reading that agree on these agree on the expression. -/
theorem affineWith_determines {symbolic : Operand → Bool} (h₁ : r₁.Solves k lp)
    (h₂ : r₂.Solves k lp) (hiv : r₁.value iv = r₂.value iv)
    (hsymbolic : ∀ x, symbolic x = true → r₁.eval x = r₂.eval x) {levels : Nat} {op : Operand}
    {a : Affine} (h : lp.affineWith iv symbolic levels op = some a) : r₁.eval op = r₂.eval op := by
  -- As for the value of a form, the induction is on the levels of definitions that are unfolded.
  induction levels generalizing op a with
  | zero => cases h
  | succ levels ih =>
    -- A side that is left out agrees by assumption, and any other by induction.
    have hside : ∀ {x l}, lp.sideForm iv symbolic levels x = some l → r₁.eval x = r₂.eval x := by
      intro x l hx
      unfold sideForm at hx
      split at hx
      · next hout =>
        rw [Bool.and_eq_true] at hout
        exact hsymbolic x hout.1
      · exact ih hx
    cases op with
    | int c => rfl
    | float x => cases h
    | symbol name => cases h
    | value v =>
      by_cases hv : v = iv
      · subst hv
        exact hiv
      · show r₁.value v = r₂.value v
        cases hdef : lp.definition v with
        | none => simp [affineWith, hv, hdef] at h
        | some i =>
          -- Of the definitions only casts and operators have a form, and both are solved by the
          -- reading.
          cases i with
          | cast w operand =>
            simp only [affineWith, if_neg hv, hdef] at h
            rw [h₁.cast hdef, h₂.cast hdef]
            exact ih h
          | binary w bop lhs rhs =>
            rw [affineWith_binary hv hdef] at h
            obtain ⟨l, hl, h⟩ := Option.bind_eq_some_iff.mp h
            obtain ⟨s, hs, -⟩ := Option.bind_eq_some_iff.mp h
            rw [h₁.binary hdef, h₂.binary hdef, hside hl, hside hs]
          | _ => simp [affineWith, hv, hdef] at h

end LoopBody

/-! ## §3 Levels of a nest -/

namespace Scene

variable {s : Scene} {index : Operand} {level : Nat} {offset : Int64}

/-- An index with a level and an offset by `nestOffset?` is the induction variable of that level
plus the offset. -/
theorem nestOffset?_eq_some (h : s.nestOffset? index = some (level, offset)) :
    ∃ iv, s.nesting.nestIvs[level]? = some (some iv) ∧
      s.lp.affineIn index iv = some ⟨1, offset⟩ := by
  obtain ⟨⟨iv?, n⟩, hmem, hform⟩ := List.exists_of_findSome?_eq_some h
  rw [List.mem_zipIdx_iff_getElem?] at hmem
  simp only [bind, Option.bind_eq_some_iff] at hform
  obtain ⟨iv, rfl, a, ha, hone⟩ := hform
  -- Only a form that moves by one per iteration counts as an offset.
  split at hone
  · next hunit =>
    cases hone
    refine ⟨iv, hmem, ?_⟩
    rw [ha, ← hunit]
  · cases hone

theorem eval_of_nestOffset? {r : Valuation} (hr : r.Respects s.lp.toLoopBody)
    (h : s.nestOffset? index = some (level, offset)) :
    ∃ iv, s.nesting.nestIvs[level]? = some (some iv) ∧
      r.eval index = r.value iv + offset.toInt := by
  obtain ⟨iv, hiv, hform⟩ := nestOffset?_eq_some h
  refine ⟨iv, hiv, ?_⟩
  have hvalue := LoopBody.affineIn_eval hr hform
  simpa [Affine.valueAt] using hvalue

end Scene

/-! ## §4 All indices -/

namespace Loop

variable {lp : Loop} {k : Reading} {r₁ r₂ : Valuation} {index : Operand}

/-- A `swept` index has one value for each combination of inner iterations. -/
theorem eval_eq_of_swept {text : String} (h : lp.classifyIndex index = .swept text)
    (h₁ : r₁.Solves k lp.toLoopBody) (h₂ : r₂.Solves k lp.toLoopBody)
    (hagree : Valuation.AgreeOutside lp.toLoopBody r₁ r₂)
    (hinner : ∀ iv ∈ lp.nestedIvs, r₁.value iv = r₂.value iv) : r₁.eval index = r₂.eval index := by
  obtain ⟨iv, hiv, a, ha⟩ := exists_affineWith_of_swept h
  refine LoopBody.affineWith_determines h₁ h₂ (hinner iv hiv) (fun x hx => ?_) ha
  rw [LoopBody.isOuterSymbol, Bool.and_eq_true] at hx
  exact hagree.eval_eq hx.2

/-- **Index terms mean what they say.** Take any `Reading` of the operators and any valuation `r`
under it. An `affine` term has a coefficient other than zero and gives the value of its index from
that of the induction variable. An index that is `invariant` has the same value in every valuation
that agrees on what the loop does not define, and so has a `swept` index where the induction
variables of all inner loops agree as well. The form that `affineIn` finds for an operand in any
value that is taken for the induction variable is exact, and so the level and the offset that
`nestOffset?` gives an index in its nest are those of the induction variable that it follows. -/
theorem index_terms_exact (lp : Loop) (k : Reading) (index : Operand) (r : Valuation)
    (hr : r.Solves k lp.toLoopBody) :
    (∀ c o : Int64, lp.classifyIndex index = .affine c o →
      c ≠ 0 ∧ ∃ iv, lp.inductionVariable = some iv ∧
        r.eval index = c.toInt * r.value iv + o.toInt) ∧
    (∀ text, lp.classifyIndex index = .invariant text →
      ∀ r', Valuation.AgreeOutside lp.toLoopBody r r' → r.eval index = r'.eval index) ∧
    (∀ text, lp.classifyIndex index = .swept text →
      ∀ r' : Valuation, r'.Solves k lp.toLoopBody → Valuation.AgreeOutside lp.toLoopBody r r' →
        (∀ iv ∈ lp.nestedIvs, r.value iv = r'.value iv) → r.eval index = r'.eval index) ∧
    (∀ iv a, lp.affineIn index iv = some a →
      r.eval index = a.coefficient.toInt * r.value iv + a.offset.toInt) ∧
    (∀ s : Scene, s.lp = lp → ∀ (level : Nat) (offset : Int64),
      s.nestOffset? index = some (level, offset) →
      ∃ iv, s.nesting.nestIvs[level]? = some (some iv) ∧
        r.eval index = r.value iv + offset.toInt) := by
  refine ⟨?_, ?_, ?_, ?_, ?_⟩
  · intro c o h
    obtain ⟨iv, hiv, hform, hne⟩ := exists_affineIn_of_classifyIndex h
    exact ⟨hne, iv, hiv, LoopBody.affineIn_eval hr.respects hform⟩
  · intro text h r' hagree
    exact hagree.eval_eq (isInvariant_of_classifyIndex h)
  · intro text h r' hr' hagree hinner
    exact eval_eq_of_swept h hr hr' hagree hinner
  · intro iv a h
    exact LoopBody.affineIn_eval hr.respects h
  · rintro s rfl level offset h
    exact Scene.eval_of_nestOffset? hr.respects h

/-! ## §5 A nest with three kinds of index -/

/-- `for i: for j: A[2 * i + 3] = B[i - 1][j << n]`, with the double of `i` written as a shift. -/
def shiftsInner : Loop :=
  { straight ⟨0⟩ [
      .phi ⟨0⟩ [(.int 0, ⟨0⟩), (.value ⟨6⟩, ⟨1⟩)],
      .phi ⟨1⟩ [(.int 0, ⟨1⟩), (.value ⟨7⟩, ⟨2⟩)],
      .binary ⟨2⟩ .shl (.value ⟨0⟩) (.int 1),
      .binary ⟨3⟩ .add (.value ⟨2⟩) (.int 3),
      .binary ⟨4⟩ .shl (.value ⟨1⟩) (.symbol "n"),
      .binary ⟨5⟩ .sub (.value ⟨0⟩) (.int 1),
      .binary ⟨6⟩ .add (.value ⟨0⟩) (.int 1),
      .binary ⟨7⟩ .add (.value ⟨1⟩) (.int 1)] with
    subLoops := [straight ⟨1⟩ [.phi ⟨1⟩ [(.int 0, ⟨1⟩), (.value ⟨7⟩, ⟨2⟩)]]] }

/-- The iterations `i` and `j` of `shiftsInner`, where `n` is larger than any distance that index
arithmetic follows. -/
def shiftsInnerAt (i j : Int) : Valuation where
  value v := [i, j, 2 * i, 2 * i + 3, j * 2 ^ 40, i - 1, i + 1, j + 1].getD v.index 0
  symbol _ := 40
  fraction _ := 0

theorem solves_shiftsInnerAt (i j : Int) :
    (shiftsInnerAt i j).Solves .standard shiftsInner.toLoopBody := by
  refine ⟨fun hdef => ?_, fun hdef => ?_⟩
  · obtain ⟨hmem, -⟩ := mem_of_straight_definition hdef
    simp at hmem
  · obtain ⟨hmem, hresult⟩ := mem_of_straight_definition hdef
    simp only [List.mem_cons, List.not_mem_nil, or_false, reduceCtorEq, false_or] at hmem
    rcases hmem with h | h | h | h | h | h <;> cases h <;> cases hresult <;>
      simp [Reading.standard, BinaryOp.apply, Valuation.eval, shiftsInnerAt, Int.mul_comm]

theorem agreeOutside_shiftsInnerAt (i i' j : Int) :
    Valuation.AgreeOutside shiftsInner.toLoopBody (shiftsInnerAt i j) (shiftsInnerAt i' j) := by
  refine ⟨fun v hv => ?_, rfl, rfl⟩
  have hdefined := straight_defines_eq_false_iff.mp hv
  simp only [List.mem_cons, List.not_mem_nil, or_false, forall_eq_or_imp, forall_eq,
    Instruction.result, ne_eq, Option.some.injEq] at hdefined
  obtain ⟨n⟩ := v
  have hlarge : 8 ≤ n := by
    simp only [ValueId.mk.injEq] at hdefined
    omega
  simp [shiftsInnerAt, hlarge]

/-- The theorem at the indices of `shiftsInner`: the affine one is followed exactly, the one that
the inner loop sweeps does not change with the outer iteration although its form leaves out the
distance of the shift, and the offset in the nest is that of the outer loop. -/
theorem shiftsInner_exact :
    shiftsInner.classifyIndex (.value ⟨3⟩) = .affine 2 3 ∧
    shiftsInner.classifyIndex (.value ⟨4⟩) = .swept "%1<<n" ∧
    (Scene.of shiftsInner).nestOffset? (.value ⟨5⟩) = some (0, -1) ∧
    ∀ i i' j : Int, (shiftsInnerAt i j).eval (.value ⟨3⟩) = 2 * i + 3 ∧
      (shiftsInnerAt i j).eval (.value ⟨4⟩) = (shiftsInnerAt i' j).eval (.value ⟨4⟩) ∧
      (shiftsInnerAt i j).eval (.value ⟨5⟩) = i - 1 := by
  have haffine : shiftsInner.classifyIndex (.value ⟨3⟩) = .affine 2 3 := by decide
  have hswept : shiftsInner.classifyIndex (.value ⟨4⟩) = .swept "%1<<n" := by decide
  have hoffset : (Scene.of shiftsInner).nestOffset? (.value ⟨5⟩) = some (0, -1) := by decide
  refine ⟨haffine, hswept, hoffset, fun i i' j => ⟨?_, ?_, ?_⟩⟩
  · obtain ⟨hexact, -⟩ := index_terms_exact shiftsInner .standard (.value ⟨3⟩) (shiftsInnerAt i j)
      (solves_shiftsInnerAt i j)
    obtain ⟨-, iv, hiv, hvalue⟩ := hexact 2 3 haffine
    cases hiv
    exact hvalue
  · obtain ⟨-, -, hexact, -⟩ := index_terms_exact shiftsInner .standard (.value ⟨4⟩)
      (shiftsInnerAt i j) (solves_shiftsInnerAt i j)
    -- Between the two valuations only the outer iteration differs.
    refine hexact _ hswept _ (solves_shiftsInnerAt i' j) (agreeOutside_shiftsInnerAt i i' j) ?_
    intro iv hiv
    obtain rfl : iv = ⟨1⟩ := by simpa [shiftsInner, nestedIvs, nestedIvsAll, straight] using hiv
    rfl
  · obtain ⟨-, -, -, -, hexact⟩ := index_terms_exact shiftsInner .standard (.value ⟨5⟩)
      (shiftsInnerAt i j) (solves_shiftsInnerAt i j)
    obtain ⟨iv, hiv, hvalue⟩ := hexact _ rfl 0 (-1) hoffset
    cases hiv
    exact hvalue

end Loop

end LoopAnalysis
