import LoopAnalysis.Proofs.Access.Base
import LoopAnalysis.Proofs.Dependence.Independence

/-!
# Pointers into one array

Two accesses may reach one array in different ways: directly, through a cast, or through the address
of one of its elements that was computed before the loop. Accesses are taken to be of one array by
the text of their base operand, which follows casts and shows elements. So pointers that only casts
lead to the array are compared with it, and so is whatever a loop computes itself; an element whose
address is taken outside the loop counts as an array of its own.

## Main definitions

- `LoopBody.DerivedFrom`: an operand is made from another by elements and casts;
- `LoopBody.IsPlainCast`: a value without a name that is a cast.

## Main statements

- `LoopBody.renderAt_of_derivedFrom`: the text of what only casts are made of;
- `Loop.same_root_compared`: which accesses of one array are compared in a loop without dependences.
-/

namespace LoopAnalysis

namespace LoopBody

/-! ## §1 Where a pointer comes from -/

/-- An operand is made from `root` by taking addresses of elements and casting, inside or outside
the loop. The values on the way are listed, the operand's own first. -/
inductive DerivedFrom (lp : LoopBody) (root : Operand) : Operand → List ValueId → Prop where
  | root : DerivedFrom lp root root []
  | elementPtr {v r : ValueId} {base : Operand} {indices : List Operand} {via : List ValueId}
      (hdef : lp.definition v = some (.elementPtr r base indices))
      (hbase : DerivedFrom lp root base via) : DerivedFrom lp root (.value v) (v :: via)
  | cast {v r : ValueId} {operand : Operand} {via : List ValueId}
      (hdef : lp.definition v = some (.cast r operand))
      (hoperand : DerivedFrom lp root operand via) : DerivedFrom lp root (.value v) (v :: via)

/-- A `cast` that has no name. -/
def IsPlainCast (lp : LoopBody) (v : ValueId) : Prop :=
  lp.valueName v = none ∧ ∃ r operand, lp.definition v = some (.cast r operand)

variable {lp : LoopBody} {root x : Operand} {via : List ValueId}

/-- Plain casts do not show in the text of a pointer. -/
theorem renderAt_of_derivedFrom (h : lp.DerivedFrom root x via)
    (hcasts : ∀ v ∈ via, lp.IsPlainCast v) {levels : Nat} (hlevels : via.length ≤ levels) :
    lp.renderAt levels x = lp.renderAt (levels - via.length) root := by
  induction h generalizing levels with
  | root => rfl
  | @elementPtr v r base indices via hdef _ _ =>
    -- An element on the way is no cast, so there is none.
    obtain ⟨-, r', operand, hcast⟩ := hcasts v List.mem_cons_self
    rw [hdef] at hcast
    cases hcast
  | @cast v r operand via hdef _ ih =>
    cases levels with
    | zero => cases hlevels
    | succ levels =>
      -- Each cast takes one of the levels that are left.
      have hrest : via.length ≤ levels := Nat.le_of_succ_le_succ hlevels
      rw [renderAt_cast (hcasts v List.mem_cons_self).1 hdef,
        ih (fun w hw => hcasts w (List.mem_cons_of_mem v hw)) hrest, List.length_cons,
        Nat.add_sub_add_right]

/-- Two pointers that plain casts make from one root have one text. -/
theorem render_eq_of_derivedFrom {y : Operand} {via' : List ValueId}
    (hx : lp.DerivedFrom root x via) (hy : lp.DerivedFrom root y via')
    (hcasts : ∀ v ∈ via ++ via', lp.IsPlainCast v) (hlevels : via.length ≤ exprLevels)
    (hlevels' : via'.length ≤ exprLevels)
    (hroot : lp.hasOwnText root = true ∨ via.length = via'.length) :
    lp.render x = lp.render y := by
  rw [render, render,
    renderAt_of_derivedFrom hx (fun v hv => hcasts v (List.mem_append_left _ hv)) hlevels,
    renderAt_of_derivedFrom hy (fun v hv => hcasts v (List.mem_append_right _ hv)) hlevels']
  -- The text of the root is its own, or unfolded equally far on both ways.
  rcases hroot with hown | hlength
  · exact renderAt_of_hasOwnText hown _ _
  · rw [hlength]

end LoopBody

namespace Loop

/-! ## §2 Accesses of one array -/

/-- **Which accesses of one array are compared.** In a loop of the kind `independent`, let the
arrays of a store and of another access be made from one root. Then both were made before the loop.
If nothing but plain casts stands between them and the root, and not more of these than the
`exprLevels` to which texts are unfolded, the two accesses count as accesses of one array, and those
were compared index by index by `relate` and found apart. -/
theorem same_root_compared (lp : Loop) (w o : AccessSite) (root b c : Operand)
    (via via' : List ValueId) (hw : w ∈ lp.accesses) (hwrite : w.isWrite = true)
    (ho : o ∈ lp.accesses) (hother : o.order ≠ w.order) (hb : lp.baseOf? w = some b)
    (hc : lp.baseOf? o = some c) (hvia : lp.DerivedFrom root b via)
    (hvia' : lp.DerivedFrom root c via') (hkind : lp.dependenceProfile.kind = .independent) :
    lp.isInvariant b = true ∧ lp.isInvariant c = true ∧
    ((∀ v ∈ via ++ via', lp.IsPlainCast v) → via.length ≤ exprLevels → via'.length ≤ exprLevels →
      lp.hasOwnText root = true ∨ via.length = via'.length → w.base = o.base) ∧
    (w.base = o.base →
      (relate w o = .ok .independent ∨ relate w o = .ok .sameIteration) ∨
      (relate o w = .ok .independent ∨ relate o w = .ok .sameIteration)) := by
  obtain ⟨a, ha⟩ := exists_address hw
  obtain ⟨a', ha'⟩ := exists_address ho
  obtain rfl : (lp.resolveAddress a).1 = b := Option.some.inj (ha.baseOf?.symm.trans hb)
  obtain rfl : (lp.resolveAddress a').1 = c := Option.some.inj (ha'.baseOf?.symm.trans hc)
  have hsafe : lp.dependenceProfile.kind.isSafe = true := by
    rw [hkind]
    rfl
  obtain ⟨hwi, hoi, hcompared⟩ :=
    compared_of_clear (LoopBody.clear_of_isSafe hsafe).2.2 hw hwrite ho hother
  refine ⟨ha.baseInvariant ▸ hwi, ha'.baseInvariant ▸ hoi, ?_, hcompared⟩
  intro hcasts hlevels hlevels' hroot
  rw [ha.base, ha'.base]
  exact LoopBody.render_eq_of_derivedFrom hvia hvia' hcasts hlevels hlevels' hroot

/-- Computes `for i: B[2 * i] = b[2 * i + 1]`, where `b` is a cast of `B` made before the loop. -/
def evenThroughCast : Loop :=
  hoisting [.cast ⟨7⟩ (.symbol "B")] (straight ⟨0⟩ [
    .phi ⟨0⟩ [(.int 0, ⟨0⟩), (.value ⟨6⟩, ⟨1⟩)],
    .binary ⟨1⟩ .shl (.value ⟨0⟩) (.int 1),
    .binary ⟨2⟩ .add (.value ⟨1⟩) (.int 1),
    .elementPtr ⟨3⟩ (.value ⟨7⟩) [.value ⟨2⟩],
    .load ⟨4⟩ (.value ⟨3⟩),
    .elementPtr ⟨5⟩ (.symbol "B") [.value ⟨1⟩],
    .store (.value ⟨5⟩) (.value ⟨4⟩),
    .binary ⟨6⟩ .add (.value ⟨0⟩) (.int 1)])

/-- The theorem at a loop that reads through a cast of the array it writes. -/
theorem evenThroughCast_compared :
    evenThroughCast.dependenceProfile.kind = .independent ∧
    ∃ w ∈ evenThroughCast.accesses, ∃ o ∈ evenThroughCast.accesses, w.isWrite = true ∧
      evenThroughCast.baseOf? w = some (.symbol "B") ∧
      evenThroughCast.baseOf? o = some (.value ⟨7⟩) ∧ w.base = o.base := by
  let w := evenThroughCast.siteOf .write 6 (.value ⟨5⟩) (some (.value ⟨4⟩)) none
  let o := evenThroughCast.siteOf .read 4 (.value ⟨3⟩) none (some ⟨4⟩)
  have hkind : evenThroughCast.dependenceProfile.kind = .independent := by decide
  have hw : w ∈ evenThroughCast.accesses := mem_accesses_iff.mpr ⟨_, rfl, rfl⟩
  have ho : o ∈ evenThroughCast.accesses := mem_accesses_iff.mpr ⟨_, rfl, rfl⟩
  have hcast : evenThroughCast.IsPlainCast ⟨7⟩ := ⟨rfl, _, _, rfl⟩
  obtain ⟨-, -, hbase, -⟩ := same_root_compared evenThroughCast w o (.symbol "B") (.symbol "B")
    (.value ⟨7⟩) [] [⟨7⟩] hw rfl ho (by decide) rfl rfl .root (.cast rfl .root) hkind
  refine ⟨hkind, w, hw, o, ho, rfl, rfl, rfl, hbase ?_ (by decide) (by decide) (.inl rfl)⟩
  simpa using hcast

/-! ## §3 A copy through a shifted pointer -/

/-- `for i: p[i] = A[i]`, where `p` is the address of `A[5]`, taken before the loop: iteration `i`
writes what iteration `i + 5` reads. -/
def shiftedCopy : Loop :=
  hoisting [.elementPtr ⟨5⟩ (.symbol "A") [.int 5]] (straight ⟨0⟩ [
    .phi ⟨0⟩ [(.int 0, ⟨0⟩), (.value ⟨4⟩, ⟨1⟩)],
    .elementPtr ⟨1⟩ (.symbol "A") [.value ⟨0⟩],
    .load ⟨2⟩ (.value ⟨1⟩),
    .elementPtr ⟨3⟩ (.value ⟨5⟩) [.value ⟨0⟩],
    .store (.value ⟨3⟩) (.value ⟨2⟩),
    .binary ⟨4⟩ .add (.value ⟨0⟩) (.int 1)])

/-- **A pointer into an array can pass for another array**: in `shiftedCopy` the arrays of the store
and of the load are made from one root, yet they are not compared and the loop is said to carry no
dependence. -/
theorem shiftedCopy_uncompared :
    shiftedCopy.dependenceProfile.kind = .independent ∧
    ∃ w ∈ shiftedCopy.accesses, ∃ o ∈ shiftedCopy.accesses, w.isWrite = true ∧ o.order ≠ w.order ∧
      shiftedCopy.baseOf? w = some (.value ⟨5⟩) ∧ shiftedCopy.baseOf? o = some (.symbol "A") ∧
      shiftedCopy.DerivedFrom (.symbol "A") (.value ⟨5⟩) [⟨5⟩] ∧
      shiftedCopy.DerivedFrom (.symbol "A") (.symbol "A") [] ∧ w.base ≠ o.base := by
  let w := shiftedCopy.siteOf .write 4 (.value ⟨3⟩) (some (.value ⟨2⟩)) none
  let o := shiftedCopy.siteOf .read 2 (.value ⟨1⟩) none (some ⟨2⟩)
  have hw : w ∈ shiftedCopy.accesses := mem_accesses_iff.mpr ⟨_, rfl, rfl⟩
  have ho : o ∈ shiftedCopy.accesses := mem_accesses_iff.mpr ⟨_, rfl, rfl⟩
  exact ⟨by decide, w, hw, o, ho, rfl, by decide, rfl, rfl, .elementPtr rfl .root, .root,
    by decide⟩

end Loop

end LoopAnalysis
