import LoopAnalysis.Proofs.Access.Slice
import LoopAnalysis.Proofs.Program.Operand
import Mathlib.Data.Set.Card

/-!
# How much of a slice is found

The values that an operand is computed from inside a loop form a least set, whether or not they are
computed in circles. The search for them keeps a stack of values that wait and a list of values
that it has seen. It finds the whole set up to the point at which its list is full, and is full
only if the set is at least as large.

## Main definitions

- `LoopBody.InSlice`: the least set that a search should find;
- `LoopBody.sliceTurn`: one turn of the search;
- `LoopBody.Slicing`: what every turn keeps.

## Main statements

- `LoopBody.exists_turns`: the search ends after finitely many turns, with the slice;
- `LoopBody.slicing_expressionValues`: what holds at its end;
- `LoopBody.slice_whole_or_full`: a slice is the whole set, or it is full.
-/

namespace LoopAnalysis

namespace LoopBody

variable {lp : LoopBody} {root : Operand} {u v : ValueId} {stack seen : List ValueId}

/-! ## §1 The whole set -/

/-- **What an operand is computed from inside a loop**: itself, if it is a value that the loop
defines, and with each value all operands of its definition that the loop defines, unless the
definition is a phi. -/
inductive InSlice (lp : LoopBody) (root : Operand) : ValueId → Prop where
  | root {v : ValueId} : root = .value v → lp.defines v = true → InSlice lp root v
  | operand {u v : ValueId} :
      InSlice lp root v → lp.Feeds u v → lp.defines u = true → InSlice lp root u

theorem InSlice.defines (h : lp.InSlice root v) : lp.defines v = true := by
  cases h with
  | root _ hv => exact hv
  | operand _ _ hv => exact hv

/-- The search goes on, by `sliceStep`, with all that the definition of a value uses. -/
theorem mem_sliceStep_of_feeds (h : lp.Feeds u v) : u ∈ lp.sliceStep v := by
  obtain ⟨i, hdef, hphi, huse⟩ := h
  obtain ⟨x, hx, hxu⟩ := List.any_eq_true.mp huse
  have hvalue : x.value? = some u := by simpa [Operand.isValue] using hxu
  have hoperand : u ∈ (i.operands.filterMap Operand.value?).reverse :=
    List.mem_reverse.mpr (List.mem_filterMap.mpr ⟨x, hx, hvalue⟩)
  unfold sliceStep
  rw [hdef]
  -- A phi feeds nothing, and for every other definition the step is the list of its operands.
  cases i with
  | phi r incoming => cases hphi
  | _ => exact hoperand

/-! ## §2 Turn by turn -/

/-- One turn of `sliceFrom`: the value on top of the stack is passed over, or it joins the list and
leaves what its definition uses on the stack. -/
def sliceTurn (lp : LoopBody) :
    List ValueId × List ValueId → List ValueId × List ValueId
  | ([], seen) => ([], seen)
  | (v :: rest, seen) =>
    if sliceLimit < seen.length ∨ lp.defines v = false ∨ v ∈ seen then (rest, seen)
    else (lp.sliceStep v ++ rest, v :: seen)

/-- A search comes to an end: after some turns the stack is empty and the list is `sliceFrom`. -/
theorem exists_turns (lp : LoopBody) (stack seen : List ValueId) :
    ∃ n, lp.sliceTurn^[n] (stack, seen) = ([], lp.sliceFrom stack seen) := by
  -- One turn for each call of the recursion.
  fun_induction lp.sliceFrom stack seen with
  | case1 seen => exact ⟨0, rfl⟩
  | case2 seen v rest hskip ih =>
    obtain ⟨n, hn⟩ := ih
    refine ⟨n + 1, ?_⟩
    rw [Function.iterate_succ_apply, sliceTurn, if_pos hskip, hn]
  | case3 seen v rest hgrow ih =>
    obtain ⟨n, hn⟩ := ih
    refine ⟨n + 1, ?_⟩
    rw [Function.iterate_succ_apply, sliceTurn, if_neg hgrow, hn]

/-- What every `sliceTurn` keeps holds at the end of a search. -/
theorem sliceFrom_of_turn {P : List ValueId × List ValueId → Prop}
    (hturn : ∀ s, P s → P (lp.sliceTurn s)) (hstart : P (stack, seen)) :
    P ([], lp.sliceFrom stack seen) := by
  obtain ⟨n, hn⟩ := lp.exists_turns stack seen
  rw [← hn]
  clear hn
  induction n generalizing stack seen with
  | zero => exact hstart
  | succ n ih =>
    rw [Function.iterate_succ_apply]
    exact ih (hturn _ hstart)

/-- Nothing is lost: the operand and all that a value of `seen` is computed from inside the loop are
in that list, or they wait on the `stack`. -/
structure Covers (lp : LoopBody) (root : Operand) (stack seen : List ValueId) : Prop where
  root    : ∀ v, root = .value v → lp.defines v = true → v ∈ stack ∨ v ∈ seen
  operand : ∀ v ∈ seen, ∀ u, lp.Feeds u v → lp.defines u = true → u ∈ stack ∨ u ∈ seen

/-- The state of a search for an operand, the stack first and the list second. -/
structure Slicing (lp : LoopBody) (root : Operand) (s : List ValueId × List ValueId) : Prop where
  nodup   : s.2.Nodup
  bounded : s.2.length ≤ sliceLimit + 1
  sound   : ∀ v ∈ s.2, lp.InSlice root v
  waiting : ∀ v ∈ s.1, lp.defines v = true → lp.InSlice root v
  /-- Once the list is full, nothing is promised of what waits. -/
  covers  : s.2.length = sliceLimit + 1 ∨ lp.Covers root s.1 s.2

/-- A value that is passed over is not missed: it is foreign or already `seen`. -/
theorem Covers.skip (h : lp.Covers root (v :: stack) seen)
    (hv : lp.defines v = false ∨ v ∈ seen) : lp.Covers root stack seen := by
  -- Whatever had to be on the stack or in the list still is.
  have hkeep : ∀ u, lp.defines u = true → u ∈ v :: stack ∨ u ∈ seen → u ∈ stack ∨ u ∈ seen := by
    intro u hu hmem
    rcases hmem with hstack | hseen
    · rcases List.mem_cons.mp hstack with rfl | hrest
      · rcases hv with hforeign | hseen
        · rw [hu] at hforeign
          cases hforeign
        · exact .inr hseen
      · exact .inl hrest
    · exact .inr hseen
  constructor
  · intro u hroot hu
    exact hkeep u hu (h.root u hroot hu)
  · intro w hw u hfeeds hu
    exact hkeep u hu (h.operand w hw u hfeeds hu)

/-- A value that joins `seen` leaves on the stack what it is computed from. -/
theorem Covers.grow (h : lp.Covers root (v :: stack) seen) :
    lp.Covers root (lp.sliceStep v ++ stack) (v :: seen) := by
  have hkeep : ∀ u, u ∈ v :: stack ∨ u ∈ seen → u ∈ lp.sliceStep v ++ stack ∨ u ∈ v :: seen := by
    intro u hmem
    rcases hmem with hstack | hseen
    · rcases List.mem_cons.mp hstack with rfl | hrest
      · exact .inr List.mem_cons_self
      · exact .inl (List.mem_append_right _ hrest)
    · exact .inr (List.mem_cons_of_mem v hseen)
  constructor
  · intro u hroot hu
    exact hkeep u (h.root u hroot hu)
  · intro w hw u hfeeds hu
    rcases List.mem_cons.mp hw with rfl | hold
    · exact .inl (List.mem_append_left _ (mem_sliceStep_of_feeds hfeeds))
    · exact hkeep u (h.operand w hold u hfeeds hu)

/-- **Every `sliceTurn` keeps the state of a search.** -/
theorem Slicing.turn {s : List ValueId × List ValueId} (h : lp.Slicing root s) :
    lp.Slicing root (lp.sliceTurn s) := by
  obtain ⟨stack, seen⟩ := s
  cases stack with
  | nil => exact h
  | cons v rest =>
    obtain ⟨hnodup, hbounded, hsound, hwaiting, hcovers⟩ := h
    have hrest : ∀ u ∈ rest, lp.defines u = true → lp.InSlice root u :=
      fun u hu => hwaiting u (List.mem_cons_of_mem v hu)
    unfold sliceTurn
    dsimp only at *
    split
    · next hskip =>
      -- The value is passed over: the list is full, or nothing is missed.
      refine ⟨hnodup, hbounded, hsound, hrest, ?_⟩
      rcases hcovers with hfull | hcovers
      · exact .inl hfull
      · rcases hskip with hfull | hpassed
        · exact .inl (Nat.le_antisymm hbounded hfull)
        · exact .inr (hcovers.skip hpassed)
    · next hgrow =>
      -- The value joins the list, for which there is room; what it is computed from is in the
      -- slice.
      obtain ⟨hroom, hdefined, hnew⟩ := by simpa only [not_or] using hgrow
      have hv : lp.InSlice root v := hwaiting v List.mem_cons_self (by simpa using hdefined)
      refine ⟨List.nodup_cons.mpr ⟨hnew, hnodup⟩, ?_, ?_, ?_, ?_⟩
      · rw [List.length_cons]
        omega
      · intro u hu
        rcases List.mem_cons.mp hu with rfl | hold
        · exact hv
        · exact hsound u hold
      · intro u hu hdefines
        rcases List.mem_append.mp hu with hstep | hold
        · exact .operand hv (feeds_of_mem_sliceStep hstep) hdefines
        · exact hrest u hold hdefines
      · rcases hcovers with hfull | hcovers
        · omega
        · exact .inr hcovers.grow

/-! ## §3 The end of a search -/

theorem slicing_expressionValues (lp : LoopBody) (root : Operand) :
    lp.Slicing root ([], lp.expressionValues root) := by
  refine sliceFrom_of_turn (fun s => Slicing.turn) ⟨List.nodup_nil, by simp, by simp, ?_, .inr ?_⟩
  · intro v hv hdefines
    refine .root ?_ hdefines
    cases root with
    | value w =>
      obtain rfl : v = w := by simpa [Operand.value?] using hv
      rfl
    | int | float | symbol => cases hv
  · constructor
    · rintro v rfl _
      exact .inl (by simp [Operand.value?])
    · intro v hv
      cases hv

/-- A search whose list is not full has found every member of `InSlice`. -/
theorem Covers.complete (h : lp.Covers root [] seen) (hv : lp.InSlice root v) : v ∈ seen := by
  -- Nothing waits any more, so each step of the slice stays in the list.
  induction hv with
  | root hroot hdefines => simpa using h.root _ hroot hdefines
  | operand _ hfeeds hdefines ih => simpa using h.operand _ ih _ hfeeds hdefines

theorem encard_setOf_mem {l : List ValueId} (h : l.Nodup) : {v | v ∈ l}.encard = l.length := by
  rw [← List.toFinset_card_of_nodup h, ← Set.encard_coe_eq_coe_finsetCard, List.coe_toFinset]

/-- **A slice is the whole set, or it is full.** The search for what an operand is computed from
ends after finitely many turns, also where values are computed in circles, and `expressionValues`
lists no value twice. If `InSlice` has at most 65 members, the list has exactly these; then an
operand flows from a value exactly if the value is one of them or is the operand itself. If the set
has more, 65 of them are found. -/
theorem slice_whole_or_full (lp : LoopBody) (root : Operand) :
    (∃ n, lp.sliceTurn^[n] (root.value?.toList, []) = ([], lp.expressionValues root)) ∧
    (lp.expressionValues root).Nodup ∧
    ({v | lp.InSlice root v}.encard ≤ 65 →
      (∀ v, v ∈ lp.expressionValues root ↔ lp.InSlice root v) ∧
      ∀ v, lp.flowsFrom root v = true ↔ lp.InSlice root v ∨ root = .value v) ∧
    (65 < {v | lp.InSlice root v}.encard →
      (∀ v ∈ lp.expressionValues root, lp.InSlice root v) ∧
      (lp.expressionValues root).length = 65) := by
  obtain ⟨hnodup, hbounded, hsound, -, hcovers⟩ := lp.slicing_expressionValues root
  dsimp only at hnodup hbounded hsound hcovers
  have hcard := encard_setOf_mem hnodup
  have hsubset : {v | v ∈ lp.expressionValues root} ⊆ {v | lp.InSlice root v} := hsound
  refine ⟨lp.exists_turns _ _, hnodup, fun hsmall => ?_, fun hlarge => ⟨hsound, ?_⟩⟩
  · have hwhole : ∀ v, v ∈ lp.expressionValues root ↔ lp.InSlice root v := by
      rcases hcovers with hfull | hcovers
      · -- A full list has as many members as the set that it is part of.
        have hle : {v | lp.InSlice root v}.encard ≤ {v | v ∈ lp.expressionValues root}.encard := by
          rw [hcard, hfull]
          exact hsmall
        have hfinite : {v | v ∈ lp.expressionValues root}.Finite := List.finite_toSet _
        have heq := hfinite.eq_of_subset_of_encard_le hsubset hle
        exact fun v => Set.ext_iff.mp heq v
      · exact fun v => ⟨hsound v, hcovers.complete⟩
    refine ⟨hwhole, fun v => ?_⟩
    rw [flowsFrom, Bool.or_eq_true, List.contains_iff_mem, hwhole, Operand.isValue_iff]
  · rcases hcovers with hfull | hcovers
    · exact hfull
    · -- A list that is not full has the whole set, which is too large for it.
      have hle : {v | lp.InSlice root v}.encard ≤ (lp.expressionValues root).length := by
        rw [← hcard]
        exact Set.encard_le_encard fun v hv => hcovers.complete hv
      have hshort : ((lp.expressionValues root).length : ℕ∞) ≤ 65 := by exact_mod_cast hbounded
      exact absurd hlarge (not_lt.mpr (hle.trans hshort))

end LoopBody

namespace Loop

/-- A `straight` loop with `n` values each of which is computed from the next, and the last from the
first. -/
def circle (n : Nat) : Loop :=
  straight ⟨0⟩ ((List.range n).map fun k => .binary ⟨k⟩ .add (.value ⟨(k + 1) % n⟩) (.int 1))

variable {n k : Nat}

theorem definition_circle (h : k < n) :
    (circle n).definition ⟨k⟩ = some (.binary ⟨k⟩ .add (.value ⟨(k + 1) % n⟩) (.int 1)) := by
  have hfirst : k < n ∧ ∀ j < k, ¬ j = k := ⟨h, fun j hj => hj.ne⟩
  simpa [circle, straight, List.find?_map, Function.comp_def, Instruction.result] using hfirst

theorem defines_circle : (circle n).defines ⟨k⟩ = true ↔ k < n := by
  simp [circle, straight, Instruction.result]

/-- All values of a `circle` belong to the slice of each. -/
theorem inSlice_circle (hn : 0 < n) :
    (circle n).InSlice (.value ⟨0⟩) ⟨k⟩ ↔ k < n := by
  constructor
  · exact fun h => defines_circle.mp h.defines
  · intro hk
    -- Every value of the circle is reached from the one before it.
    induction k with
    | zero => exact .root rfl (defines_circle.mpr hn)
    | succ k ih =>
      refine .operand (ih (by omega)) ⟨_, definition_circle (by omega), rfl, ?_⟩
        (defines_circle.mpr hk)
      simp [Instruction.uses, Instruction.operands, Operand.isValue, Operand.value?,
        Nat.mod_eq_of_lt hk]

theorem encard_circle (hn : 0 < n) :
    {v | (circle n).InSlice (.value ⟨0⟩) v}.encard = n := by
  have hmembers : {v | (circle n).InSlice (.value ⟨0⟩) v} =
      {v | v ∈ (List.range n).map ValueId.mk} := by
    ext ⟨k⟩
    simp [inSlice_circle hn]
  have hnodup : ((List.range n).map ValueId.mk).Nodup :=
    List.nodup_range.map fun i j h => congrArg ValueId.index h
  rw [hmembers, LoopBody.encard_setOf_mem hnodup, List.length_map, List.length_range]

/-- The theorem at two circles: of 65 values all are found, and of 66 one is left out. -/
theorem circles_sliced :
    (∀ k, (circle 65).flowsFrom (.value ⟨0⟩) ⟨k⟩ = true ↔ k < 65) ∧
    (∀ k < 66, (circle 66).InSlice (.value ⟨0⟩) ⟨k⟩) ∧
    ((circle 66).expressionValues (.value ⟨0⟩)).length = 65 := by
  obtain ⟨-, -, hwhole, -⟩ := (circle 65).slice_whole_or_full (.value ⟨0⟩)
  obtain ⟨-, -, -, hfull⟩ := (circle 66).slice_whole_or_full (.value ⟨0⟩)
  refine ⟨fun k => ?_, fun k hk => (inSlice_circle (by decide)).mpr hk, ?_⟩
  · obtain ⟨-, hflows⟩ := hwhole (encard_circle (by decide)).le
    rw [hflows, inSlice_circle (by decide)]
    constructor
    · rintro (hk | hself)
      · exact hk
      · cases hself
        decide
    · exact .inl
  · refine (hfull ?_).2
    rw [encard_circle (by decide)]
    exact_mod_cast Nat.lt_succ_self 65

end Loop

end LoopAnalysis
