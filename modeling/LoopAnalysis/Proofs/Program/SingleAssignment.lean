import LoopAnalysis.Proofs.Program.Confinement
import LoopAnalysis.Proofs.Program.Straight
import Mathlib.Data.List.Nodup
import Mathlib.Logic.Relation

/-!
# Loops in single-assignment form

What a compiler promises of the loops it hands over: each value is defined once, its definition is
the one that can be looked up, a phi of the header knows every edge from inside the loop, and no
value is computed from itself without a phi in between.

## Main definitions

- `LoopBody.Feeds`: a value is an operand of the definition of another, phis apart;
- `LoopBody.SingleAssignment`: the promises.

## Main statements

- `SingleAssignment.eq_of_result`, `SingleAssignment.block_unique`: a value is defined by one
  instruction, in one block;
- `acyclic_of_ascending`: values that are computed in ascending order are not computed in circles.
-/

namespace LoopAnalysis

namespace LoopBody

variable {lp : LoopBody} {v : ValueId} {i j : Instruction}

/-- The definition of `v` uses `u` and is not a phi. -/
def Feeds (lp : LoopBody) (u v : ValueId) : Prop :=
  ∃ i, lp.definition v = some i ∧ i.isPhi = false ∧ i.uses u = true

/-- A loop in single-assignment form; `Feeds` leaves phis out, as a phi may use what comes round. -/
structure SingleAssignment (lp : LoopBody) : Prop where
  /-- No value is defined twice. -/
  nodup      : (lp.instructions.filterMap (·.result)).Nodup
  definition : ∀ i ∈ lp.instructions, ∀ v, i.result = some v → lp.definition v = some i
  /-- A value of which `defines` says that it is defined inside the loop has an instruction there.
  -/
  defined    : ∀ v, lp.defines v = true → ∃ i ∈ lp.instructions, i.result = some v
  contains   : ∀ b ∈ lp.blocks, lp.containsBlock b.id = true
  /-- The phis of the `header` have an operand for every edge from inside the loop. -/
  edges      : ∀ header, lp.blocks.find? (·.id == lp.header) = some header →
    ∀ r incoming, .phi r incoming ∈ header.instructions →
      ∀ b ∈ lp.blocks, lp.header ∈ b.successors → ∃ x, (x, b.id) ∈ incoming
  acyclic    : ∀ v, ¬ Relation.TransGen lp.Feeds v v

namespace SingleAssignment

theorem eq_of_result (h : lp.SingleAssignment) (hi : i ∈ lp.instructions) (hj : j ∈ lp.instructions)
    (hiv : i.result = some v) (hjv : j.result = some v) : i = j :=
  Option.some.inj ((h.definition i hi v hiv).symm.trans (h.definition j hj v hjv))

/-- Two blocks that define one value are one block, by `nodup`. -/
theorem block_unique (h : lp.SingleAssignment) {b c : Block} (hb : b ∈ lp.blocks)
    (hc : c ∈ lp.blocks) (hi : i ∈ b.instructions) (hj : j ∈ c.instructions)
    (hiv : i.result = some v) (hjv : j.result = some v) : b = c := by
  have hnodup := h.nodup
  rw [instructions, List.filterMap_flatMap, List.nodup_flatMap] at hnodup
  by_contra hne
  -- Different blocks define different values.
  have : Std.Symm (Function.onFun List.Disjoint
      fun b : Block => b.instructions.filterMap (·.result)) := ⟨fun _ _ hd => hd.symm⟩
  have hdisjoint := hnodup.2.forall hb hc hne
  exact hdisjoint (List.mem_filterMap.mpr ⟨i, hi, hiv⟩) (List.mem_filterMap.mpr ⟨j, hj, hjv⟩)

end SingleAssignment

/-- Where `target?` sends control at the end of a block is one of its `successors`. -/
theorem mem_successors_of_target? {b : Block} {last : Instruction} {args : List Int}
    {target : BlockId} (hlast : b.instructions.getLast? = some last)
    (h : last.target? args = some target) : target ∈ b.successors := by
  unfold Block.successors
  rw [hlast]
  unfold Instruction.target? at h
  -- A branch leads to one of its two blocks, a jump to its own.
  split at h
  · next condition thenBlock elseBlock c =>
    cases h
    by_cases hc : c = 0 <;> simp [hc]
  · cases h
    simp
  · cases h

/-- Values that are computed in ascending order of `rank` are not computed from themselves. -/
theorem acyclic_of_ascending (rank : ValueId → Nat)
    (h : ∀ u v, lp.Feeds u v → rank u < rank v) (v : ValueId) :
    ¬ Relation.TransGen lp.Feeds v v := by
  intro hcycle
  have hlt : ∀ u v, Relation.TransGen lp.Feeds u v → rank u < rank v := by
    intro u v huv
    -- Every step of a circle would raise the rank.
    induction huv with
    | single huv => exact h _ _ huv
    | tail _ hvw ih => exact ih.trans (h _ _ hvw)
  exact Nat.lt_irrefl _ (hlt v v hcycle)

end LoopBody

/-- Where no `key` occurs twice, the first that is found under a key is the only one. -/
theorem find?_of_nodup {α κ : Type} [BEq κ] [LawfulBEq κ] {key : α → Option κ} {xs : List α}
    {x : α} {k : κ} (hnodup : (xs.filterMap key).Nodup) (hx : x ∈ xs) (hk : key x = some k) :
    xs.find? (key · == some k) = some x := by
  induction xs with
  | nil => cases hx
  | cons y rest ih =>
    rcases List.mem_cons.mp hx with rfl | hrest
    · simp [hk]
    · -- An earlier entry with this key would make it occur twice.
      have hne : key y ≠ some k := by
        intro hy
        rw [List.filterMap_cons_some hy, List.nodup_cons] at hnodup
        exact hnodup.1 (List.mem_filterMap.mpr ⟨x, hrest, hk⟩)
      rw [List.find?_cons_of_neg (by simpa using hne)]
      refine ih ?_ hrest
      exact hnodup.sublist ((List.sublist_cons_self y rest).filterMap _)

namespace Loop

variable {iv : ValueId} {body : List Instruction}

/-- A phi that is sent something from the block of a `straight` loop, or another instruction that
computes a value from values before it. -/
def isOrdered : Instruction → Bool
  | .phi _ incoming => incoming.any (·.2 == ⟨1⟩)
  | i => i.result.all fun v => i.operands.all fun x => x.value?.all (·.index < v.index)

theorem index_lt_of_isOrdered {i : Instruction} {u v : ValueId} (h : isOrdered i = true)
    (hplain : i.isPhi = false) (hv : i.result = some v) (hu : i.uses u = true) :
    u.index < v.index := by
  have hall : (i.operands.all fun x => x.value?.all (·.index < v.index)) = true := by
    cases i with
    | phi => cases hplain
    | _ => simpa [isOrdered, hv] using h
  obtain ⟨x, hx, hxu⟩ := List.any_eq_true.mp hu
  have hlt := List.all_eq_true.mp hall x hx
  rw [Operand.isValue, beq_iff_eq] at hxu
  simpa [hxu] using hlt

/-- A `straight` loop is in single-assignment form if no value is defined twice and all its
instructions are `isOrdered`. -/
theorem straight_singleAssignment (hnodup : (body.filterMap (·.result)).Nodup)
    (hordered : body.all isOrdered = true) : (straight iv body).SingleAssignment where
  nodup := by
    rw [straight_instructions]
    exact hnodup
  definition := by
    rw [straight_instructions]
    intro i hi v hv
    exact find?_of_nodup hnodup hi hv
  defined := by
    rw [straight_instructions]
    intro v hv
    by_contra hnone
    rw [straight_defines_eq_false_iff.mpr fun i hi hiv => hnone ⟨i, hi, hiv⟩] at hv
    cases hv
  contains := by
    intro b hb
    obtain rfl := List.mem_singleton.mp hb
    rfl
  edges := by
    -- The only edge to the header is the one from the block itself.
    intro header hheader r incoming hphi b hb _
    obtain rfl := List.mem_singleton.mp hb
    obtain rfl := List.mem_singleton.mp (List.mem_of_find?_eq_some hheader)
    obtain ⟨⟨x, b⟩, he, hb⟩ := List.any_eq_true.mp (List.all_eq_true.mp hordered _ hphi)
    obtain rfl : b = ⟨1⟩ := beq_iff_eq.mp hb
    exact ⟨x, he⟩
  acyclic := by
    apply LoopBody.acyclic_of_ascending (·.index)
    rintro u v ⟨i, hdef, hplain, huse⟩
    obtain ⟨hi, hresult⟩ := mem_of_straight_definition hdef
    exact index_lt_of_isOrdered (List.all_eq_true.mp hordered i hi) hplain hresult huse

end Loop

end LoopAnalysis
