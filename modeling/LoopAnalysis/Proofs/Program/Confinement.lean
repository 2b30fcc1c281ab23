import LoopAnalysis.Proofs.Program.Execution

/-!
# Values that stay among themselves

A set of values of a loop is sealed when whatever uses one of them only computes another of them.
Runs that start in states which differ in sealed values alone differ in these values alone for ever:
control, memory and all other values are the same.

## Main definitions

- `LoopBody.Sealed`: the uses of a set of values only define values of the set;
- `State.AgreeBut`: two states that differ in a set of values at most.

## Main statements

- `LoopBody.step_agreeBut`: one block keeps the agreement;
- `LoopBody.run_agreeBut`: so does a run, in every iteration.
-/

namespace LoopAnalysis

/-- What uses a value of `D` does nothing but define another. -/
def LoopBody.Sealed (lp : LoopBody) (D : ValueId → Prop) : Prop :=
  ∀ i ∈ lp.instructions, ∀ v, D v → i.uses v = true →
    i.hasSideEffects = false ∧ ∃ r, i.result = some r ∧ D r

/-- Two states that differ in the values of `D` at most. -/
structure State.AgreeBut (D : ValueId → Prop) (s s' : State) : Prop where
  value    : ∀ v, ¬ D v → s.values.value v = s'.values.value v
  symbol   : s.values.symbol = s'.values.symbol
  fraction : s.values.fraction = s'.values.fraction
  memory   : s.memory = s'.memory
  block    : s.block = s'.block
  source   : s.source = s'.source

namespace State.AgreeBut

variable {D : ValueId → Prop} {w : World} {s s' : State} {i : Instruction} {x : Operand}

/-! ## §1 Operands -/

/-- An operand outside `D` has one value in states that `AgreeBut D`. -/
theorem eval_eq (h : AgreeBut D s s') (hx : ∀ v, D v → x.isValue v = false) :
    s.values.eval x = s'.values.eval x := by
  apply Valuation.eval_congr h.symbol h.fraction
  intro v hv
  apply h.value
  intro hD
  simp [hx v hD] at hv

/-- So have the `arguments` of an instruction that uses no value of `D`. -/
theorem arguments_eq (h : AgreeBut D s s') (hi : ∀ v, D v → i.uses v = false) :
    s.arguments i = s'.arguments i := by
  apply arguments_congr h.symbol h.fraction
  intro v hv
  apply h.value
  intro hD
  simp [hi v hD] at hv

/-! ## §2 Instructions and blocks -/

theorem exec (h : AgreeBut D s s')
    (hi : ∀ v, D v → i.uses v = true → i.hasSideEffects = false ∧ ∃ r, i.result = some r ∧ D r) :
    AgreeBut D (s.exec w i) (s'.exec w i) := by
  by_cases huse : ∃ v, D v ∧ i.uses v = true
  · -- The instruction sees the difference, and passes it on to a value of the set alone.
    obtain ⟨v, hv, hvi⟩ := huse
    obtain ⟨hpure, r, hr, hD⟩ := hi v hv hvi
    refine ⟨fun u hu => ?_, h.symbol, h.fraction, ?_, h.block, h.source⟩
    · have hne : i.result ≠ some u := by
        rw [hr]
        rintro ⟨⟩
        exact hu hD
      rw [exec_value_of_ne hne, exec_value_of_ne hne]
      exact h.value u hu
    · show i.effect w _ s.memory = i.effect w _ s'.memory
      rw [Instruction.effect_of_pure hpure, Instruction.effect_of_pure hpure]
      exact h.memory
  · -- The instruction sees no difference.
    have hargs : s.arguments i = s'.arguments i := by
      apply h.arguments_eq
      intro v hv
      by_contra hvi
      exact huse ⟨v, hv, by simpa using hvi⟩
    refine ⟨fun u hu => ?_, h.symbol, h.fraction, ?_, h.block, h.source⟩
    · simp only [State.exec, hargs, h.memory, h.value u hu]
    · simp only [State.exec, hargs, h.memory]

end State.AgreeBut

namespace LoopBody

variable {lp : LoopBody} {D : ValueId → Prop} {w : World} {s s' t : State} {b : Block}

theorem mem_instructions_of_mem {i : Instruction} (hb : b ∈ lp.blocks) (hi : i ∈ b.instructions) :
    i ∈ lp.instructions := List.mem_flatMap.mpr ⟨b, hb, hi⟩

theorem receive_agreeBut (hsealed : lp.Sealed D) (hb : b ∈ lp.blocks) (h : s.AgreeBut D s') :
    (s.receive b).AgreeBut D (s'.receive b) := by
  refine ⟨fun v hv => ?_, h.symbol, h.fraction, h.memory, h.block, h.source⟩
  simp only [State.receive, h.source]
  cases hfind : b.instructions.findSome? (·.received? s'.source v) with
  | none => exact h.value v hv
  | some x =>
    -- What is received is an operand of the phi, which defines no value of the set.
    obtain ⟨i, hi, hx⟩ := List.exists_of_findSome?_eq_some hfind
    apply h.eval_eq
    intro u hu
    by_contra hxu
    have huse : i.uses u = true ∧ i.result = some v := by
      cases i with
      | phi r incoming =>
        simp only [Instruction.received?] at hx
        split at hx
        · next hr =>
          obtain ⟨e, he, rfl⟩ := Option.map_eq_some_iff.mp hx
          refine ⟨List.any_eq_true.mpr ⟨e.1, ?_, by simpa using hxu⟩, congrArg some hr⟩
          exact List.mem_map.mpr ⟨e, List.mem_of_find?_eq_some he, rfl⟩
        · cases hx
      | _ => cases hx
    obtain ⟨-, r, hr, hD⟩ := hsealed i (mem_instructions_of_mem hb hi) u hu huse.1
    obtain rfl : v = r := Option.some.inj (huse.2.symm.trans hr)
    exact hv hD

theorem foldl_exec_agreeBut (hsealed : lp.Sealed D) {is : List Instruction}
    (hmem : ∀ i ∈ is, i ∈ lp.instructions) (h : s.AgreeBut D s') :
    (is.foldl (State.exec w) s).AgreeBut D (is.foldl (State.exec w) s') := by
  -- The agreement after one instruction is what the rest starts from.
  induction is generalizing s s' with
  | nil => exact h
  | cons i is ih =>
    apply ih (fun j hj => hmem j (List.mem_cons_of_mem i hj))
    exact h.exec (hsealed i (hmem i List.mem_cons_self))

theorem through_agreeBut (hsealed : lp.Sealed D) (hb : b ∈ lp.blocks) (h : s.AgreeBut D s') :
    (s.through w b).AgreeBut D (s'.through w b) := by
  apply foldl_exec_agreeBut hsealed
  · intro i hi
    exact mem_instructions_of_mem hb (List.mem_filter.mp hi).1
  · exact receive_agreeBut hsealed hb h

/-! ## §3 Steps and runs -/

/-- **A `step` keeps the agreement**, and is made from both states or from neither. -/
theorem step_agreeBut (hsealed : lp.Sealed D) (h : s.AgreeBut D s') (hstep : lp.step w s = some t) :
    ∃ t', lp.step w s' = some t' ∧ t.AgreeBut D t' := by
  obtain ⟨b, last, target, hb, hlast, htarget, rfl⟩ := step_eq_some hstep
  have hmem : b ∈ lp.blocks := List.mem_of_find?_eq_some hb
  have hthrough := through_agreeBut (w := w) hsealed hmem h
  -- The last instruction has no result, so it uses no value of the set.
  have hargs : (s.through w b).arguments last = (s'.through w b).arguments last := by
    apply hthrough.arguments_eq
    intro v hv
    by_contra huse
    obtain ⟨-, r, hr, -⟩ := hsealed last
      (mem_instructions_of_mem hmem (List.mem_of_getLast? hlast)) v hv (by simpa using huse)
    cases last <;> cases hr <;> cases htarget
  refine ⟨{ s'.through w b with block := target, source := b.id }, ?_, ?_⟩
  · rw [hargs] at htarget
    simp only [step, ← h.block, hb, hlast, htarget, bind, Option.bind_some, pure]
  · exact ⟨hthrough.value, hthrough.symbol, hthrough.fraction, hthrough.memory, rfl, rfl⟩

/-- **A `run` keeps the agreement**: from the other state as many blocks can be run, and in the end
as well as at the end of every iteration the two runs differ in the values of `D` at most. -/
theorem run_agreeBut (hsealed : lp.Sealed D) (h : s.AgreeBut D s') {n : Nat} {ends : List State}
    (hrun : lp.run w n s = some (t, ends)) :
    ∃ t' ends', lp.run w n s' = some (t', ends') ∧ t.AgreeBut D t' ∧
      List.Forall₂ (State.AgreeBut D) ends ends' := by
  induction n generalizing t ends with
  | zero =>
    cases hrun
    exact ⟨s', [], rfl, h, .nil⟩
  | succ n ih =>
    obtain ⟨u, past, hpast, hstep, rfl⟩ := run_succ_eq_some hrun
    obtain ⟨u', past', hpast', hagree, hends⟩ := ih hpast
    obtain ⟨t', hstep', hfinal⟩ := step_agreeBut hsealed hagree hstep
    refine ⟨t', if lp.goesRound u' then past' ++ [u'] else past', ?_, hfinal, ?_⟩
    · simp only [run, hpast', hstep', bind, Option.bind_some, pure]
    · -- Both runs are at the same block, so they list an iteration at the same time.
      have hround : lp.goesRound u = lp.goesRound u' := by
        simp only [goesRound, hagree.block, hagree.source]
      rw [hround]
      split
      · exact List.rel_append hends (.cons hagree .nil)
      · exact hends

end LoopBody

end LoopAnalysis
