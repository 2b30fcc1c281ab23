import LoopAnalysis.Proofs.Program.Rounds
import LoopAnalysis.Proofs.Recurrence.Operators

/-!
# Accumulators as folds

The update of a matched accumulator computes its operator, applied to the running value and the
addend of the iteration. A header phi that receives nothing but this update from inside the loop is
therefore a fold: run by run, its value is what it received on entry with all addends folded in.

## Main definitions

- `LoopBody.foldStep`: what an accumulator makes of the running value and an addend;
- `LoopBody.ReceivesOnly`: every edge from inside the loop brings the update;
- `LoopBody.Enters`: control comes to the header from outside.

## Main statements

- `LoopBody.Folds.value_update`: an update computes what was matched, in every state of a run;
- `LoopBody.step_value_phi_of_enters`, `LoopBody.step_value_phi_of_tracks`: what one block makes of
  the running value;
- `LoopBody.run_value_phi`: what a run makes of it.
-/

namespace LoopAnalysis

/-! ## §1 One iteration -/

/-- Fractional constants that compare equal with `==` have one value. -/
def Valuation.FractionsCompare (r : Valuation) : Prop :=
  ∀ x y : Float, (x == y) = true → r.fraction x = r.fraction y

theorem Valuation.FractionsCompare.eval_eq {r : Valuation} (h : r.FractionsCompare) {x y : Operand}
    (hxy : (x == y) = true) : r.eval x = r.eval y := by
  rcases Operand.eq_or_float_of_beq hxy with rfl | ⟨a, b, rfl, rfl, hab⟩
  · rfl
  · exact h a b hab

namespace LoopBody

variable {lp : LoopBody} {phi update : ValueId} {m : Accumulation} {w : World} {s t : State}

/-- What an accumulator makes of the running value and an addend. A difference, which `subtracts`
tells, is a sum with the addend negated. -/
def foldStep (lp : LoopBody) (acc : Accumulator) (x a : Int) : Int :=
  acc.operator.apply x (if lp.subtracts acc.update then -a else a)

/-- A value that is `Settled` in a state has what its definition `Computes`. -/
theorem computes_of_settled {v : ValueId} (h : s.Settled w lp v) : s.values.Computes lp v := by
  unfold Valuation.Computes
  split
  · next hdef => exact h _ _ hdef rfl
  · next p lhs rhs hdef =>
    have houtcome : s.values.value v =
        if p.holds (s.values.eval lhs) (s.values.eval rhs) then 1 else 0 := h _ _ hdef rfl
    rw [houtcome]
    split <;> simp_all
  · next hdef => exact h _ _ hdef rfl
  · next hdef =>
    -- A call computes a reduction if its callee names one.
    intro red hred
    exact (h _ _ hdef rfl).trans (w.call_reduction _ _ _ hred)
  · trivial

/-- The update of `Folds` computes what was matched in a state of a run too. -/
theorem Folds.value_update (h : lp.Folds phi update m)
    (hsettled : ∀ v ∈ m.expression, s.Settled w lp v) (hfractions : s.values.FractionsCompare) :
    s.values.value update = m.operator.apply (s.values.value phi)
      (if lp.subtracts update then -s.values.eval m.addend else s.values.eval m.addend) :=
  h.value_eq (fun v hv => computes_of_settled (hsettled v hv)) fun _ hx => hfractions.eval_eq hx

/-! ## §2 The header phi -/

/-- The operand that the phi of a value is sent from a block, by `received?`. -/
def receivedFrom? (lp : LoopBody) (phi : ValueId) (source : BlockId) : Option Operand :=
  lp.instructions.findSome? (·.received? source phi)

/-- Every edge from inside the loop brings one value to the phi of another. -/
def ReceivesOnly (lp : LoopBody) (phi update : ValueId) : Prop :=
  ∀ incoming, .phi phi incoming ∈ lp.instructions →
    ∀ e ∈ incoming, lp.containsBlock e.2 = true → e.1 = .value update

/-- Control comes to the header from a block outside the loop. -/
def Enters (lp : LoopBody) (s : State) : Prop :=
  s.block = lp.header ∧ lp.containsBlock s.source = false

variable {header : Block} {incoming : List (Operand × BlockId)}

/-- Only the phi of a value has an answer of `received?` for it. -/
theorem received?_eq (hform : lp.SingleAssignment) {i : Instruction} (hi : i ∈ lp.instructions)
    (hphi : .phi phi incoming ∈ lp.instructions) {source : BlockId} {x : Operand}
    (hx : i.received? source phi = some x) :
    (incoming.find? (·.2 == source)).map (·.1) = some x := by
  cases i with
  | phi r sent =>
    simp only [Instruction.received?] at hx
    split at hx
    · next hr =>
      subst hr
      cases hform.eq_of_result hi hphi rfl rfl
      exact hx
    · cases hx
  | _ => cases hx

/-- The header phi has, after `receive`, the value of the operand that it was sent. -/
theorem receive_header (hform : lp.SingleAssignment) (hmem : header ∈ lp.blocks)
    (hphi : .phi phi incoming ∈ header.instructions) {x : Operand}
    (hx : (incoming.find? (·.2 == s.source)).map (·.1) = some x) :
    (s.receive header).values.value phi = s.values.eval x := by
  have hfound : header.instructions.findSome? (·.received? s.source phi) = some x := by
    cases hfind : header.instructions.findSome? (·.received? s.source phi) with
    | none =>
      have hnone := List.findSome?_eq_none_iff.mp hfind _ hphi
      simp only [Instruction.received?, if_true] at hnone
      exact hnone.symm.trans hx
    | some y =>
      obtain ⟨i, hi, hy⟩ := List.exists_of_findSome?_eq_some hfind
      rw [← hx, received?_eq hform (mem_instructions_of_mem hmem hi)
        (mem_instructions_of_mem hmem hphi) hy]
  simp only [State.receive, hfound, Option.map_some, Option.getD_some]

section Header

variable (hform : lp.SingleAssignment)
  (hheader : lp.blocks.find? (·.id == lp.header) = some header)
  (hphi : .phi phi incoming ∈ header.instructions)

include hform hheader hphi

/-- In a `step` nothing but the header changes the value of its phi, and the header only by what the
phi receives. -/
theorem step_value_phi (hstep : lp.step w s = some t) :
    t.values.value phi =
      if s.block = lp.header then (s.receive header).values.value phi else s.values.value phi := by
  obtain ⟨b, last, target, hb, -, -, rfl⟩ := step_eq_some hstep
  have hbmem : b ∈ lp.blocks := List.mem_of_find?_eq_some hb
  have hmem : header ∈ lp.blocks := List.mem_of_find?_eq_some hheader
  have hplain : ∀ i ∈ b.instructions.filter (!·.isPhi), i.result ≠ some phi := by
    intro i hi hresult
    obtain ⟨hib, hnot⟩ := List.mem_filter.mp hi
    rw [hform.eq_of_result (mem_instructions_of_mem hbmem hib) (mem_instructions_of_mem hmem hphi)
      hresult rfl] at hnot
    cases hnot
  show (s.through w b).values.value phi = _
  rw [State.through, State.foldl_exec_value_of_forall_ne hplain]
  by_cases hblock : s.block = lp.header
  · rw [hblock, hheader] at hb
    obtain rfl := Option.some.inj hb
    rw [if_pos hblock]
  · rw [if_neg hblock]
    apply State.receive_value_of_forall_ne
    intro i hi _ hresult
    -- Another block that defines the phi would be the header.
    obtain rfl := hform.block_unique hbmem hmem hi hphi hresult rfl
    have hid : b.id = s.block := by simpa using List.find?_some hb
    have hid' : b.id = lp.header := by simpa using List.find?_some hheader
    exact hblock (hid.symm.trans hid')

/-- A `step` that `Enters` the loop gives the phi what it is sent from outside. -/
theorem step_value_phi_of_enters (henters : lp.Enters s) {x : Operand}
    (hx : lp.receivedFrom? phi s.source = some x) (hstep : lp.step w s = some t) :
    t.values.value phi = s.values.eval x := by
  have hmem : header ∈ lp.blocks := List.mem_of_find?_eq_some hheader
  rw [step_value_phi hform hheader hphi hstep, if_pos henters.1]
  apply receive_header hform hmem hphi
  obtain ⟨i, hi, hsent⟩ := List.exists_of_findSome?_eq_some hx
  exact received?_eq hform hi (mem_instructions_of_mem hmem hphi) hsent

/-- In a `step` inside the loop the phi becomes the update when control `goesRound`, and stays as it
is otherwise. -/
theorem step_value_phi_of_tracks (honly : lp.ReceivesOnly phi update) (htracks : lp.Tracks w s)
    (hstep : lp.step w s = some t) :
    t.values.value phi = if lp.goesRound s then s.values.value update else s.values.value phi := by
  have hmem : header ∈ lp.blocks := List.mem_of_find?_eq_some hheader
  obtain ⟨c, hc, hsource, hsuccessor⟩ := htracks.source
  have hcontains : lp.containsBlock s.source = true := hsource ▸ hform.contains c hc
  rw [step_value_phi hform hheader hphi hstep]
  by_cases hblock : s.block = lp.header
  · rw [if_pos hblock, if_pos (by simp [goesRound, hblock, hcontains])]
    -- The phi knows the edge that control came by, and that edge brings the update.
    obtain ⟨y, hy⟩ := hform.edges header hheader phi incoming hphi c hc (hblock ▸ hsuccessor)
    have hsome : (incoming.find? (·.2 == s.source)).isSome = true := by
      rw [List.find?_isSome]
      exact ⟨(y, c.id), hy, by simp [hsource]⟩
    obtain ⟨e, he⟩ := Option.isSome_iff_exists.mp hsome
    have hedge : e.2 = s.source := by simpa using List.find?_some he
    have hupdate := honly incoming (mem_instructions_of_mem hmem hphi) e
      (List.mem_of_find?_eq_some he) (hedge ▸ hcontains)
    have hsent : (incoming.find? (·.2 == s.source)).map (·.1) = some (.value update) := by
      rw [he, Option.map_some, hupdate]
    exact receive_header hform hmem hphi hsent
  · rw [if_neg hblock, if_neg (by simp [goesRound, hblock])]

/-! ## §3 A run -/

/-- **A running value is a fold**: in every `run` that enters the loop, it is what the phi received
on entry with the addends of all complete iterations folded in, in order. -/
theorem run_value_phi {acc : Accumulator} (honly : lp.ReceivesOnly phi acc.update)
    (hfolds : lp.Folds phi acc.update m) (hop : acc.operator = m.operator)
    (haddend : acc.addend = m.addend) (hround : ∀ v ∈ m.expression, lp.ComputedEachRound v)
    (henters : lp.Enters s) (hfractions : s.values.FractionsCompare) {x : Operand}
    (hx : lp.receivedFrom? phi s.source = some x) {n : Nat} {ends : List State}
    (hrun : lp.run w (n + 1) s = some (t, ends)) :
    t.values.value phi =
      (ends.map (·.values.eval acc.addend)).foldl (lp.foldStep acc) (s.values.eval x) := by
  -- The induction is on the steps; the first one enters the loop, every other one tracks a round.
  induction n generalizing t ends with
  | zero =>
    obtain ⟨u, past, hpast, hstep, rfl⟩ := run_succ_eq_some hrun
    cases hpast
    rw [if_neg (by simp [goesRound, henters.2])]
    exact step_value_phi_of_enters hform hheader hphi henters hx hstep
  | succ n ih =>
    obtain ⟨u, past, hpast, hstep, rfl⟩ := run_succ_eq_some hrun
    obtain ⟨htracks, hfraction⟩ := tracks_of_run hform henters.1 hpast
    rw [step_value_phi_of_tracks hform hheader hphi honly htracks hstep]
    split
    · next hgoes =>
      -- One more iteration is complete, and its addend is folded in.
      have hblock : u.block = lp.header := by
        simp only [goesRound, Bool.and_eq_true, beq_iff_eq] at hgoes
        exact hgoes.1
      have hcompare : u.values.FractionsCompare := by
        rw [Valuation.FractionsCompare, hfraction]
        exact hfractions
      rw [List.map_append, List.foldl_append, ← ih hpast,
        hfolds.value_update (fun v hv => htracks.settled hblock (hround v hv)) hcompare, ← hop,
        ← haddend]
      rfl
    · -- Control did not come back to the header, so neither side changes.
      exact ih hpast

end Header

end LoopBody

end LoopAnalysis
