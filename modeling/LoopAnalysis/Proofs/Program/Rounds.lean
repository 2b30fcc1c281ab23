import LoopAnalysis.Proofs.Program.SingleAssignment

/-!
# Rounds of a loop

Where each value is computed on every way round the loop, after all that it is computed from, an
iteration ends with that value being what its definition computes. In single-assignment form this
is so for every value whose definition dominates the ends of the loop.

## Main definitions

- `State.Settled`: a value has what its definition computes;
- `LoopBody.Way`: the blocks that control can pass on its way through the loop;
- `LoopBody.ComputedEachRound`: a value is computed on every way round, and not disturbed after it;
- `LoopBody.Tracks`: the state that control is in at the end of some way.

## Main statements

- `LoopBody.step_tracks`: a step extends the way that control is on, or starts a new one;
- `LoopBody.Tracks.settled`: a value that is computed each round is settled when control goes round.
-/

namespace LoopAnalysis

/-! ## §1 Settled values -/

namespace Instruction

/-- Whether the result depends on memory: that of a `load`, and of a call that is not pure. -/
def seesMemory : Instruction → Bool
  | .load _ _ => true
  | .call _ _ _ false => true
  | _ => false

/-- Executing `j` may change what `d` computes: it defines an operand of `d`, or writes what `d`
reads. -/
def disturbs (j d : Instruction) : Bool :=
  j.result.any d.uses || (d.seesMemory && j.hasSideEffects)

theorem outcome?_eq_of_not_seesMemory {d : Instruction} (h : d.seesMemory = false) (w : World)
    (memory memory' : Int → Int) (args : List Int) :
    d.outcome? w memory args = d.outcome? w memory' args := by
  unfold outcome?
  split
  -- The cases are those of `outcome?`: a load and a call are the ones that look at memory.
  case h_6 => cases h
  case h_7 callee operands isPure =>
    cases isPure with
    | true => rfl
    | false => cases h
  all_goals rfl

end Instruction

namespace State

variable {w : World} {lp : LoopBody} {s : State} {v : ValueId} {d j : Instruction} {b : Block}

/-- The value `v` has what its definition computes in this state. -/
def Settled (s : State) (w : World) (lp : LoopBody) (v : ValueId) : Prop :=
  ∀ d z, lp.definition v = some d → d.outcome? w s.memory (s.arguments d) = some z →
    s.values.value v = z

/-- What does not disturb `d` leaves alone what `d` computes. -/
theorem outcome?_exec (h : j.disturbs d = false) :
    d.outcome? w (s.exec w j).memory ((s.exec w j).arguments d) =
      d.outcome? w s.memory (s.arguments d) := by
  simp only [Instruction.disturbs, Bool.or_eq_false_iff, Bool.and_eq_false_iff] at h
  obtain ⟨hoperands, hmemory⟩ := h
  -- No operand of `d` is the result of `j`.
  have hargs : (s.exec w j).arguments d = s.arguments d := by
    refine arguments_congr rfl rfl fun u hu => ?_
    apply exec_value_of_ne
    intro hresult
    simp [hresult, hu] at hoperands
  rw [hargs]
  -- Either `d` is blind to memory, or `j` does not write to it.
  rcases hmemory with hblind | hpure
  · exact Instruction.outcome?_eq_of_not_seesMemory hblind w _ _ _
  · simp only [exec, Instruction.effect_of_pure hpure]

theorem outcome?_receive (h : ∀ i ∈ b.instructions, i.isPhi = true → i.disturbs d = false) :
    d.outcome? w (s.receive b).memory ((s.receive b).arguments d) =
      d.outcome? w s.memory (s.arguments d) := by
  have hargs : (s.receive b).arguments d = s.arguments d := by
    refine arguments_congr rfl rfl fun u hu => ?_
    apply receive_value_of_forall_ne
    intro i hi hphi hresult
    have hnot := h i hi hphi
    simp [Instruction.disturbs, hresult, hu] at hnot
  rw [hargs]
  rfl

/-- A value is `Settled` after an instruction that computes it, and after one that leaves it and its
definition alone if it was so before. -/
theorem settled_exec (hform : lp.SingleAssignment) (hj : j ∈ lp.instructions)
    (hdef : lp.definition v = some d) (h : j.disturbs d = false)
    (hs : j.result ≠ some v → s.Settled w lp v) : (s.exec w j).Settled w lp v := by
  intro d' z hdef' hz
  obtain rfl : d = d' := Option.some.inj (hdef.symm.trans hdef')
  rw [outcome?_exec h] at hz
  -- In single-assignment form an instruction with that result is the definition itself.
  by_cases hresult : j.result = some v
  · obtain rfl : j = d := Option.some.inj ((hform.definition j hj v hresult).symm.trans hdef)
    simp only [exec, hresult, if_true, hz, Option.getD_some]
  · rw [exec_value_of_ne hresult]
    exact hs hresult d z hdef hz

theorem settled_receive (hform : lp.SingleAssignment) (hb : b ∈ lp.blocks)
    (hdef : lp.definition v = some d)
    (h : ∀ i ∈ b.instructions, i.isPhi = true → i.disturbs d = false)
    (hs : s.Settled w lp v) : (s.receive b).Settled w lp v := by
  intro d' z hdef' hz
  obtain rfl : d = d' := Option.some.inj (hdef.symm.trans hdef')
  rw [outcome?_receive h] at hz
  rw [receive_value_of_forall_ne]
  · exact hs d z hdef hz
  · -- A phi computes nothing by itself.
    intro i hi hphi hresult
    obtain rfl : i = d := Option.some.inj
      ((hform.definition i (LoopBody.mem_instructions_of_mem hb hi) v hresult).symm.trans hdef)
    cases i with
    | phi => cases hz
    | _ => cases hphi

end State

/-! ## §2 Ways round the loop -/

/-- Whether the value that `d` defines is settled after `j`, given whether it was so before. -/
def freshAfter (d : Instruction) (fresh : Bool) (j : Instruction) : Bool :=
  (fresh || j.result == d.result) && !j.disturbs d

/-- The same through the block `b`, phis first and all at once. -/
def freshThrough (d : Instruction) (b : Block) (fresh : Bool) : Bool :=
  (b.instructions.filter (!·.isPhi)).foldl (freshAfter d)
    (fresh && (b.instructions.filter (·.isPhi)).all (!·.disturbs d))

/-- The same along a number of blocks, the last one first; at the start nothing is fresh. -/
def freshAlong (d : Instruction) : List Block → Bool
  | [] => false
  | b :: bs => freshThrough d b (freshAlong d bs)

namespace LoopBody

variable {lp : LoopBody} {w : World} {s t : State} {v : ValueId} {b : Block}

/-- The blocks that control can pass from the header on, the last one first. -/
inductive Way (lp : LoopBody) : List Block → Prop where
  | header {b : Block} (hfind : lp.blocks.find? (·.id == lp.header) = some b) : Way lp [b]
  | next {b c : Block} {bs : List Block} (hway : Way lp (b :: bs))
      (hsuccessor : c.id ∈ b.successors) (hother : c.id ≠ lp.header)
      (hfind : lp.blocks.find? (·.id == c.id) = some c) :
      Way lp (c :: b :: bs)

/-- On every `Way` round the loop the value `v` is computed, and after that nothing that its
definition uses. -/
def ComputedEachRound (lp : LoopBody) (v : ValueId) : Prop :=
  ∃ d, lp.definition v = some d ∧ d.result = some v ∧
    ∀ b bs, lp.Way (b :: bs) → lp.header ∈ b.successors → freshAlong d (b :: bs) = true

/-- Control has come along some `Way`, and every value is `Settled` that is fresh after that way. -/
def Tracks (lp : LoopBody) (w : World) (s : State) : Prop :=
  ∃ b bs, lp.Way (b :: bs) ∧ b.id = s.source ∧ s.block ∈ b.successors ∧
    ∀ v d, lp.definition v = some d → d.result = some v → freshAlong d (b :: bs) = true →
      s.Settled w lp v

/-- What `freshAfter` finds fresh after `is` is settled after them, if it was so before them in case
it was fresh. -/
theorem settled_foldl_exec (hform : lp.SingleAssignment) {d : Instruction}
    (hdef : lp.definition v = some d) (hresult : d.result = some v) {is : List Instruction}
    (hmem : ∀ i ∈ is, i ∈ lp.instructions) {fresh : Bool} (hs : fresh = true → s.Settled w lp v)
    (h : is.foldl (freshAfter d) fresh = true) : (is.foldl (State.exec w) s).Settled w lp v := by
  -- Induct on the instructions; the invariant is that a fresh value is settled.
  induction is generalizing fresh s with
  | nil => exact hs h
  | cons j is ih =>
    refine ih (fun i hi => hmem i (List.mem_cons_of_mem j hi)) (fun hafter => ?_) h
    simp only [freshAfter, Bool.and_eq_true, Bool.or_eq_true, beq_iff_eq, Bool.not_eq_true',
      hresult] at hafter
    refine State.settled_exec hform (hmem j List.mem_cons_self) hdef hafter.2 fun hother => ?_
    exact hs (hafter.1.resolve_right hother)

theorem settled_through (hform : lp.SingleAssignment) (hb : b ∈ lp.blocks) {d : Instruction}
    (hdef : lp.definition v = some d) (hresult : d.result = some v) {fresh : Bool}
    (hs : fresh = true → s.Settled w lp v) (h : freshThrough d b fresh = true) :
    (s.through w b).Settled w lp v := by
  refine settled_foldl_exec hform hdef hresult ?_ ?_ h
  · intro i hi
    exact mem_instructions_of_mem hb (List.mem_filter.mp hi).1
  · intro hstart
    simp only [Bool.and_eq_true, List.all_eq_true, List.mem_filter, Bool.not_eq_true',
      and_imp] at hstart
    exact State.settled_receive hform hb hdef hstart.2 (hs hstart.1)

/-- **A `step` stays on the way**: it extends the way that control is on, or starts a new one at the
header. -/
theorem step_tracks (hform : lp.SingleAssignment) (h : s.block = lp.header ∨ lp.Tracks w s)
    (hstep : lp.step w s = some t) : lp.Tracks w t := by
  obtain ⟨b, last, target, hb, hlast, htarget, rfl⟩ := step_eq_some hstep
  have hmem : b ∈ lp.blocks := List.mem_of_find?_eq_some hb
  have hid : b.id = s.block := by simpa using List.find?_some hb
  have hsuccessor := mem_successors_of_target? hlast htarget
  by_cases hheader : s.block = lp.header
  · -- At the header a new way starts, on which nothing is fresh yet.
    refine ⟨b, [], .header (hheader ▸ hb), rfl, hsuccessor, fun v d hdef hresult hfresh => ?_⟩
    exact settled_through hform hmem hdef hresult (fun hfalse => by cases hfalse) hfresh
  · -- Elsewhere the block is a successor of the last one, and the way goes on.
    obtain ⟨c, cs, hway, -, hcsucc, hsettled⟩ := h.resolve_left hheader
    have hnext : lp.Way (b :: c :: cs) :=
      .next hway (hid ▸ hcsucc) (hid ▸ hheader) (hid ▸ hb)
    refine ⟨b, c :: cs, hnext, rfl, hsuccessor, fun v d hdef hresult hfresh => ?_⟩
    exact settled_through hform hmem hdef hresult (hsettled v d hdef hresult) hfresh

/-- **A value that is `ComputedEachRound` is settled when control goes round.** -/
theorem Tracks.settled (h : lp.Tracks w s) (hblock : s.block = lp.header)
    (hround : lp.ComputedEachRound v) : s.Settled w lp v := by
  obtain ⟨b, bs, hway, -, hsuccessor, hsettled⟩ := h
  obtain ⟨d, hdef, hresult, hfresh⟩ := hround
  exact hsettled v d hdef hresult (hfresh b bs hway (hblock ▸ hsuccessor))

theorem step_fraction (hstep : lp.step w s = some t) : t.values.fraction = s.values.fraction := by
  obtain ⟨b, last, target, -, -, -, rfl⟩ := step_eq_some hstep
  exact State.foldl_exec_fraction _

/-- After at least one step of `run` from the header, control is on a way. -/
theorem tracks_of_run (hform : lp.SingleAssignment) (hs : s.block = lp.header) {n : Nat}
    {ends : List State} (hrun : lp.run w (n + 1) s = some (t, ends)) :
    lp.Tracks w t ∧ t.values.fraction = s.values.fraction := by
  obtain ⟨u, past, hpast, hstep, -⟩ := run_succ_eq_some hrun
  -- The first state stands at the header, and every later one is on a way.
  have hu := (run_invariant (P := fun u => (u.block = lp.header ∨ lp.Tracks w u) ∧
    u.values.fraction = s.values.fraction) ?_ ⟨.inl hs, rfl⟩ hpast).1
  · exact ⟨step_tracks hform hu.1 hstep, (step_fraction hstep).trans hu.2⟩
  · intro u t hu hut
    exact ⟨.inr (step_tracks hform hu.1 hut), (step_fraction hut).trans hu.2⟩

theorem Way.mem_blocks {bs : List Block} (h : lp.Way (b :: bs)) : b ∈ lp.blocks := by
  cases h with
  | header hfind => exact List.mem_of_find?_eq_some hfind
  | next _ _ _ hfind => exact List.mem_of_find?_eq_some hfind

/-- Control that `Tracks` a way has come from a block of the loop. -/
theorem Tracks.source (h : lp.Tracks w s) :
    ∃ b ∈ lp.blocks, b.id = s.source ∧ s.block ∈ b.successors := by
  obtain ⟨b, bs, hway, hsource, hsuccessor, -⟩ := h
  exact ⟨b, hway.mem_blocks, hsource, hsuccessor⟩

end LoopBody

namespace Loop

variable {iv v : ValueId} {body : List Instruction}

/-- The only way through a `straight` loop is its block. -/
theorem way_straight {bs : List Block} (h : (straight iv body).Way bs) :
    bs = [⟨⟨1⟩, body, none⟩] := by
  cases h with
  | header hfind => rw [List.mem_singleton.mp (List.mem_of_find?_eq_some hfind)]
  -- A second block would have to be another one than the header.
  | next _ _ hother hfind =>
    rw [List.mem_singleton.mp (List.mem_of_find?_eq_some hfind)] at hother
    exact absurd rfl hother

/-- So it is enough that a value is fresh at the end of the block: `freshThrough` decides. -/
theorem straight_computedEachRound {d : Instruction}
    (hdef : (straight iv body).definition v = some d)
    (hfresh : freshThrough d ⟨⟨1⟩, body, none⟩ false = true) :
    (straight iv body).ComputedEachRound v := by
  refine ⟨d, hdef, (mem_of_straight_definition hdef).2, fun b bs hway _ => ?_⟩
  rw [way_straight hway]
  exact hfresh

end Loop

end LoopAnalysis
