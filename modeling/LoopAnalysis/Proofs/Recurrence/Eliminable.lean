import LoopAnalysis.Proofs.Access.Slice
import LoopAnalysis.Proofs.Dependence.Accumulators
import LoopAnalysis.Proofs.Dependence.Independence
import LoopAnalysis.Proofs.Recurrence.Folding
import LoopAnalysis.Proofs.Recurrence.Observers

/-!
# Eliminated scalars

A loop whose one dependence is a header phi may give each worker a copy of the running value if that
value is a fold, and if what is folded in does not depend on it. The profile sees to a part of
this: the addend is either the running value itself or not computed from it. It does not see an
edge that brings something else back, nor what else uses the outcome of a comparison.

## Main definitions

- `LoopBody.Reaches`: the values that depend on a running value within one iteration.

## Main statements

- `LoopBody.flowsFrom_addend_iff`: an addend flows from the running value only if it is that value;
- `LoopBody.sealed_reaches`: what the running value reaches is used for nothing but the update;
- `LoopBody.run_addends_eq`: so the addends of a run do not depend on it;
- `Loop.fold_of_eliminable`: what an eliminable profile says of a carried header phi;
- `Loop.eliminable_without_fold`: a sum of the running value itself, and one that starts anew.
-/

namespace LoopAnalysis

namespace LoopBody

variable {lp : LoopBody} {phi update : ValueId} {m : Accumulation} {i : Instruction} {v : ValueId}

/-! ## §1 What a running value reaches -/

/-- The values that depend on a value within one iteration: the value itself, and what an
instruction that `Observes` it computes. -/
def Reaches (lp : LoopBody) (phi v : ValueId) : Prop :=
  v = phi ∨ ∃ j, lp.Observes phi j ∧ j.isPhi = false ∧ j.result = some v

/-- Whatever uses a value that `phi` reaches also observes `phi`. -/
theorem Reaches.observes (h : lp.Reaches phi v) (hi : i ∈ lp.instructions)
    (huse : i.uses v = true) : lp.Observes phi i := by
  rcases h with rfl | ⟨j, hobs, hplain, hresult⟩
  · exact .direct hi huse
  · exact .through hobs hplain hresult hi huse

/-- No value of the `expression` of an update is defined by a phi. -/
theorem Folds.plain_of_mem (h : lp.Folds phi update m) (hv : v ∈ m.expression)
    (hdef : lp.definition v = some i) : i.isPhi = false := by
  cases h with
  | binary r op lhs rhs hupdate _ _ hexpr =>
    obtain rfl : v = update := by simpa [hexpr] using hv
    cases hupdate.symm.trans hdef
    rfl
  | select r c rc onTrue onFalse lhs rhs p hupdate hcompare _ _ _ _ hexpr =>
    rcases (by simpa [hexpr] using hv : v = update ∨ v = c) with rfl | rfl
    · cases hupdate.symm.trans hdef
      rfl
    · cases hcompare.symm.trans hdef
      rfl
  | call r callee a b isPure hupdate _ _ _ hexpr =>
    obtain rfl : v = update := by simpa [hexpr] using hv
    cases hupdate.symm.trans hdef
    rfl

/-- The addend `Feeds` everything that an update is made of. -/
theorem Folds.feeds_addend (h : lp.Folds phi update m) {a : ValueId} (ha : m.addend = .value a)
    (hv : v ∈ m.expression) : lp.Feeds a v := by
  have hself : (Operand.value a).isValue a = true := Operand.isValue_iff.mpr rfl
  cases h with
  | binary r op lhs rhs hupdate hsides _ hexpr =>
    obtain rfl : v = update := by simpa [hexpr] using hv
    refine ⟨_, hupdate, rfl, ?_⟩
    rcases hsides with ⟨-, hr⟩ | ⟨-, -, hl⟩
    · simp [Instruction.uses, Instruction.operands, ← hr, ha, hself]
    · simp [Instruction.uses, Instruction.operands, ← hl, ha, hself]
  -- A selection has the addend for an arm, and its comparison has it for a side.
  | select r c rc onTrue onFalse lhs rhs p hupdate hcompare harms hsides _ _ hexpr =>
    rcases (by simpa [hexpr] using hv : v = update ∨ v = c) with rfl | rfl
    · refine ⟨_, hupdate, rfl, ?_⟩
      rcases harms with ⟨-, hf⟩ | ⟨-, ht⟩
      · simp [Instruction.uses, Instruction.operands, ← hf, ha, hself]
      · simp [Instruction.uses, Instruction.operands, ← ht, ha, hself]
    · refine ⟨_, hcompare, rfl, ?_⟩
      rw [ha] at hsides
      rcases hsides with ⟨-, hr⟩ | ⟨-, hl⟩
      · simp [Instruction.uses, Instruction.operands, Operand.eq_value_of_beq hr, hself]
      · simp [Instruction.uses, Instruction.operands, Operand.eq_value_of_beq hl, hself]
  | call r callee x y isPure hupdate _ haddend _ hexpr =>
    obtain rfl : v = update := by simpa [hexpr] using hv
    refine ⟨_, hupdate, rfl, ?_⟩
    rcases haddend with ⟨hx, -⟩ | ⟨hy, -⟩
    · simp [Instruction.uses, Instruction.operands, ← hx, ha, hself]
    · simp [Instruction.uses, Instruction.operands, ← hy, ha, hself]

/-! ## §2 Addends -/

/-- **An addend is computed from the running value only if it is the running value.** Whatever else
`flowsFrom` the running value belongs to the update, which is itself computed from the addend. -/
theorem flowsFrom_addend_iff (hform : lp.SingleAssignment) (hfolds : lp.Folds phi update m)
    (huses : ∀ i ∈ lp.instructions, i.uses phi = true → ∃ w ∈ m.expression, i.result = some w) :
    lp.flowsFrom m.addend phi = true ↔ m.addend = .value phi := by
  constructor
  · intro hflows
    obtain ⟨a, ha, hpath⟩ := feeds_of_flowsFrom hflows
    rcases hpath.cases_head with rfl | ⟨v, ⟨hdefined, i, hdef, -, huse⟩, hrest⟩
    · exact ha
    · exfalso
      -- The first step leads into the update, and the addend leads back to it.
      obtain ⟨j, hj, hjv⟩ := hform.defined v hdefined
      obtain rfl : i = j := Option.some.inj (hdef.symm.trans (hform.definition j hj v hjv))
      obtain ⟨u, hu, hiu⟩ := huses i hj huse
      obtain rfl : u = v := Option.some.inj (hiu.symm.trans hjv)
      have hback : lp.Feeds a u := hfolds.feeds_addend ha hu
      have hforth : Relation.ReflTransGen lp.Feeds u a :=
        hrest.lift id fun _ _ h => h.2
      exact hform.acyclic u (Relation.TransGen.tail' hforth hback)
  · intro heq
    simp [flowsFrom, heq, Operand.isValue_iff]

section Sealed

variable (hform : lp.SingleAssignment) (hfolds : lp.Folds phi update m)
  (huses : ∀ i ∈ lp.instructions, i.uses phi = true → ∃ w ∈ m.expression, i.result = some w)
  (hupdate : ∀ i ∈ lp.instructions, i.uses update = true → isPhiOf phi i = true)
  (hconfined : lp.OutcomeConfined phi update m.expression)

include hform hfolds huses hupdate hconfined

/-- The values that a running value `Reaches` are used for nothing else. -/
theorem sealed_reaches
    (hcalls : ∀ i ∈ lp.instructions, ¬(i.isCall = true ∧ i.hasSideEffects = true)) :
    lp.Sealed (lp.Reaches phi) := by
  intro i hi v hv huse
  have hobs := hv.observes hi huse
  rcases (updates_of_observes hfolds huses hupdate hconfined hobs).1 with ⟨r, hr, hresult⟩ | hphi
  · refine ⟨?_, r, hresult, .inr ⟨i, hobs, ?_, hresult⟩⟩
    · -- A store has no result, and no call is impure.
      rw [Bool.eq_false_iff]
      intro heffect
      cases i with
      | call => exact hcalls _ hi ⟨rfl, heffect⟩
      | store => cases hresult
      | _ => cases heffect
    · exact hfolds.plain_of_mem hr (hform.definition i hi r hresult)
  · -- The header phi that receives the update.
    cases i with
    | phi r incoming => exact ⟨rfl, r, rfl, .inl (by simpa [isPhiOf] using hphi)⟩
    | _ => cases hphi

/-- An addend other than the running value is not among those that it `Reaches`. -/
theorem addend_not_reached (haddend : m.addend ≠ .value phi) (hv : lp.Reaches phi v) :
    m.addend.isValue v = false := by
  rw [Bool.eq_false_iff]
  intro hvalue
  have ha := Operand.isValue_iff.mp hvalue
  rcases hv with rfl | ⟨j, hobs, hplain, hresult⟩
  · exact haddend ha
  · have hj := (updates_of_observes hfolds huses hupdate hconfined hobs).1
    exact hform.acyclic v (.single (hfolds.feeds_addend ha (hj.mem_expression hplain hresult)))

/-- **Addends do not depend on the running value**: runs that start in states which differ in what
the running value `Reaches` have the same addends in all iterations. -/
theorem run_addends_eq (haddend : m.addend ≠ .value phi)
    (hcalls : ∀ i ∈ lp.instructions, ¬(i.isCall = true ∧ i.hasSideEffects = true))
    {w : World} {n : Nat} {s s' t : State} {ends : List State}
    (hagree : s.AgreeBut (lp.Reaches phi) s') (hrun : lp.run w n s = some (t, ends)) :
    ∃ t' ends', lp.run w n s' = some (t', ends') ∧ t.AgreeBut (lp.Reaches phi) t' ∧
      ends'.map (·.values.eval m.addend) = ends.map (·.values.eval m.addend) := by
  have hsealed := sealed_reaches hform hfolds huses hupdate hconfined hcalls
  obtain ⟨t', ends', hrun', hfinal, hends⟩ := run_agreeBut hsealed hagree hrun
  refine ⟨t', ends', hrun', hfinal, ?_⟩
  have hsame : List.Forall₂ Eq (ends.map (·.values.eval m.addend))
      (ends'.map (·.values.eval m.addend)) := by
    rw [List.forall₂_map_left_iff, List.forall₂_map_right_iff]
    refine hends.imp fun e e' he => he.eval_eq fun v hv => ?_
    exact addend_not_reached hform hfolds huses hupdate hconfined haddend hv
  rw [List.forall₂_eq_eq_eq] at hsame
  exact hsame.symm

end Sealed

end LoopBody

namespace Loop

/-! ## §3 The profile -/

/-- **What an eliminable scalar is.** Let a loop in `SingleAssignment` form be said to be free of
dependences but for one that can be eliminated, and let a header phi be carried. Then the phi has an
accumulator that is this dependence: its update comes in along the first edge from inside the loop,
and its addend is computed from the phi only if it is the phi. If the phi `ReceivesOnly` the update
from inside the loop, and the update is computed on every way round, the phi is in every run what it
received on entry with the addends of all complete iterations folded in by `foldStep`, in order. If
the addend is not the phi and `OutcomeConfined` holds of the update, these addends are the same
whatever the phi holds, and so is everything else that the phi does not reach. -/
theorem fold_of_eliminable (lp : Loop) (s : CarriedScalar) (hform : lp.SingleAssignment)
    (hs : s ∈ lp.carriedScalars) (helim : lp.dependenceProfile.eliminable = true) :
    ∃ acc m, s.accumulator = some acc ∧ acc.soleUse = true ∧
      lp.dependenceProfile.accumulator? = some acc.dependence ∧
      lp.matchAccumulation s.phi acc.update = some m ∧
      (∀ incoming, .phi s.phi incoming ∈ lp.instructions →
        lp.backEdge incoming = some (.value acc.update)) ∧
      (lp.flowsFrom acc.addend s.phi = true ↔ acc.addend = .value s.phi) ∧
      (lp.ReceivesOnly s.phi acc.update → (∀ v ∈ m.expression, lp.ComputedEachRound v) →
        ∀ (w : World) (n : Nat) (start final : State) (ends : List State) (x : Operand),
          lp.Enters start → start.values.FractionsCompare →
          lp.receivedFrom? s.phi start.source = some x →
          lp.run w (n + 1) start = some (final, ends) →
          final.values.value s.phi =
            (ends.map (·.values.eval acc.addend)).foldl (lp.foldStep acc) (start.values.eval x)) ∧
      (acc.addend ≠ .value s.phi → lp.OutcomeConfined s.phi acc.update m.expression →
        ∀ (w : World) (n : Nat) (start start' final : State) (ends : List State),
          start.AgreeBut (lp.Reaches s.phi) start' → lp.run w n start = some (final, ends) →
          ∃ final' ends', lp.run w n start' = some (final', ends') ∧
            final.AgreeBut (lp.Reaches s.phi) final' ∧
            ends'.map (·.values.eval acc.addend) = ends.map (·.values.eval acc.addend)) := by
  obtain ⟨acc, hacc, hsole, hcarried⟩ := scalar_accumulates_of_eliminable hs helim
  obtain ⟨header, incoming, hheader, hphi, hback, hregister⟩ :=
    LoopBody.backEdge_of_mem_carriedScalars hs hacc
  obtain ⟨m, hm, -, -, hop, haddend, hiff⟩ := LoopBody.registerAccumulator?_eq_some hregister
  obtain ⟨huses, hupdate⟩ := hiff.mp hsole
  have huses := LoopBody.usesConfined_iff.mp huses
  have hfolds := LoopBody.folds_of_matchAccumulation hm
  refine ⟨acc, m, hacc, hsole, ?_, hm, ?_, ?_, ?_, ?_⟩
  · rw [DependenceProfile.accumulator?, if_pos helim, hcarried, scalar_dependence_eq hs hacc]
    rfl
  · intro sent hsent
    have hmem := LoopBody.mem_instructions_of_mem (List.mem_of_find?_eq_some hheader) hphi
    cases hform.eq_of_result hsent hmem rfl rfl
    exact hback
  · rw [haddend]
    exact LoopBody.flowsFrom_addend_iff hform hfolds huses
  · -- The running value is a fold.
    intro honly hround w n start final ends x henters hfractions hx hrun
    exact LoopBody.run_value_phi hform hheader hphi honly hfolds hop haddend hround henters
      hfractions hx hrun
  · -- What is folded in does not depend on it.
    intro hother hconfined w n start start' final ends hagree hrun
    rw [haddend] at hother ⊢
    exact LoopBody.run_addends_eq hform hfolds huses hupdate hconfined hother
      (LoopBody.impureCallees_eq_nil_iff.mp (LoopBody.impureCallees_of_eliminable helim)) hagree
      hrun

/-! ## §4 A maximum -/

/-- A world in which arrays are laid out from their address on, and only minima and maxima can be
called. -/
def plainWorld : World where
  element base indices := base + indices.sum
  call callee args _ :=
    match callee.bind calleeReduction?, args with
    | some red, [x, y] => red.apply x y
    | _, _ => 0
  effect _ _ memory := memory
  call_reduction x y memory h := by simp [h]

/-- `do { best = max(best, A[i]); i++ } while (i < n)`. -/
def findsMaximum : Loop :=
  keepsMaximum [.compare ⟨7⟩ .lt (.value ⟨6⟩) (.symbol "n"), .branch (.value ⟨7⟩) ⟨1⟩ ⟨2⟩]

/-- Control comes to a loop from outside with `n = 3`, `A = [3, 0, 4]` and all values zero. -/
def beforeLoop : State where
  values := ⟨fun _ => 0, fun name => if name = "n" then 3 else 0, fun _ => 0⟩
  memory address := [3, 0, 4].getD address.toNat 0
  block := ⟨1⟩
  source := ⟨0⟩

/-- The state `beforeLoop` when control goes round in a loop of one block instead, with one value
other than zero. -/
def duringLoop (v : ValueId) (x : Int) : State :=
  { beforeLoop with
    values := { beforeLoop.values with value := fun u => if u = v then x else 0 }
    source := ⟨1⟩ }

/-- States that differ in the maximum so far, which the phi `Reaches`. -/
theorem duringLoop_agreeBut (x y : Int) :
    (duringLoop ⟨5⟩ x).AgreeBut (findsMaximum.Reaches ⟨1⟩) (duringLoop ⟨5⟩ y) := by
  refine ⟨fun v hv => ?_, rfl, rfl, rfl, rfl, rfl⟩
  have hreached : findsMaximum.Reaches ⟨1⟩ ⟨5⟩ :=
    .inr ⟨.select ⟨5⟩ (.value ⟨4⟩) (.value ⟨3⟩) (.value ⟨1⟩),
      .direct (List.mem_of_getElem? (i := 5) rfl) rfl, rfl, rfl⟩
  have hne : v ≠ ⟨5⟩ := fun heq => hv (heq ▸ hreached)
  simp [duringLoop, hne]

/-- The theorem at `findsMaximum` over three elements: after two complete iterations the maximum is
that of the first two, and whatever the maximum so far, the elements are the same. -/
theorem findsMaximum_folds :
    findsMaximum.dependenceProfile.eliminable = true ∧
    (∃ final ends, findsMaximum.run plainWorld 3 beforeLoop = some (final, ends) ∧
      ends.map (·.values.eval (.value ⟨3⟩)) = [3, 0] ∧
      final.values.value ⟨1⟩ = [3, 0].foldl (findsMaximum.foldStep keptMaximum) 0) ∧
    ∃ ends ends', (findsMaximum.run plainWorld 3 (duringLoop ⟨5⟩ 0)).map (·.2) = some ends ∧
      (findsMaximum.run plainWorld 3 (duringLoop ⟨5⟩ 7)).map (·.2) = some ends' ∧
      ends'.map (·.values.eval (.value ⟨3⟩)) = ends.map (·.values.eval (.value ⟨3⟩)) := by
  have helim : findsMaximum.dependenceProfile.eliminable = true := by decide
  have hform : findsMaximum.SingleAssignment := straight_singleAssignment (by decide) (by decide)
  have hs : maximumScalar ∈ findsMaximum.carriedScalars := List.mem_singleton.mpr rfl
  obtain ⟨acc, m, hacc, -, -, hm, -, -, hfold, hsame⟩ :=
    fold_of_eliminable findsMaximum maximumScalar hform hs helim
  obtain rfl : keptMaximum = acc := Option.some.inj hacc
  obtain rfl := Option.some.inj hm
  obtain ⟨⟨final, ends⟩, hrun⟩ : ∃ r, findsMaximum.run plainWorld 3 beforeLoop = some r :=
    Option.isSome_iff_exists.mp (by decide)
  have haddends : ends.map (·.values.eval (.value ⟨3⟩)) = [3, 0] := by
    have hall : (findsMaximum.run plainWorld 3 beforeLoop).map
        (fun r => r.2.map (·.values.eval (.value ⟨3⟩))) = some [3, 0] := by decide
    rw [hrun] at hall
    exact Option.some.inj hall
  have honly : findsMaximum.ReceivesOnly ⟨1⟩ ⟨5⟩ := by
    intro incoming hphi e he hinside
    have hmem : .phi ⟨1⟩ [(.int 0, ⟨0⟩), (.value ⟨5⟩, ⟨1⟩)] ∈ findsMaximum.instructions :=
      List.mem_of_getElem? (i := 1) rfl
    cases hform.eq_of_result hphi hmem rfl rfl
    rcases List.mem_pair.mp he with rfl | rfl
    · cases hinside
    · rfl
  have hround : ∀ v ∈ [(⟨5⟩ : ValueId), ⟨4⟩], findsMaximum.ComputedEachRound v := by
    intro v hv
    rcases List.mem_pair.mp hv with rfl | rfl
    · exact straight_computedEachRound rfl (by decide)
    · exact straight_computedEachRound rfl (by decide)
  have hfinal := hfold honly hround plainWorld 2 beforeLoop final ends (.int 0) ⟨rfl, rfl⟩
    (fun _ _ _ => rfl) rfl hrun
  have hconfined : findsMaximum.OutcomeConfined ⟨1⟩ ⟨5⟩ [⟨5⟩, ⟨4⟩] := by
    have hselect : ∀ i ∈ findsMaximum.instructions, i.uses ⟨4⟩ = true → i.result = some ⟨5⟩ := by
      decide
    intro r c onTrue onFalse hdef j _ _ _ _ i hi huse
    cases hdef
    exact .inl ⟨⟨5⟩, List.mem_cons_self, hselect i hi huse⟩
  obtain ⟨⟨last, rounds⟩, hlast⟩ :
      ∃ r, findsMaximum.run plainWorld 3 (duringLoop ⟨5⟩ 0) = some r :=
    Option.isSome_iff_exists.mp (by decide)
  obtain ⟨last', rounds', hlast', -, heq⟩ := hsame (by rintro ⟨⟩) hconfined plainWorld 3
    (duringLoop ⟨5⟩ 0) (duringLoop ⟨5⟩ 7) last rounds (duringLoop_agreeBut 0 7) hlast
  refine ⟨helim, ⟨final, ends, hrun, haddends, ?_⟩, rounds, rounds', ?_, ?_, heq⟩
  · rw [← haddends]
    exact hfinal
  · rw [hlast]
    rfl
  · rw [hlast']
    rfl

/-! ## §5 Two loops that do not fold -/

/-- `do { x = x + x; i++ } while (i < n)`. -/
def doubles : Loop :=
  straight ⟨0⟩ [
    .phi ⟨0⟩ [(.int 0, ⟨0⟩), (.value ⟨3⟩, ⟨1⟩)],
    .phi ⟨1⟩ [(.int 1, ⟨0⟩), (.value ⟨2⟩, ⟨1⟩)],
    .binary ⟨2⟩ .add (.value ⟨1⟩) (.value ⟨1⟩),
    .binary ⟨3⟩ .add (.value ⟨0⟩) (.int 1),
    .compare ⟨4⟩ .lt (.value ⟨3⟩) (.symbol "n"),
    .branch (.value ⟨4⟩) ⟨1⟩ ⟨2⟩]

/-- The scalar of `doubles`, which is taken for a sum of itself. -/
def doubled : CarriedScalar :=
  { phi := ⟨1⟩, name := "%1", update := some (.value ⟨2⟩)
    accumulator := some
      { variableName := "%1", operator := .sum, addend := .value ⟨1⟩, update := ⟨2⟩
        soleUse := true, storage := .register } }

/-- `x = 0; for i: if (A[i] > 0) x += A[i] else x = 0`, with an edge back for either case. -/
def restarts : Loop :=
  ofBlocks ⟨0⟩ [
    ⟨⟨1⟩, [
      .phi ⟨0⟩ [(.int 0, ⟨0⟩), (.value ⟨6⟩, ⟨2⟩), (.value ⟨6⟩, ⟨3⟩)],
      .phi ⟨1⟩ [(.int 0, ⟨0⟩), (.value ⟨4⟩, ⟨2⟩), (.int 0, ⟨3⟩)],
      .elementPtr ⟨2⟩ (.symbol "A") [.value ⟨0⟩],
      .load ⟨3⟩ (.value ⟨2⟩),
      .binary ⟨4⟩ .add (.value ⟨1⟩) (.value ⟨3⟩),
      .compare ⟨5⟩ .gt (.value ⟨3⟩) (.int 0),
      .binary ⟨6⟩ .add (.value ⟨0⟩) (.int 1),
      .branch (.value ⟨5⟩) ⟨2⟩ ⟨3⟩], none⟩,
    ⟨⟨2⟩, [.jump ⟨1⟩], none⟩,
    ⟨⟨3⟩, [.jump ⟨1⟩], none⟩]

/-- The scalar of `restarts`, which is taken for a sum of all elements. -/
def restarted : CarriedScalar :=
  { phi := ⟨1⟩, name := "%1", update := some (.value ⟨4⟩)
    accumulator := some
      { variableName := "%1", operator := .sum, addend := .value ⟨3⟩, update := ⟨4⟩
        soleUse := true, storage := .register } }

/-- **A reported accumulator need not be a fold**: `doubles` and `restarts` are both said to be free
of dependences but for a sum. The addend of `doubles` is the running value, so the addends of a run
depend on it. In `restarts` another edge back brings zero, and after `3` and `0` have been added the
sum is zero. -/
theorem eliminable_without_fold :
    (doubled ∈ doubles.carriedScalars ∧ doubles.dependenceProfile.eliminable = true ∧
      doubles.flowsFrom (.value ⟨1⟩) ⟨1⟩ = true ∧
      (doubles.run plainWorld 3 (duringLoop ⟨2⟩ 1)).map (·.2.map (·.values.eval (.value ⟨1⟩))) ≠
        (doubles.run plainWorld 3 (duringLoop ⟨2⟩ 2)).map (·.2.map (·.values.eval (.value ⟨1⟩)))) ∧
    (restarted ∈ restarts.carriedScalars ∧ restarts.dependenceProfile.eliminable = true ∧
      ¬ restarts.ReceivesOnly ⟨1⟩ ⟨4⟩ ∧
      (restarts.run plainWorld 5 beforeLoop).map (·.2.map (·.values.eval (.value ⟨3⟩))) =
        some [3, 0] ∧
      (restarts.run plainWorld 5 beforeLoop).map (·.1.values.value ⟨1⟩) = some 0) := by
  refine ⟨⟨List.mem_singleton.mpr rfl, by decide, ?_, by decide⟩,
    List.mem_singleton.mpr rfl, by decide, fun honly => ?_, by decide, by decide⟩
  · simp [LoopBody.flowsFrom, Operand.isValue_iff]
  · -- The edge from the third block brings a constant.
    have hphi :
        .phi ⟨1⟩ [(.int 0, ⟨0⟩), (.value ⟨4⟩, ⟨2⟩), (.int 0, ⟨3⟩)] ∈ restarts.instructions :=
      List.mem_of_getElem? (i := 1) rfl
    cases honly _ hphi (.int 0, ⟨3⟩) (by simp) rfl

end Loop

end LoopAnalysis
