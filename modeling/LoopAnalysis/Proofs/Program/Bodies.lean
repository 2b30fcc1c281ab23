import LoopAnalysis.Proofs.Program.Building

/-!
# Nested loop bodies

A loop receives its blocks when it is closed: its own, and every block created since it was opened.
Where a script always closes the innermost open loop, what was created meanwhile belongs to loops
that are closed already, so that the blocks of loops nest as the loops do. A value that no block
of a loop defines is then defined in no loop inside it, either.

## Main definitions

- `BuildStep.ClosesInnermost`: a script closes only the innermost of the loops still open;
- `BuildState.Laid`: the loops of a state occupy spans of blocks that nest.

## Main statements

- `BuildState.Laid.quiet`, `BuildState.Laid.opens`, `BuildState.Laid.closes`: what one call does;
- `BuildStep.laid_of_runAll`: the loops of every such script are laid out so;
- `BuildStep.built_bodies_nest`: the blocks of the loops of every function that such a script
  builds, and the operands that are invariant in them.
-/

namespace LoopAnalysis

/-! ## §1 Closing the innermost loop -/

namespace BuildStep

/-- Follows the loops that a script opens and closes: how many it has opened, and which of them are
open, innermost first. A `close` of any other loop than the innermost has no outcome. -/
def track : Nat × List Nat → BuildStep → Option (Nat × List Nat)
  | (count, inner), openLoop .. => some (count + 1, count :: inner)
  | (count, p :: outer), close k => if k = p then some (count, outer) else none
  | (_, []), close _ => none
  | following, _ => some following

/-- Each `close` of the script closes the innermost loop that is still open. -/
def ClosesInnermost (steps : List BuildStep) : Prop := (steps.foldlM track (0, [])).isSome

theorem track_of_keepsLoops {step : BuildStep} (h : step.keepsLoops = true)
    (following : Nat × List Nat) : track following step = some following := by
  cases step <;> simp_all [keepsLoops, track]

theorem track_close {k count : Nat} {inner : List Nat} {next : Nat × List Nat}
    (h : track (count, inner) (close k) = some next) :
    ∃ outer, inner = k :: outer ∧ next = (count, outer) := by
  -- With no loop open there is nothing to close; otherwise it must be the first.
  cases inner with
  | nil => simp [track] at h
  | cons p outer =>
    simp only [track, Option.ite_none_right_eq_some, Option.some.injEq] at h
    obtain ⟨rfl, rfl⟩ := h
    exact ⟨outer, rfl, rfl⟩

end BuildStep

/-- After `Closes` for the innermost open loop, those around it are open. -/
theorem BuildState.Sound.openLoops_closes {s t : BuildState} {lp : CountedLoop} {k : Nat}
    {outer : List Nat} (S : Sound s) (hlp : s.opened[k]? = some lp)
    (hopen : s.builder.openLoops = k :: outer) (h : Closes s t lp) :
    t.builder.openLoops = outer := by
  rw [h.openLoops, (S.index_eq hlp).1, hopen]
  simp [Builder.stillOpen]

/-! ## §2 The blocks of one loop -/

namespace CountedLoop

variable {lp : CountedLoop} {first : Nat}

/-- A loop owns its first three blocks and those from its fifth on; the fourth is its exit. -/
theorem mem_blocksUntil_iff (h : lp.StartsAt first) {stop : Nat} {b : BlockId} :
    b ∈ lp.blocksUntil stop ↔
      (first ≤ b.index ∧ b.index < first + 3) ∨ (first + 4 ≤ b.index ∧ b.index < stop) := by
  obtain ⟨b⟩ := b
  simp only [blocksUntil, h.header, h.body, h.latch, h.exit, List.mem_append, List.mem_cons,
    List.mem_map, List.mem_range'_1, List.not_mem_nil, or_false, BlockId.mk.injEq]
  constructor
  · rintro ((h | ⟨a, ha, rfl⟩) | h) <;> omega
  · intro hb
    -- Blocks from the fifth on were created since the loop was opened.
    by_cases hinner : first + 4 ≤ b
    · exact .inl (.inr ⟨b, by omega, rfl⟩)
    · omega

theorem nodup_blocksUntil (h : lp.StartsAt first) (stop : Nat) : (lp.blocksUntil stop).Nodup := by
  apply List.Nodup.of_map BlockId.index
  simp only [blocksUntil, h.header, h.body, h.latch, h.exit, List.map_append, List.map_map,
    List.map_cons, List.map_nil, Function.comp_def, List.map_id']
  -- Header and body come before the inner blocks, and the latch lies between the two.
  refine List.nodup_append.mpr ⟨List.nodup_append.mpr ⟨by simp, List.nodup_range', ?_⟩, by simp, ?_⟩
  · intro a ha b hb
    rw [List.mem_range'_1] at hb
    simp only [List.mem_cons, List.not_mem_nil, or_false] at ha
    omega
  · intro a ha b hb
    simp only [List.mem_append, List.mem_cons, List.not_mem_nil, or_false,
      List.mem_range'_1] at ha hb
    omega

end CountedLoop

/-! ## §3 Spans of blocks -/

/-- Where the blocks of each loop begin, and where those that it was given end. -/
structure Spans where
  first : Nat → Nat
  stop  : Nat → Nat

namespace Spans

variable (span : Spans) {i n k : Nat}

/-- The loop `n` begins at block `first`; so far it has three blocks, and an exit. -/
def opening (n first : Nat) : Spans where
  first := Function.update span.first n first
  stop  := Function.update span.stop n (first + 4)

/-- The loop `k` is given all blocks up to `stop`. -/
def closing (k stop : Nat) : Spans := { span with stop := Function.update span.stop k stop }

@[simp] theorem first_opening_self (x : Nat) : (span.opening n x).first n = x :=
  Function.update_self ..

@[simp] theorem stop_opening_self (x : Nat) : (span.opening n x).stop n = x + 4 :=
  Function.update_self ..

theorem first_opening (x : Nat) (h : i ≠ n) : (span.opening n x).first i = span.first i :=
  Function.update_of_ne h ..

theorem stop_opening (x : Nat) (h : i ≠ n) : (span.opening n x).stop i = span.stop i :=
  Function.update_of_ne h ..

@[simp] theorem first_closing (x : Nat) : (span.closing k x).first i = span.first i := rfl

@[simp] theorem stop_closing_self (x : Nat) : (span.closing k x).stop k = x :=
  Function.update_self ..

theorem stop_closing (x : Nat) (h : i ≠ k) : (span.closing k x).stop i = span.stop i :=
  Function.update_of_ne h ..

end Spans

namespace BuildState

/-- Each loop owns the blocks of its span. Once a loop is closed, so is every loop inside it, within
its span (`child`); and a loop is closed before the next one beside it begins (`beside`). -/
structure Laid (s : BuildState) (span : Spans) : Prop where
  startsAt : ∀ {i : Nat} {lp : CountedLoop}, s.opened[i]? = some lp → lp.StartsAt (span.first i)
  blocks   : ∀ {i : Nat} {lp : CountedLoop}, s.opened[i]? = some lp →
    blocksAt s.builder.loops i = some (lp.blocksUntil (span.stop i))
  bounds   : ∀ {i : Nat}, i < s.builder.loops.length →
    span.first i + 4 ≤ span.stop i ∧ span.stop i ≤ s.builder.nextBlock
  later    : ∀ {i j : Nat}, i < j → j < s.builder.loops.length → span.first i + 4 ≤ span.first j
  child    : ∀ {c p : Nat}, parentAt s.builder.loops c = some p → p ∉ s.builder.openLoops →
    c ∉ s.builder.openLoops ∧ span.stop c ≤ span.stop p
  beside   : ∀ {c d : Nat}, c < d → d < s.builder.loops.length →
    parentAt s.builder.loops c = parentAt s.builder.loops d →
    c ∉ s.builder.openLoops ∧ span.stop c ≤ span.first d

variable {s t : BuildState} {span : Spans} {lp : CountedLoop}

/-- The entries of a list that was extended by `x`: an older one, or `x` itself at the end. -/
private theorem getElem?_concat {α : Type} {xs : List α} {x y : α} {n i : Nat} (hn : xs.length = n)
    (h : (xs ++ [x])[i]? = some y) : (i < n ∧ xs[i]? = some y) ∨ (i = n ∧ y = x) := by
  rw [List.getElem?_append] at h
  split at h
  · next hi => exact .inl ⟨hn ▸ hi, h⟩
  · next hi =>
    simp only [List.getElem?_singleton, Option.ite_none_right_eq_some, Option.some.injEq] at h
    exact .inr ⟨by omega, h.2.symm⟩

namespace Laid

theorem start (name : String) (span : Spans) : Laid ⟨Builder.start name, []⟩ span where
  startsAt := by simp
  blocks := by simp
  bounds := by simp [Builder.start]
  later := by simp [Builder.start]
  child := by simp [Builder.start, parentAt]
  beside := by simp [Builder.start]

theorem quiet (L : Laid s span) (h : Quiet s t) : Laid t span where
  startsAt := by
    rw [h.opened]
    exact L.startsAt
  blocks := by
    rw [h.opened, h.blocks]
    exact L.blocks
  bounds := by
    intro i hi
    rw [h.length] at hi
    have hbounds := L.bounds hi
    exact ⟨hbounds.1, Nat.le_trans hbounds.2 h.nextBlock⟩
  later := by
    rw [h.length]
    exact L.later
  child := by
    rw [h.parent, h.openLoops]
    exact L.child
  beside := by
    rw [h.parent, h.openLoops, h.length]
    exact L.beside

/-- A new loop begins after all blocks so far. -/
theorem opens (L : Laid s span) (S : Sound s) (h : Opens s t lp) :
    Laid t (span.opening s.builder.loops.length s.builder.nextBlock) where
  startsAt := by
    intro i inner hinner
    rw [h.opened] at hinner
    -- The older loops keep their spans; the new one starts at the next block.
    rcases getElem?_concat S.length_opened hinner with ⟨hi, hinner⟩ | ⟨rfl, rfl⟩
    · rw [span.first_opening _ (Nat.ne_of_lt hi)]
      exact L.startsAt hinner
    · rw [span.first_opening_self]
      exact h.startsAt
  blocks := by
    intro i inner hinner
    rw [h.opened] at hinner
    rw [h.blocks]
    rcases getElem?_concat S.length_opened hinner with ⟨hi, hinner⟩ | ⟨rfl, rfl⟩
    · rw [span.stop_opening _ (Nat.ne_of_lt hi), if_neg (Nat.ne_of_lt hi)]
      exact L.blocks hinner
    · -- No block has been created since the exit.
      rw [span.stop_opening_self, if_pos rfl]
      simp [CountedLoop.blocksUntil, h.startsAt.exit]
  bounds := by
    intro i hi
    rw [h.length] at hi
    rw [h.nextBlock]
    -- Every span so far ends by the next block, where the new one begins.
    rcases Nat.lt_succ_iff_lt_or_eq.mp hi with hi | rfl
    · have hbounds := L.bounds hi
      rw [span.first_opening _ (Nat.ne_of_lt hi), span.stop_opening _ (Nat.ne_of_lt hi)]
      omega
    · simp
  later := by
    intro i j hij hj
    rw [h.length] at hj
    have hi : i < s.builder.loops.length := by omega
    rw [span.first_opening _ (Nat.ne_of_lt hi)]
    rcases Nat.lt_succ_iff_lt_or_eq.mp hj with hj | rfl
    · rw [span.first_opening _ (Nat.ne_of_lt hj)]
      exact L.later hij hj
    · rw [span.first_opening_self]
      have hbounds := L.bounds hi
      omega
  child := by
    intro c p hparent hp
    rw [h.openLoops, List.mem_cons, not_or] at hp
    rw [h.openLoops, List.mem_cons, not_or]
    rw [h.parent] at hparent
    -- The loop around the new one is open, so a closed parent has older children only.
    split at hparent
    · exact absurd (List.mem_of_head? hparent) hp.2
    · next hc =>
      have hclosed := L.child hparent hp.2
      rw [span.stop_opening _ hc, span.stop_opening _ hp.1]
      exact ⟨⟨hc, hclosed.1⟩, hclosed.2⟩
  beside := by
    intro c d hcd hd hparent
    rw [h.length] at hd
    have hc : c < s.builder.loops.length := by omega
    rw [h.parent, h.parent, if_neg (Nat.ne_of_lt hc)] at hparent
    rw [h.openLoops, List.mem_cons, not_or, span.stop_opening _ (Nat.ne_of_lt hc)]
    -- Two older loops are as they were; a loop beside the new one must be closed by now.
    rcases Nat.lt_succ_iff_lt_or_eq.mp hd with hd | rfl
    · rw [if_neg (Nat.ne_of_lt hd)] at hparent
      rw [span.first_opening _ (Nat.ne_of_lt hd)]
      have hclosed := L.beside hcd hd hparent
      exact ⟨⟨Nat.ne_of_lt hc, hclosed.1⟩, hclosed.2⟩
    · rw [if_pos rfl] at hparent
      rw [span.first_opening_self]
      refine ⟨⟨Nat.ne_of_lt hc, fun hopen => ?_⟩, (L.bounds hc).2⟩
      -- An open loop beside the new one would lie in the innermost open loop, which is no older.
      obtain ⟨q, hq, hcq⟩ := S.le_head hopen
      have hlt := S.forest.parent_lt (hparent.trans hq)
      omega

/-- A loop that is closed while it is the innermost receives every block since its exit. -/
theorem closes {k : Nat} {outer : List Nat} (L : Laid s span) (S : Sound s)
    (hlp : s.opened[k]? = some lp) (hopen : s.builder.openLoops = k :: outer) (h : Closes s t lp) :
    Laid t (span.closing k s.builder.nextBlock) where
  startsAt := by
    rw [h.opened]
    exact L.startsAt
  blocks := by
    intro i inner hinner
    rw [h.opened] at hinner
    rw [h.blocks, L.blocks hinner, (S.index_eq hlp).1, Option.map_some]
    -- Only the blocks of the closed loop change.
    by_cases hi : k = i
    · subst hi
      cases hlp.symm.trans hinner
      rw [if_pos rfl, span.stop_closing_self]
    · rw [if_neg hi, span.stop_closing _ (Ne.symm hi)]
  bounds := by
    intro i hi
    rw [h.length] at hi
    rw [h.nextBlock, span.first_closing]
    have hbounds := L.bounds hi
    -- Its span now reaches to the next block, and the others stay.
    by_cases hk : i = k
    · subst hk
      rw [span.stop_closing_self]
      omega
    · rw [span.stop_closing _ hk]
      exact hbounds
  later := by
    rw [h.length]
    exact L.later
  child := by
    intro c p hparent hp
    rw [h.parent] at hparent
    rw [S.openLoops_closes hlp hopen h] at hp ⊢
    by_cases hpk : p = k
    · subst hpk
      -- What lies in the closed loop is newer than every loop that is still open.
      have hlt := S.forest.parent_lt hparent
      have hc : c ∉ outer := fun hc => by
        have hcp := S.lt_of_mem_outer hopen hc
        omega
      rw [span.stop_closing_self, span.stop_closing _ (Nat.ne_of_gt hlt)]
      exact ⟨hc, (L.bounds (lt_length_of_parentAt hparent)).2⟩
    · -- A loop that was closed before keeps its children, none of which is the one closed now.
      have hclosed := L.child hparent (by simp [hopen, hpk, hp])
      rw [hopen, List.mem_cons, not_or] at hclosed
      rw [span.stop_closing _ hpk, span.stop_closing _ hclosed.1.1]
      exact ⟨hclosed.1.2, hclosed.2⟩
  beside := by
    intro c d hcd hd hparent
    rw [h.length] at hd
    rw [h.parent] at hparent
    -- Of two loops beside each other the older one was closed already.
    have hclosed := L.beside hcd hd hparent
    rw [hopen, List.mem_cons, not_or] at hclosed
    rw [S.openLoops_closes hlp hopen h, span.stop_closing _ hclosed.1.1]
    exact ⟨hclosed.1.2, hclosed.2⟩

end Laid

/-! ## §4 Scripts that close innermost loops -/

/-- The loop `i` was opened and is not open any more. -/
def Closed (s : BuildState) (i : Nat) : Prop :=
  i < s.builder.loops.length ∧ i ∉ s.builder.openLoops

/-- **One call** of a script that closes only innermost loops keeps the loops `Laid` out and the
closed ones closed. -/
theorem Laid.run (L : Laid s span) (S : Sound s) {step : BuildStep} {r : StepResult}
    {next : Nat × List Nat} (hrun : step.run s = some (r, t))
    (htrack : BuildStep.track (s.builder.loops.length, s.builder.openLoops) step = some next) :
    next = (t.builder.loops.length, t.builder.openLoops) ∧ (∃ span', Laid t span') ∧
      ∀ i, Closed s i ∨ step = .close i → Closed t i := by
  -- What the script says about a call agrees with what the builder does.
  rcases BuildStep.run_cases hrun with
    ⟨hkeeps, h⟩ | ⟨ivName, bound, lp, rfl, h⟩ | ⟨k, lp, rfl, hlp, h⟩
  · rw [BuildStep.track_of_keepsLoops hkeeps, Option.some.injEq] at htrack
    refine ⟨by rw [← htrack, h.length, h.openLoops], ⟨span, L.quiet h⟩, fun i hi => ?_⟩
    rcases hi with hi | rfl
    · rw [Closed, h.length, h.openLoops]
      exact hi
    · cases hkeeps
  · simp only [BuildStep.track, Option.some.injEq] at htrack
    refine ⟨by rw [← htrack, h.length, h.openLoops], ⟨_, L.opens S h⟩, fun i hi => ?_⟩
    rcases hi with ⟨hi, hclosed⟩ | hi
    · rw [Closed, h.length, h.openLoops, List.mem_cons, not_or]
      exact ⟨Nat.lt_succ_of_lt hi, Nat.ne_of_lt hi, hclosed⟩
    · cases hi
  · obtain ⟨outer, hopen, rfl⟩ := BuildStep.track_close htrack
    have houter := S.openLoops_closes hlp hopen h
    refine ⟨by rw [h.length, houter], ⟨_, L.closes S hlp hopen h⟩, fun i hi => ?_⟩
    rw [Closed, h.length, houter]
    rcases hi with ⟨hi, hclosed⟩ | hi
    · rw [hopen, List.mem_cons, not_or] at hclosed
      exact ⟨hi, hclosed.2⟩
    · -- A loop is not among the older ones that are open around it.
      cases hi
      exact ⟨(S.index_eq hlp).2, fun hk => Nat.lt_irrefl k (S.lt_of_mem_outer hopen hk)⟩

end BuildState

namespace BuildStep

open BuildState

/-- **Whole scripts**: the loops of every script that `ClosesInnermost` are `Laid` out, and each
loop that it closes stays closed. -/
theorem laid_of_runAll {steps : List BuildStep} {log : List (StepResult × BlockId)}
    {s u : BuildState} {span : Spans} {following : Nat × List Nat} (S : Sound s) (L : Laid s span)
    (hrun : runAll s steps = some (log, u))
    (htrack : steps.foldlM track (s.builder.loops.length, s.builder.openLoops) = some following) :
    (∃ span', Laid u span') ∧ ∀ i, Closed s i ∨ close i ∈ steps → Closed u i := by
  -- What the script follows is at every point what the builder has open.
  induction steps generalizing s span log with
  | nil =>
    cases hrun
    exact ⟨⟨span, L⟩, fun i hi => hi.resolve_right (by simp)⟩
  | cons step steps ih =>
    obtain ⟨r, t, rest, hstep, hrest⟩ := runAll_cons hrun
    rw [List.foldlM_cons, Option.bind_eq_bind, Option.bind_eq_some_iff] at htrack
    obtain ⟨next, hnext, htrack⟩ := htrack
    obtain ⟨rfl, ⟨span', L'⟩, hclosed⟩ := L.run S hstep hnext
    obtain ⟨hlaid, hrestClosed⟩ := ih (S.run hstep) L' hrest htrack
    refine ⟨hlaid, fun i hi => hrestClosed i ?_⟩
    rcases hi with hi | hi
    · exact .inl (hclosed i (.inl hi))
    · rcases List.mem_cons.mp hi with hi | hi
      · exact .inl (hclosed i (.inr hi.symm))
      · exact .inr hi

end BuildStep

/-! ## §5 What the spans say about blocks -/

namespace BuildState

namespace Laid

variable {s : BuildState} {span : Spans} {lp : CountedLoop} {i c d : Nat} {e ec ed : LoopEntry}

theorem blocks_eq (L : Laid s span) (hlp : s.opened[i]? = some lp)
    (he : s.builder.loops[i]? = some e) : e.blocks = lp.blocksUntil (span.stop i) := by
  have hblocks := L.blocks hlp
  simpa only [blocksAt, he, Option.map_some, Option.some.injEq] using hblocks

theorem mem_blocks_iff (L : Laid s span) (S : Sound s) (he : s.builder.loops[i]? = some e)
    {b : BlockId} :
    b ∈ e.blocks ↔ (span.first i ≤ b.index ∧ b.index < span.first i + 3) ∨
      (span.first i + 4 ≤ b.index ∧ b.index < span.stop i) := by
  have hi : i < s.opened.length := by
    rw [S.length_opened]
    exact (List.getElem?_eq_some_iff.mp he).1
  have hlp := List.getElem?_eq_getElem hi
  rw [L.blocks_eq hlp he]
  exact CountedLoop.mem_blocksUntil_iff (L.startsAt hlp)

/-- The span of a loop `Within` a closed one begins after its exit and ends within it. -/
theorem span_of_within (L : Laid s span) (S : Sound s) (hi : Closed s i)
    (h : Within s.builder.loops i c) :
    Closed s c ∧
      (c = i ∨ (span.first i + 4 ≤ span.first c ∧ span.stop c ≤ span.stop i)) := by
  -- Induct on the levels between the two loops: each is closed if the one around it is.
  induction h with
  | refl => exact ⟨hi, .inl rfl⟩
  | @step c q hparent _ ih =>
    obtain ⟨hq, hspan⟩ := ih
    have hc := lt_length_of_parentAt hparent
    have hchild := L.child hparent hq.2
    have hlater := L.later (S.forest.parent_lt hparent) hc
    refine ⟨⟨hc, hchild.1⟩, .inr ?_⟩
    rcases hspan with rfl | hspan <;> omega

theorem blocks_subset (L : Laid s span) (S : Sound s) (hi : Closed s i)
    (h : Within s.builder.loops i c) (he : s.builder.loops[i]? = some e)
    (hec : s.builder.loops[c]? = some ec) : ec.blocks ⊆ e.blocks := by
  obtain ⟨hc, rfl | hspan⟩ := L.span_of_within S hi h
  · cases he.symm.trans hec
    exact List.Subset.refl _
  · -- The whole span of the inner loop lies behind the exit of the outer one.
    intro b hb
    rw [L.mem_blocks_iff S hec] at hb
    rw [L.mem_blocks_iff S he]
    have hbounds := L.bounds hc.1
    omega

/-- Loops beside each other share no block. -/
theorem disjoint_blocks (L : Laid s span) (S : Sound s) (hne : c ≠ d)
    (hparent : parentAt s.builder.loops c = parentAt s.builder.loops d)
    (hec : s.builder.loops[c]? = some ec) (hed : s.builder.loops[d]? = some ed) :
    ec.blocks.Disjoint ed.blocks := by
  have hc := (List.getElem?_eq_some_iff.mp hec).1
  have hd := (List.getElem?_eq_some_iff.mp hed).1
  have hcBounds := L.bounds hc
  have hdBounds := L.bounds hd
  intro b hbc hbd
  rw [L.mem_blocks_iff S hec] at hbc
  rw [L.mem_blocks_iff S hed] at hbd
  -- Whichever of them is older was closed before the other began.
  rcases Nat.lt_or_gt_of_ne hne with hlt | hlt
  · have hstop := (L.beside hlt hd hparent).2
    omega
  · have hstop := (L.beside hlt hc hparent.symm).2
    omega

end Laid

end BuildState

/-! ## §6 Invariant operands -/

namespace Function

variable {f : Function} {view : LoopView} {e ec : LoopEntry}

theorem defines_of_subset (hsub : ec.blocks ⊆ e.blocks) {v : ValueId}
    (h : (f.body view ec).defines v = true) : (f.body view e).defines v = true := by
  -- Scanning looks for a definition among the blocks; the tables know the block of the definition.
  have hblocks : f.blocksOf ec ⊆ f.blocksOf e := List.filterMap_subset _ hsub
  have hscan : ∀ {p : Block → Bool}, (f.blocksOf ec).any p = true →
      (f.blocksOf e).any p = true := by
    intro p hany
    rw [List.any_eq_true] at hany ⊢
    obtain ⟨b, hb, hp⟩ := hany
    exact ⟨b, hblocks hb, hp⟩
  cases view with
  | indexed =>
    simp only [body, Option.any_eq_true, List.contains_iff_mem] at h ⊢
    obtain ⟨at', hat, hmem⟩ := h
    exact ⟨at', hat, hsub hmem⟩
  | scanned => exact hscan h
  | detached => exact hscan h

theorem isInvariant_of_subset (hsub : ec.blocks ⊆ e.blocks) {op : Operand}
    (h : (f.body view e).isInvariant op = true) : (f.body view ec).isInvariant op = true := by
  -- Constants are invariant everywhere; a value is as long as no block defines it.
  cases op with
  | value v =>
    simp only [LoopBody.isInvariant, Bool.not_eq_true'] at h ⊢
    rw [← Bool.not_eq_true] at h ⊢
    exact fun hdefines => h (defines_of_subset hsub hdefines)
  | _ => rfl

end Function

namespace BuildStep

open BuildState

/-- **The bodies of the loops of a function** that a script builds by always closing the innermost
open loop (`ClosesInnermost`). A closed loop owns its header, body and latch, not its exit, and no
block twice; a loop directly inside it stays within its blocks with all its own and its exit, and
clear of its header, body and latch; loops beside each other share no block. So what is invariant in
a loop is invariant in every loop inside it. -/
theorem built_bodies_nest {name : String} {steps : List BuildStep}
    {log : List (StepResult × BlockId)} {s : BuildState}
    (hrun : runAll ⟨Builder.start name, []⟩ steps = some (log, s))
    (hinnermost : ClosesInnermost steps) :
    let f := s.builder.build
    (∀ i, close i ∈ steps → ∃ lp e, s.opened[i]? = some lp ∧ f.loops[i]? = some e ∧
      e.blocks.Nodup ∧
      (lp.header ∈ e.blocks ∧ lp.body ∈ e.blocks ∧ lp.latch ∈ e.blocks ∧ lp.exit ∉ e.blocks) ∧
      (∀ c, parentAt f.loops c = some i →
        ∃ inner ec, s.opened[c]? = some inner ∧ f.loops[c]? = some ec ∧
          ec.blocks ⊆ e.blocks ∧ inner.exit ∈ e.blocks ∧
          lp.header ∉ ec.blocks ∧ lp.body ∉ ec.blocks ∧ lp.latch ∉ ec.blocks) ∧
      ∀ view, ∃ outer, f.loop? view i = some outer ∧
        ∀ c, Within f.loops i c → ∃ inner, f.loop? view c = some inner ∧
          ∀ op, outer.isInvariant op = true → inner.isInvariant op = true) ∧
    ∀ c d ec ed, c ≠ d → parentAt f.loops c = parentAt f.loops d →
      f.loops[c]? = some ec → f.loops[d]? = some ed → ec.blocks.Disjoint ed.blocks := by
  intro f
  obtain ⟨following, htrack⟩ := Option.isSome_iff_exists.mp hinnermost
  have S : Sound s := sound_of_runAll (.start name) hrun
  obtain ⟨⟨span, L⟩, hclosed⟩ :=
    laid_of_runAll (.start name) (.start name ⟨id, id⟩) hrun htrack
  have hentry : ∀ {c}, c < f.loops.length → ∃ lp e, s.opened[c]? = some lp ∧ f.loops[c]? = some e :=
    fun hc => ⟨_, _, List.getElem?_eq_getElem (S.length_opened ▸ hc), List.getElem?_eq_getElem hc⟩
  refine ⟨fun i hi => ?_, fun c d ec ed hne hparent => L.disjoint_blocks S hne hparent⟩
  have hi : Closed s i := hclosed i (.inr hi)
  obtain ⟨lp, e, hlp, he⟩ := hentry hi.1
  have hmem : ∀ {b : BlockId}, b ∈ e.blocks ↔ _ := L.mem_blocks_iff S he
  have hstarts := L.startsAt hlp
  refine ⟨lp, e, hlp, he, ?_, ?_, ?_, ?_⟩
  · -- No block twice.
    rw [L.blocks_eq hlp he]
    exact CountedLoop.nodup_blocksUntil hstarts _
  · -- The three blocks of the loop itself, and not its exit.
    simp only [hmem, hstarts.header, hstarts.body, hstarts.latch, hstarts.exit]
    omega
  · intro c hparent
    have hc := lt_length_of_parentAt hparent
    obtain ⟨inner, ec, hinner, hec⟩ := hentry hc
    -- A child begins behind the exit and ends within the span.
    have hlater := L.later (S.forest.parent_lt hparent) hc
    have hchild := L.child hparent hi.2
    have hbounds := L.bounds hc
    refine ⟨inner, ec, hinner, hec, L.blocks_subset S hi (.step hparent .refl) he hec, ?_, ?_⟩
    · simp only [hmem, (L.startsAt hinner).exit]
      omega
    · simp only [L.mem_blocks_iff S hec, hstarts.header, hstarts.body, hstarts.latch]
      omega
  · intro view
    -- Whatever the view, fewer blocks define fewer values.
    obtain ⟨outer, houter, houterBody, -⟩ := loop?_of_getElem? view he
    refine ⟨outer, houter, fun c hin => ?_⟩
    obtain ⟨-, ec, -, hec⟩ := hentry (hin.lt_length hi.1)
    obtain ⟨inner, hinner, hinnerBody, -⟩ := loop?_of_getElem? view hec
    refine ⟨inner, hinner, fun op hop => ?_⟩
    rw [houterBody] at hop
    rw [hinnerBody]
    exact Function.isInvariant_of_subset (L.blocks_subset S hi hin he hec) hop

/-- Two loops beside each other in a third, with a block of its own between them. -/
def tidy : List BuildStep :=
  [.openLoop "i" (.int 8), .openLoop "j" (.int 8), .close 1, .block, .openLoop "k" (.int 8),
    .close 2, .close 0]

theorem built_bodies_nest_tidy :
    ∃ log s, runAll ⟨Builder.start "f", []⟩ tidy = some (log, s) ∧ ClosesInnermost tidy ∧
      s.builder.build.loops.map (·.blocks.map (·.index)) =
        [[1, 2, 5, 6, 7, 8, 9, 10, 11, 12, 13, 3], [5, 6, 7], [10, 11, 12]] ∧
      ∃ e, s.builder.build.loops[0]? = some e ∧ e.blocks.Nodup := by
  obtain ⟨log, s, hrun, hblocks⟩ : ∃ log s, runAll ⟨Builder.start "f", []⟩ tidy = some (log, s) ∧
      s.builder.build.loops.map (·.blocks.map (·.index)) =
        [[1, 2, 5, 6, 7, 8, 9, 10, 11, 12, 13, 3], [5, 6, 7], [10, 11, 12]] :=
    ⟨_, _, rfl, rfl⟩
  have hinnermost : ClosesInnermost tidy := rfl
  obtain ⟨lp, e, -, he, hnodup, -⟩ := (built_bodies_nest hrun hinnermost).1 0 (by simp [tidy])
  exact ⟨log, s, hrun, hinnermost, hblocks, e, he, hnodup⟩

end BuildStep

end LoopAnalysis
