import LoopAnalysis.Program.Script
import LoopAnalysis.Proofs.Program.Forest

/-!
# What a building script does to loops

Of all the calls of a builder only three touch the loops it has recorded: one opens a loop, one
closes it, one notes its source line. The loops that are still open lie inside one another, and
everything recorded since one of them was opened lies inside it, so that the loops of a function
form a forest in the order in which they were opened, whatever the script does.

## Main definitions

- `Builder.layout`: the part of a builder that loops depend on;
- `BuildState.Quiet`, `BuildState.Opens`, `BuildState.Closes`: what one call can do to it;
- `BuildState.Sound`: the recorded loops form a forest to which the open loops can add.

## Main statements

- `BuildStep.run_cases`: every call is of one of the three kinds;
- `BuildState.Sound.run`, `BuildStep.sound_of_runAll`: one call and every script keep a state sound;
- `BuildStep.built_loops_form_forest`: the loops of every function that a script builds.
-/

namespace LoopAnalysis

/-! ## §1 The part of a builder that loops depend on -/

/-- The `loops` of a function under construction, those still open, and the number of its next
block. -/
structure Layout where
  loops     : List LoopEntry
  openLoops : List Nat
  nextBlock : Nat

/-- Records a loop inside the innermost open one, as `Builder.enterLoop` does. -/
def Layout.enter (l : Layout) (header body latch : BlockId) (iv : ValueId) : Layout where
  loops :=
    let entry : LoopEntry :=
      { header, blocks := [header, body, latch], inductionVariable := some iv
        parent := l.openLoops.head?, children := [], line := none }
    match l.openLoops.head? with
    | some p => (l.loops ++ [entry]).modify p fun e =>
      { e with children := e.children ++ [l.loops.length] }
    | none => l.loops ++ [entry]
  openLoops := l.loops.length :: l.openLoops
  nextBlock := l.nextBlock

/-- The blocks of a loop that is closed when the next block would have the number `stop`. -/
def CountedLoop.blocksUntil (lp : CountedLoop) (stop : Nat) : List BlockId :=
  [lp.header, lp.body] ++
    (List.range' (lp.exit.index + 1) (stop - (lp.exit.index + 1))).map BlockId.mk ++ [lp.latch]

namespace Builder

variable (b : Builder)

def layout : Layout := ⟨b.loops, b.openLoops, b.nextBlock⟩

@[simp] theorem layout_setFile (file : String) : (b.setFile file).layout = b.layout := rfl

@[simp] theorem layout_createBlock :
    b.createBlock.2.layout = { b.layout with nextBlock := b.nextBlock + 1 } := rfl

@[simp] theorem layout_moveTo (block : BlockId) : (b.moveTo block).layout = b.layout := rfl

@[simp] theorem layout_setLine (line : Nat) : (b.setLine line).layout = b.layout := rfl

@[simp] theorem layout_nameValue (v : ValueId) (name : String) :
    (b.nameValue v name).layout = b.layout := rfl

@[simp] theorem layout_fresh (name : String) : (b.fresh name).2.layout = b.layout := by
  simp only [fresh]
  split <;> rfl

@[simp] theorem layout_push (i : Instruction) : (b.push i).layout = b.layout := rfl

@[simp] theorem layout_define (make : ValueId → Instruction) :
    (b.define make).2.layout = b.layout := layout_fresh b ""

@[simp] theorem layout_loadElement (base : Operand) (indices : List Operand) :
    (b.loadElement base indices).2.layout = b.layout := by
  simp [loadElement]

@[simp] theorem layout_storeElement (base : Operand) (indices : List Operand) (v : Operand) :
    (b.storeElement base indices v).layout = b.layout := by
  simp [storeElement]

@[simp] theorem layout_carry (lp : CountedLoop) (name : String) (init : Operand) :
    (b.carry lp name init).2.layout = b.layout := layout_fresh b name

@[simp] theorem layout_updateCarried (lp : CountedLoop) (v : ValueId) (op : Operand) :
    (b.updateCarried lp v op).layout = b.layout := rfl

@[simp] theorem layout_enterLoop (header body latch : BlockId) (iv : ValueId) :
    (b.enterLoop header body latch iv).layout = b.layout.enter header body latch iv := by
  simp only [enterLoop, Layout.enter, layout]
  cases b.openLoops.head? <;> rfl

theorem layout_openLoop (ivName : String) (bound : Operand) :
    (b.openLoop ivName bound).2.layout =
      Layout.enter ⟨b.loops, b.openLoops, b.nextBlock + 4⟩ ⟨b.nextBlock⟩ ⟨b.nextBlock + 1⟩
        ⟨b.nextBlock + 2⟩ ⟨b.nextValue⟩ := by
  simp only [openLoop, layout_moveTo, layout_enterLoop, layout_push, layout_define, layout_fresh,
    layout_createBlock]
  rfl

theorem layout_closeLoop (lp : CountedLoop) :
    (b.closeLoop lp).layout =
      { loops := b.loops.modify lp.index fun e => { e with blocks := lp.blocksUntil b.nextBlock }
        openLoops := stillOpen lp.index b.openLoops
        nextBlock := b.nextBlock } := by
  simp only [closeLoop]
  split <;> rfl

end Builder

/-! ## §2 What a call can do -/

/-- The blocks recorded for the loop at `c`. -/
def blocksAt (loops : List LoopEntry) (c : Nat) : Option (List BlockId) := loops[c]?.map (·.blocks)

/-- The blocks of a counted loop are numbered from `first` on, its `exit` last. -/
structure CountedLoop.StartsAt (lp : CountedLoop) (first : Nat) : Prop where
  header : lp.header = ⟨first⟩
  body   : lp.body = ⟨first + 1⟩
  latch  : lp.latch = ⟨first + 2⟩
  exit   : lp.exit = ⟨first + 3⟩

namespace BuildState

/-- A call that leaves the loops as they are, source lines apart. -/
structure Quiet (s t : BuildState) : Prop where
  length    : t.builder.loops.length = s.builder.loops.length
  parent    : parentAt t.builder.loops = parentAt s.builder.loops
  children  : childrenAt t.builder.loops = childrenAt s.builder.loops
  blocks    : blocksAt t.builder.loops = blocksAt s.builder.loops
  openLoops : t.builder.openLoops = s.builder.openLoops
  opened    : t.opened = s.opened
  nextBlock : s.builder.nextBlock ≤ t.builder.nextBlock

/-- A call that opens a loop inside the innermost open one. -/
structure Opens (s t : BuildState) (lp : CountedLoop) : Prop where
  length    : t.builder.loops.length = s.builder.loops.length + 1
  parent    : ∀ c, parentAt t.builder.loops c =
    if c = s.builder.loops.length then s.builder.openLoops.head? else parentAt s.builder.loops c
  children  : ∀ c, childrenAt t.builder.loops c =
    (if c = s.builder.loops.length then some [] else childrenAt s.builder.loops c).map fun cs =>
      if s.builder.openLoops.head? = some c then cs ++ [s.builder.loops.length] else cs
  blocks    : ∀ c, blocksAt t.builder.loops c =
    if c = s.builder.loops.length then some [lp.header, lp.body, lp.latch]
    else blocksAt s.builder.loops c
  openLoops : t.builder.openLoops = s.builder.loops.length :: s.builder.openLoops
  opened    : t.opened = s.opened ++ [lp]
  index     : lp.index = s.builder.loops.length
  startsAt  : lp.StartsAt s.builder.nextBlock
  nextBlock : t.builder.nextBlock = s.builder.nextBlock + 4

/-- A call that closes a loop. -/
structure Closes (s t : BuildState) (lp : CountedLoop) : Prop where
  length    : t.builder.loops.length = s.builder.loops.length
  parent    : parentAt t.builder.loops = parentAt s.builder.loops
  children  : childrenAt t.builder.loops = childrenAt s.builder.loops
  blocks    : ∀ c, blocksAt t.builder.loops c =
    (blocksAt s.builder.loops c).map fun bs =>
      if lp.index = c then lp.blocksUntil s.builder.nextBlock else bs
  openLoops : t.builder.openLoops = Builder.stillOpen lp.index s.builder.openLoops
  opened    : t.opened = s.opened
  nextBlock : t.builder.nextBlock = s.builder.nextBlock

theorem quiet_of_layout {s t : BuildState} (hlayout : t.builder.layout = s.builder.layout)
    (hopened : t.opened = s.opened) : Quiet s t := by
  simp only [Builder.layout, Layout.mk.injEq] at hlayout
  obtain ⟨hloops, hopen, hnext⟩ := hlayout
  exact ⟨by rw [hloops], by rw [hloops], by rw [hloops], by rw [hloops], hopen, hopened,
    Nat.le_of_eq hnext.symm⟩

end BuildState

/-! ### Loops after one entry changed -/

section Entries

variable {loops : List LoopEntry} {change : LoopEntry → LoopEntry}

theorem parentAt_modify (hparent : ∀ e, (change e).parent = e.parent) (k : Nat) :
    parentAt (loops.modify k change) = parentAt loops := by
  funext c
  simp only [parentAt, List.getElem?_modify]
  split <;> simp [Option.bind_map, hparent]

theorem childrenAt_modify (hchildren : ∀ e, (change e).children = e.children) (k : Nat) :
    childrenAt (loops.modify k change) = childrenAt loops := by
  funext c
  simp only [childrenAt, List.getElem?_modify]
  -- Whether or not this is the changed entry, its children are the same.
  split <;> simp [Function.comp_def, hchildren]

theorem blocksAt_modify (k c : Nat) :
    blocksAt (loops.modify k change) c =
      loops[c]?.map fun e => (if k = c then change e else e).blocks := by
  simp only [blocksAt, List.getElem?_modify]
  exact Option.map_map _ _ _

end Entries

namespace Layout

variable (l : Layout) (header body latch : BlockId) (iv : ValueId)

/-- The loops after `enter`: the new one at the end, and its place in the loop around. -/
theorem getElem?_enter (c : Nat) :
    (l.enter header body latch iv).loops[c]? =
      (if c = l.loops.length then
          some { header, blocks := [header, body, latch], inductionVariable := some iv
                 parent := l.openLoops.head?, children := [], line := none }
        else l.loops[c]?).map fun e =>
          if l.openLoops.head? = some c then { e with children := e.children ++ [l.loops.length] }
          else e := by
  -- First without the link: the new entry stands at the end.
  have happend : ∀ entry : LoopEntry, (l.loops ++ [entry])[c]? =
      if c = l.loops.length then some entry else l.loops[c]? := by
    intro entry
    rw [List.getElem?_append]
    rcases Nat.lt_trichotomy c l.loops.length with hc | hc | hc
    · rw [if_pos hc, if_neg (by omega)]
    · simp [hc]
    · rw [if_neg (by omega), if_neg (by omega), List.getElem?_eq_none (by simp; omega),
        List.getElem?_eq_none (by omega)]
  simp only [enter]
  -- Then the loop around, if there is one, takes up the new loop.
  cases hhead : l.openLoops.head? with
  | none => simp [happend]
  | some p =>
    simp only [List.getElem?_modify, happend, Option.some.injEq]
    rfl

theorem length_enter : (l.enter header body latch iv).loops.length = l.loops.length + 1 := by
  simp only [enter]
  cases l.openLoops.head? <;> simp

theorem parentAt_enter (c : Nat) :
    parentAt (l.enter header body latch iv).loops c =
      if c = l.loops.length then l.openLoops.head? else parentAt l.loops c := by
  simp only [parentAt, getElem?_enter]
  by_cases hhead : l.openLoops.head? = some c <;> rcases eq_or_ne c l.loops.length with rfl | hc <;>
    simp [*, Option.bind_map]

theorem childrenAt_enter (c : Nat) :
    childrenAt (l.enter header body latch iv).loops c =
      (if c = l.loops.length then some [] else childrenAt l.loops c).map fun cs =>
        if l.openLoops.head? = some c then cs ++ [l.loops.length] else cs := by
  simp only [childrenAt, getElem?_enter]
  by_cases hhead : l.openLoops.head? = some c <;> rcases eq_or_ne c l.loops.length with rfl | hc <;>
    simp [*, Function.comp_def]

theorem blocksAt_enter (c : Nat) :
    blocksAt (l.enter header body latch iv).loops c =
      if c = l.loops.length then some [header, body, latch] else blocksAt l.loops c := by
  simp only [blocksAt, getElem?_enter]
  by_cases hhead : l.openLoops.head? = some c <;> rcases eq_or_ne c l.loops.length with rfl | hc <;>
    simp [*, Function.comp_def]

end Layout

namespace BuildStep

open BuildState

variable {s t : BuildState} {step : BuildStep}

theorem opens_openLoop (s : BuildState) (ivName : String) (bound : Operand) :
    Opens s ⟨(s.builder.openLoop ivName bound).2, s.opened ++ [(s.builder.openLoop ivName bound).1]⟩
      (s.builder.openLoop ivName bound).1 := by
  have hlayout := s.builder.layout_openLoop ivName bound
  have hloops : (s.builder.openLoop ivName bound).2.loops = _ := congrArg Layout.loops hlayout
  constructor
  case length => rw [hloops, Layout.length_enter]
  case parent =>
    intro c
    rw [hloops, Layout.parentAt_enter]
  case children =>
    intro c
    rw [hloops, Layout.childrenAt_enter]
  case blocks =>
    intro c
    rw [hloops, Layout.blocksAt_enter]
    rfl
  case openLoops => exact congrArg Layout.openLoops hlayout
  case opened => rfl
  case index => rfl
  case startsAt => exact ⟨rfl, rfl, rfl, rfl⟩
  case nextBlock => exact congrArg Layout.nextBlock hlayout

theorem closes_closeLoop (s : BuildState) (lp : CountedLoop) :
    Closes s { s with builder := s.builder.closeLoop lp } lp := by
  have hlayout := s.builder.layout_closeLoop lp
  have hloops : (s.builder.closeLoop lp).loops = _ := congrArg Layout.loops hlayout
  constructor
  case length => simp [hloops]
  case parent =>
    simp only [hloops]
    apply parentAt_modify
    intro e
    rfl
  case children =>
    simp only [hloops]
    apply childrenAt_modify
    intro e
    rfl
  case blocks =>
    intro c
    simp only [hloops]
    rw [blocksAt_modify, blocksAt, Option.map_map]
    split <;> rfl
  case openLoops => exact congrArg Layout.openLoops hlayout
  case opened => rfl
  case nextBlock => exact congrArg Layout.nextBlock hlayout

theorem quiet_setLoopLine (s : BuildState) (lp : CountedLoop) (line : Nat) :
    Quiet s { s with builder := s.builder.setLoopLine lp line } := by
  constructor
  case length => exact List.length_modify ..
  case parent =>
    apply parentAt_modify
    intro e
    rfl
  case children =>
    apply childrenAt_modify
    intro e
    rfl
  case blocks =>
    funext c
    simp only [Builder.setLoopLine, Builder.modifyLoop]
    rw [blocksAt_modify, blocksAt]
    split <;> rfl
  case openLoops => rfl
  case opened => rfl
  case nextBlock => exact Nat.le_refl _

/-- The calls that neither open nor close a loop. -/
def keepsLoops : BuildStep → Bool
  | openLoop .. | close .. => false
  | _ => true

/-- **What a call can do**: leave the loops as they are (`Quiet`), open one, or close one that was
opened. -/
theorem run_cases {r : StepResult} (h : step.run s = some (r, t)) :
    (step.keepsLoops = true ∧ Quiet s t) ∨
    (∃ ivName bound lp, step = .openLoop ivName bound ∧ Opens s t lp) ∨
    (∃ k lp, step = .close k ∧ s.opened[k]? = some lp ∧ Closes s t lp) := by
  -- Calls on a loop look it up first, and a new block moves the number of the next one; what is
  -- left does not touch the layout.
  cases step with
  | openLoop ivName bound =>
    simp only [run, Option.some.injEq, Prod.mk.injEq] at h
    obtain ⟨-, rfl⟩ := h
    exact .inr (.inl ⟨ivName, bound, _, rfl, opens_openLoop s ivName bound⟩)
  | close k =>
    simp only [run, quiet, Option.map_eq_some_iff, Prod.mk.injEq] at h
    obtain ⟨lp, hlp, -, rfl⟩ := h
    exact .inr (.inr ⟨k, lp, rfl, hlp, closes_closeLoop s lp⟩)
  | loopLine k n =>
    simp only [run, quiet, Option.map_eq_some_iff, Prod.mk.injEq] at h
    obtain ⟨lp, -, -, rfl⟩ := h
    exact .inl ⟨rfl, quiet_setLoopLine s lp n⟩
  | carry k name init =>
    simp only [run, giving, Option.map_eq_some_iff, Prod.mk.injEq] at h
    obtain ⟨lp, -, -, rfl⟩ := h
    exact .inl ⟨rfl, quiet_of_layout (by simp) rfl⟩
  | update k v op =>
    simp only [run, quiet, Option.map_eq_some_iff, Prod.mk.injEq] at h
    obtain ⟨lp, -, -, rfl⟩ := h
    exact .inl ⟨rfl, quiet_of_layout (by simp) rfl⟩
  | block =>
    simp only [run, Option.some.injEq, Prod.mk.injEq] at h
    obtain ⟨-, rfl⟩ := h
    exact .inl ⟨rfl, rfl, rfl, rfl, rfl, rfl, rfl, Nat.le_succ _⟩
  | _ =>
    simp only [run, quiet, giving, Option.some.injEq, Prod.mk.injEq] at h
    obtain ⟨-, rfl⟩ := h
    exact .inl ⟨rfl, quiet_of_layout (by simp) rfl⟩

theorem runAll_cons {steps : List BuildStep} {log : List (StepResult × BlockId)} {u : BuildState}
    (h : runAll s (step :: steps) = some (log, u)) :
    ∃ r t rest, step.run s = some (r, t) ∧ runAll t steps = some (rest, u) := by
  simp only [runAll, bind, Option.bind_eq_some_iff, Prod.exists] at h
  obtain ⟨r, t, hrun, rest, final, hrest, hfinal⟩ := h
  cases hfinal
  exact ⟨r, t, rest, hrun, hrest⟩

end BuildStep

/-! ## §3 Open loops lie inside one another -/

namespace Builder

theorem stillOpen_sublist (k : Nat) (openLoops : List Nat) :
    (stillOpen k openLoops).Sublist openLoops := by
  unfold stillOpen
  -- Either the loop is not open, or it goes away with all that is open inside it.
  split
  · exact List.Sublist.refl openLoops
  · next p outer h =>
    have hdrop : (p :: outer).Sublist openLoops := h ▸ List.dropWhile_sublist _
    exact (List.sublist_cons_self p outer).trans hdrop

end Builder

namespace BuildState

/-- The loops recorded so far form a `Forest`, and each open loop has around it the open loops
before it and inside it all that was recorded since. -/
structure Sound (s : BuildState) : Prop where
  forest     : Forest s.builder.loops
  indices    : s.opened.map (·.index) = List.range s.builder.loops.length
  descending : s.builder.openLoops.Pairwise (· > ·)
  lt_length  : ∀ p ∈ s.builder.openLoops, p < s.builder.loops.length
  inside     : ∀ p ∈ s.builder.openLoops, ∀ j, p < j → j < s.builder.loops.length →
    ∃ q, parentAt s.builder.loops j = some q ∧ p ≤ q

namespace Sound

variable {s t : BuildState} {lp : CountedLoop}

theorem start (name : String) : Sound ⟨Builder.start name, []⟩ where
  forest := ⟨by simp [Builder.start, parentAt], by simp [Builder.start, childrenAt],
    by simp [Builder.start, childrenAt], by simp [Builder.start, parentAt]⟩
  indices := rfl
  descending := List.Pairwise.nil
  lt_length := by simp [Builder.start]
  inside := by simp [Builder.start]

theorem index_eq (S : Sound s) {k : Nat} (h : s.opened[k]? = some lp) :
    lp.index = k ∧ k < s.builder.loops.length := by
  have hindex : (s.opened.map (·.index))[k]? = some lp.index := by simp [h]
  rw [S.indices, List.getElem?_eq_some_iff] at hindex
  obtain ⟨hk, hindex⟩ := hindex
  rw [List.getElem_range] at hindex
  exact ⟨hindex.symm, by simpa using hk⟩

theorem length_opened (S : Sound s) : s.opened.length = s.builder.loops.length := by
  have hlength := congrArg List.length S.indices
  simpa using hlength

theorem lt_of_mem_outer (S : Sound s) {k : Nat} {outer : List Nat}
    (hopen : s.builder.openLoops = k :: outer) {p : Nat} (hp : p ∈ outer) : p < k := by
  have hdescending := S.descending
  rw [hopen, List.pairwise_cons] at hdescending
  exact hdescending.1 p hp

/-- The innermost of the `openLoops` was opened last. -/
theorem le_head (S : Sound s) {p : Nat} (hp : p ∈ s.builder.openLoops) :
    ∃ q, s.builder.openLoops.head? = some q ∧ p ≤ q := by
  cases hopen : s.builder.openLoops with
  | nil => simp [hopen] at hp
  | cons q outer =>
    rw [hopen] at hp
    refine ⟨q, rfl, ?_⟩
    rcases List.mem_cons.mp hp with rfl | hp
    · exact Nat.le_refl p
    · exact Nat.le_of_lt (S.lt_of_mem_outer hopen hp)

theorem head_lt (S : Sound s) {q : Nat} (hq : s.builder.openLoops.head? = some q) :
    q < s.builder.loops.length := S.lt_length q (List.mem_of_head? hq)

theorem quiet (S : Sound s) (h : Quiet s t) : Sound t where
  forest := S.forest.congr h.parent h.children
  indices := by rw [h.opened, h.length, S.indices]
  descending := by
    rw [h.openLoops]
    exact S.descending
  lt_length := by
    rw [h.openLoops, h.length]
    exact S.lt_length
  inside := by
    rw [h.openLoops, h.length, h.parent]
    exact S.inside

theorem closes (S : Sound s) (h : Closes s t lp) : Sound t where
  forest := S.forest.congr h.parent h.children
  indices := by rw [h.opened, h.length, S.indices]
  -- What is open afterwards was open before, so each property is that of a shorter list.
  descending := by
    rw [h.openLoops]
    exact S.descending.sublist (Builder.stillOpen_sublist _ _)
  lt_length := by
    rw [h.openLoops, h.length]
    exact fun p hp => S.lt_length p ((Builder.stillOpen_sublist _ _).subset hp)
  inside := by
    rw [h.openLoops, h.length, h.parent]
    exact fun p hp => S.inside p ((Builder.stillOpen_sublist _ _).subset hp)

/-- After `Opens` a loop has the children that it had, and the new loop if that was opened in it. -/
private theorem children_opens (S : Sound s) (h : Opens s t lp) {p : Nat} {cs : List Nat}
    (hcs : childrenAt t.builder.loops p = some cs) :
    (p = s.builder.loops.length ∧ cs = []) ∨
    ∃ before, p ≠ s.builder.loops.length ∧ childrenAt s.builder.loops p = some before ∧
      cs = if s.builder.openLoops.head? = some p then before ++ [s.builder.loops.length]
        else before := by
  rw [h.children, Option.map_eq_some_iff] at hcs
  obtain ⟨before, hbefore, rfl⟩ := hcs
  split at hbefore
  · next hp =>
    -- The innermost open loop is older than the new one.
    have hhead : s.builder.openLoops.head? ≠ some p := fun hhead => by
      have hlt := S.head_lt hhead
      omega
    cases hbefore
    exact .inl ⟨hp, if_neg hhead⟩
  · next hp => exact .inr ⟨before, hp, hbefore, rfl⟩

/-- A new loop is the last child of the loop that it is opened in, so there is a `Forest` again. -/
theorem forest_opens (S : Sound s) (h : Opens s t lp) : Forest t.builder.loops where
  parent_lt := by
    intro c p hparent
    rw [h.parent] at hparent
    split at hparent
    · next hc =>
      subst hc
      exact S.head_lt hparent
    · exact S.forest.parent_lt hparent
  mem_children_iff := by
    intro p cs hcs c
    rw [h.parent]
    rcases S.children_opens h hcs with ⟨rfl, rfl⟩ | ⟨before, hp, hbefore, rfl⟩
    · -- Nothing has been opened in the new loop so far.
      simp only [List.not_mem_nil, false_iff]
      intro hparent
      split at hparent
      · exact absurd (S.head_lt hparent) (Nat.lt_irrefl _)
      · have hlt := S.forest.parent_lt hparent
        have hc := lt_length_of_parentAt hparent
        omega
    · have hiff : c ∈ before ↔ parentAt s.builder.loops c = some p :=
        S.forest.mem_children_iff hbefore
      -- The new loop is a child of the innermost open one, and of no other.
      by_cases hc : c = s.builder.loops.length
      · subst hc
        have hnew : s.builder.loops.length ∉ before := fun hmem =>
          Nat.lt_irrefl _ (lt_length_of_parentAt (hiff.mp hmem))
        rw [if_pos rfl]
        split
        · next hhead => simp [hhead]
        · next hhead => simp [hnew, hhead]
      · rw [if_neg hc, ← hiff]
        split <;> simp [hc]
  ascending := by
    intro p cs hcs
    rcases S.children_opens h hcs with ⟨rfl, rfl⟩ | ⟨before, hp, hbefore, rfl⟩
    · exact List.Pairwise.nil
    · have hascending := S.forest.ascending hbefore
      split
      · -- The new loop is the last of the list, so it may stand behind all children.
        refine List.pairwise_append.mpr ⟨hascending, List.pairwise_singleton _ _, ?_⟩
        intro c hc d hd
        rw [List.mem_singleton.mp hd]
        exact lt_length_of_parentAt ((S.forest.mem_children_iff hbefore).mp hc)
      · exact hascending
  between := by
    intro c p j hparent hpj hjc
    rw [h.parent] at hparent
    -- Only the new loop itself is recorded after everything else.
    have hj : j < s.builder.loops.length := by
      split at hparent
      · omega
      · have hc := lt_length_of_parentAt hparent
        omega
    rw [h.parent, if_neg (by omega)]
    split at hparent
    · exact S.inside p (List.mem_of_head? hparent) j hpj hj
    · exact S.forest.between hparent hpj hjc

theorem opens (S : Sound s) (h : Opens s t lp) : Sound t where
  forest := S.forest_opens h
  indices := by simp [h.opened, h.length, S.indices, h.index, List.range_succ]
  descending := by
    rw [h.openLoops]
    exact List.pairwise_cons.mpr ⟨S.lt_length, S.descending⟩
  lt_length := by
    intro p hp
    rw [h.openLoops] at hp
    rw [h.length]
    rcases List.mem_cons.mp hp with rfl | hp
    · exact Nat.lt_succ_self _
    · exact Nat.lt_succ_of_lt (S.lt_length p hp)
  inside := by
    intro p hp j hpj hj
    rw [h.openLoops] at hp
    rw [h.length] at hj
    rw [h.parent]
    -- Nothing has been recorded since the new loop.
    rcases List.mem_cons.mp hp with rfl | hp
    · omega
    · -- The new loop lies in the innermost open one, which lies in every other.
      split
      · exact S.le_head hp
      · exact S.inside p hp j hpj (by omega)

/-- One call of a script keeps a state `Sound`. -/
theorem run (S : Sound s) {step : BuildStep} {r : StepResult} (h : step.run s = some (r, t)) :
    Sound t := by
  rcases BuildStep.run_cases h with ⟨-, hquiet⟩ | ⟨-, -, lp, -, hopens⟩ | ⟨k, lp, -, -, hcloses⟩
  · exact S.quiet hquiet
  · exact S.opens hopens
  · exact S.closes hcloses

end Sound

end BuildState

namespace BuildStep

open BuildState

/-- Every script keeps a state `Sound`. -/
theorem sound_of_runAll {steps : List BuildStep} {log : List (StepResult × BlockId)}
    {s u : BuildState} (S : Sound s) (h : runAll s steps = some (log, u)) : Sound u := by
  -- Induct on the calls, from whatever state the first of them leaves.
  induction steps generalizing s log with
  | nil =>
    cases h
    exact S
  | cons step steps ih =>
    obtain ⟨r, t, rest, hrun, hrest⟩ := runAll_cons h
    exact ih (S.run hrun) hrest

/-- **The loops of a function that a script builds**, however it opens and closes them: they are
numbered in the order in which they were opened; a loop comes after the one around it, which lists
it exactly once and in order; a walk through the function by `loopsInOrder` gives every loop once,
in the order of their numbers; and a loop is one level deeper than the one around it. -/
theorem built_loops_form_forest {name : String} {steps : List BuildStep}
    {log : List (StepResult × BlockId)} {s : BuildState}
    (h : runAll ⟨Builder.start name, []⟩ steps = some (log, s)) :
    let f := s.builder.build
    s.opened.map (·.index) = List.range f.loops.length ∧
    (∀ c p, parentAt f.loops c = some p → p < c) ∧
    (∀ p e, f.loops[p]? = some e →
      e.children.Pairwise (· < ·) ∧ ∀ c, c ∈ e.children ↔ parentAt f.loops c = some p) ∧
    (∃ listed, f.loopsInOrder .indexed = .ok listed ∧
      listed.map (·.1) = List.range f.loops.length ∧
      ∀ x ∈ listed, f.loop? .indexed x.1 = some x.2) ∧
    ∀ c p, parentAt f.loops c = some p →
      ∃ lp outer, f.loop? .indexed c = some lp ∧ f.loop? .indexed p = some outer ∧
        lp.depth = outer.depth + 1 := by
  intro f
  have S : Sound s := sound_of_runAll (.start name) h
  have F : Forest f.loops := S.forest
  refine ⟨S.indices, fun _ _ => F.parent_lt, ?_, F.loopsInOrder_eq, ?_⟩
  · intro p e he
    have hcs := childrenAt_of_getElem? he
    exact ⟨F.ascending hcs, fun _ => F.mem_children_iff hcs⟩
  · intro c p hparent
    exact F.depth_eq_succ (by decide) hparent

/-- Closes an outer loop before the one inside it, and that one afterwards; closes a loop twice;
leaves the last two open. -/
def untidy : List BuildStep :=
  [.openLoop "i" (.int 8), .openLoop "j" (.int 8), .close 0, .close 1, .close 0,
    .openLoop "k" (.int 8), .openLoop "l" (.int 8), .close 1]

theorem built_loops_form_forest_untidy :
    ∃ log s, runAll ⟨Builder.start "f", []⟩ untidy = some (log, s) ∧
      (List.range 4).map (parentAt s.builder.build.loops) = [none, some 0, none, some 2] ∧
      ∃ listed, s.builder.build.loopsInOrder .indexed = .ok listed ∧
        listed.map (·.1) = List.range 4 := by
  obtain ⟨log, s, h, hlength, hparents⟩ :
      ∃ log s, runAll ⟨Builder.start "f", []⟩ untidy = some (log, s) ∧
        s.builder.build.loops.length = 4 ∧
        (List.range 4).map (parentAt s.builder.build.loops) = [none, some 0, none, some 2] :=
    ⟨_, _, rfl, rfl, rfl⟩
  obtain ⟨-, -, -, ⟨listed, hlisted, hpositions, -⟩, -⟩ := built_loops_form_forest h
  exact ⟨log, s, h, hparents, listed, hlisted, by rw [hpositions, hlength]⟩

end BuildStep

end LoopAnalysis
