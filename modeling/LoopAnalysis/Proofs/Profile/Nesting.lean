import LoopAnalysis.Profile.Nesting
import LoopAnalysis.Proofs.Program.Building
import Mathlib.Logic.Relation

/-!
# Coordinates along a nest

The place of a loop is told by two counts that are taken apart from each other: outwards through the
loops around it, and downwards through the loops inside it. In a forest both follow the same links,
one from either end, and so they agree along every nest.

## Main definitions

- `Outwards`: a loop with the loops around it, from the inside out;
- `SoleChild`: the one loop directly inside another.

## Main statements

- `Forest.loop?_eq`: the loop at a position contains the loops at the positions of its children;
- `Forest.nestIvs_eq`: what a loop knows of the loops around it;
- `Forest.along_chain`: all loops of a chain of single loops report its length;
- `Forest.perfectLeaf_eq_some_iff`: where the chain below a loop ends;
- `BuildStep.built_nests_consistent`: all of it for every loop of a function that a script builds.
-/

namespace LoopAnalysis

/-- A loop and the loops around it, from the inside out, link by link of `parentAt`. -/
inductive Outwards (loops : List LoopEntry) : Nat → List Nat → Prop where
  | root {c : Nat} : parentAt loops c = none → Outwards loops c [c]
  | step {c p : Nat} {around : List Nat} :
      parentAt loops c = some p → Outwards loops p around → Outwards loops c (c :: around)

/-- The `inductionVariable` of the loop at a position. -/
def ivAt (loops : List LoopEntry) (p : Nat) : Option ValueId :=
  loops[p]?.bind (·.inductionVariable)

/-- The second loop stands directly in the first, and no other does: it is all that `childrenAt`
lists. -/
def SoleChild (loops : List LoopEntry) (p c : Nat) : Prop := childrenAt loops p = some [c]

/-! ## §1 Chains of single loops -/

namespace Loop

variable {lp sub : Loop}

theorem perfectBelow_of_subLoops (h : lp.subLoops = [sub]) :
    lp.perfectBelow = sub.perfectBelow + 1 := by
  obtain ⟨body, around, subs⟩ := lp
  cases h
  rw [perfectBelow]

theorem perfectBelow_eq_zero (h : lp.subLoops.length ≠ 1) : lp.perfectBelow = 0 := by
  obtain ⟨body, around, subs⟩ := lp
  match subs with
  | [] => rw [perfectBelow]; simp
  | [sub] => exact absurd rfl h
  | _ :: _ :: _ => rw [perfectBelow]; simp

theorem perfectLeaf_of_subLoops (h : lp.subLoops = [sub]) : lp.perfectLeaf = sub.perfectLeaf := by
  obtain ⟨body, around, subs⟩ := lp
  cases h
  rw [perfectLeaf]

theorem perfectLeaf_of_nil (h : lp.subLoops = []) : lp.perfectLeaf = some lp := by
  obtain ⟨body, around, subs⟩ := lp
  cases h
  rw [perfectLeaf]

/-- A loop in which two or more stand has no `perfectLeaf`. -/
theorem perfectLeaf_of_two_le (h : 2 ≤ lp.subLoops.length) : lp.perfectLeaf = none := by
  obtain ⟨body, around, subs⟩ := lp
  match subs with
  | [] => simp at h
  | [sub] => simp at h
  | _ :: _ :: _ => rw [perfectLeaf] <;> simp

end Loop

/-! ## §2 Loops at the positions of a forest -/

section Positions

variable {f : Function} {view : LoopView} {c d p : Nat} {e : LoopEntry} {lp outer sub : Loop}

/-- The loops directly inside the loop of an entry, as `loopAt` sees them down to a number of
levels. -/
def Function.subLoopsOf (f : Function) (view : LoopView) (levels : Nat) (e : LoopEntry) :
    List Loop :=
  match view with
  | .indexed => e.children.map fun d => (f.loopAt view levels d).getD f.vacant
  | .scanned => e.children.filterMap (f.loopAt view levels)
  | .detached => []

theorem loopAt_succ (he : f.loops[c]? = some e) (levels : Nat) :
    f.loopAt view (levels + 1) c = some
      { f.body view e with
        enclosing :=
          if view = .detached then [] else f.enclosingFrom view f.loops.length e.parent
        subLoops := f.subLoopsOf view levels e } := by
  simp only [Function.loopAt, he]
  rfl

theorem subLoopsOf_congr {m n : Nat}
    (h : ∀ d ∈ e.children, f.loopAt view m d = f.loopAt view n d) :
    f.subLoopsOf view m e = f.subLoopsOf view n e := by
  cases view with
  | indexed => exact List.map_congr_left fun d hd => by rw [h d hd]
  | scanned => exact List.filterMap_congr h
  | detached => rfl

/-- Where no link is broken, `subLoopsOf` sees every child. -/
theorem subLoopsOf_eq_map (hview : view ≠ .detached) {levels : Nat} {child : Nat → Loop}
    (h : ∀ d ∈ e.children, f.loopAt view levels d = some (child d)) :
    f.subLoopsOf view levels e = e.children.map child := by
  cases view with
  | indexed => exact List.map_congr_left fun d hd => by rw [h d hd, Option.getD_some]
  | scanned =>
    rw [← List.filterMap_eq_map]
    exact List.filterMap_congr h
  | detached => exact absurd rfl hview

theorem exists_entry (hlp : f.loop? view c = some lp) : ∃ e, f.loops[c]? = some e := by
  cases he : f.loops[c]? with
  | none =>
    rw [Function.loop?] at hlp
    cases hlength : f.loops.length with
    | zero => simp [hlength, Function.loopAt] at hlp
    | succ n => simp [hlength, Function.loopAt, he] at hlp
  | some e => exact ⟨e, rfl⟩

namespace Forest

/-- More levels than a nest has add nothing to what `loopAt` gives. -/
theorem loopAt_eq (F : Forest f.loops) {m n : Nat} (hm : f.loops.length ≤ c + m)
    (hn : f.loops.length ≤ c + n) : f.loopAt view m c = f.loopAt view n c := by
  -- The induction is on the levels that are left: no position further in is a loop once they are
  -- gone.
  induction m generalizing c n with
  | zero =>
    have hnone : f.loops[c]? = none := List.getElem?_eq_none (by omega)
    cases n <;> simp [Function.loopAt, hnone]
  | succ m ih =>
    cases n with
    | zero =>
      have hnone : f.loops[c]? = none := List.getElem?_eq_none (by omega)
      simp [Function.loopAt, hnone]
    | succ n =>
      cases he : f.loops[c]? with
      | none => simp [Function.loopAt, he]
      | some e =>
        rw [loopAt_succ he, loopAt_succ he, subLoopsOf_congr]
        intro d hd
        -- A loop further in comes later in the list, so one level less is enough.
        have hcd := F.parent_lt ((F.mem_children_iff (childrenAt_of_getElem? he)).mp hd)
        exact ih (by omega) (by omega)

/-- **The loop at a position**: inside it are what `loop?` gives at the positions of its children.
-/
theorem loop?_eq (F : Forest f.loops) (hview : view ≠ .detached) (he : f.loops[c]? = some e) :
    f.loop? view c = some
      { f.body view e with
        enclosing := f.enclosingFrom view f.loops.length e.parent
        subLoops := e.children.map fun d => (f.loop? view d).getD f.vacant } := by
  have hc : c < f.loops.length := (List.getElem?_eq_some_iff.mp he).1
  obtain ⟨levels, hlevels⟩ : ∃ levels, f.loops.length = levels + 1 := ⟨f.loops.length - 1, by omega⟩
  have hsubs : f.subLoopsOf view levels e =
      e.children.map fun d => (f.loop? view d).getD f.vacant := by
    apply subLoopsOf_eq_map hview
    intro d hd
    have hparent := (F.mem_children_iff (childrenAt_of_getElem? he)).mp hd
    have hcd := F.parent_lt hparent
    obtain ⟨sub, hsub, -⟩ := loop?_of_getElem? view
      (List.getElem?_eq_getElem (lt_length_of_parentAt hparent))
    rw [F.loopAt_eq (n := f.loops.length) (by omega) (by omega)]
    show f.loop? view d = _
    rw [hsub, Option.getD_some]
  rw [Function.loop?, hlevels, loopAt_succ he, if_neg hview, hsubs, hlevels]

theorem subLoops_eq (F : Forest f.loops) (hview : view ≠ .detached)
    (hlp : f.loop? view c = some lp) {cs : List Nat} (hcs : childrenAt f.loops c = some cs) :
    lp.subLoops = cs.map fun d => (f.loop? view d).getD f.vacant := by
  obtain ⟨e, he, rfl⟩ := Option.map_eq_some_iff.mp hcs
  rw [F.loop?_eq hview he] at hlp
  rw [← Option.some.inj hlp]

theorem length_subLoops (F : Forest f.loops) (hview : view ≠ .detached)
    (hlp : f.loop? view c = some lp) {cs : List Nat} (hcs : childrenAt f.loops c = some cs) :
    lp.subLoops.length = cs.length := by
  rw [F.subLoops_eq hview hlp hcs, List.length_map]

theorem inductionVariable_eq (F : Forest f.loops) (hview : view ≠ .detached)
    (hlp : f.loop? view c = some lp) : lp.inductionVariable = ivAt f.loops c := by
  obtain ⟨e, he⟩ := exists_entry hlp
  rw [F.loop?_eq hview he] at hlp
  rw [← Option.some.inj hlp, ivAt, he, Option.bind_some]
  cases view with
  | indexed | scanned => rfl
  | detached => exact absurd rfl hview

/-- Nothing is `enclosing` an outermost loop. -/
theorem enclosing_of_root (F : Forest f.loops) (hview : view ≠ .detached)
    (hlp : f.loop? view c = some lp) (hroot : parentAt f.loops c = none) : lp.enclosing = [] := by
  obtain ⟨e, he⟩ := exists_entry hlp
  rw [parentAt_of_getElem? he] at hroot
  rw [F.loop?_eq hview he, hroot] at hlp
  rw [← Option.some.inj hlp]
  simp [Function.enclosingFrom]

/-- The loops `enclosing` any other are the one that it stands in and what is around that one. -/
theorem enclosing_of_parent (F : Forest f.loops) (hview : view ≠ .detached)
    (hlp : f.loop? view c = some lp) (houter : f.loop? view p = some outer)
    (hparent : parentAt f.loops c = some p) :
    ∃ header, lp.enclosing =
      ⟨header, outer.inductionVariable, outer.subLoops.length⟩ :: outer.enclosing := by
  obtain ⟨e, he⟩ := exists_entry houter
  -- Whichever way the function is seen, the parent counts all its children, for no link is broken.
  have hcount : f.subLoopCount view e = outer.subLoops.length := by
    rw [F.length_subLoops hview houter (childrenAt_of_getElem? he)]
    cases view with
    | indexed => rfl
    | scanned =>
      have hall : ∀ d ∈ e.children, d < f.loops.length := fun d hd =>
        lt_length_of_parentAt ((F.mem_children_iff (childrenAt_of_getElem? he)).mp hd)
      simp only [Function.subLoopCount]
      rw [List.filter_eq_self.mpr fun d hd => by simpa using hall d hd]
    | detached => exact absurd rfl hview
  refine ⟨e.header, ?_⟩
  rw [F.enclosing_eq hview hparent he hlp houter, hcount, F.inductionVariable_eq hview houter, ivAt,
    he, Option.bind_some]

/-- The way `Outwards` comes to an end, since every parent comes earlier in the list. -/
theorem exists_outwards (F : Forest f.loops) (hc : c < f.loops.length) :
    ∃ path, Outwards f.loops c path := by
  induction c using Nat.strongRecOn with
  | ind c ih =>
    cases hparent : parentAt f.loops c with
    | none => exact ⟨[c], .root hparent⟩
    | some p =>
      have hpc := F.parent_lt hparent
      obtain ⟨around, haround⟩ := ih p hpc (by omega)
      exact ⟨c :: around, .step hparent haround⟩

end Forest

end Positions

/-! ## §3 Coordinates -/

section Coordinates

variable {f : Function} {view : LoopView} {c d p : Nat} {lp outer sub : Loop}

namespace Forest

/-- The `nestIvs` of a loop are the induction variables of the loops on the way out. -/
theorem nestIvs_eq (F : Forest f.loops) (hview : view ≠ .detached) {path : List Nat}
    (hpath : Outwards f.loops c path) (hlp : f.loop? view c = some lp) :
    (NestPosition.of lp).nestIvs = path.map (ivAt f.loops) := by
  have hiv := F.inductionVariable_eq hview hlp
  -- The induction is on the way out: each loop adds its own variable to those around it.
  induction hpath generalizing lp with
  | root hroot =>
    simp [NestPosition.of, F.enclosing_of_root hview hlp hroot, hiv]
  | @step c p around hparent hrest ih =>
    obtain ⟨-, outer, -, houter, -⟩ := F.depth_eq_succ hview hparent
    obtain ⟨header, haround⟩ := F.enclosing_of_parent hview hlp houter hparent
    have houterIvs := ih houter (F.inductionVariable_eq hview houter)
    simp only [NestPosition.of] at houterIvs ⊢
    rw [haround, List.map_cons, houterIvs, hiv, List.map_cons]

theorem parentAt_of_soleChild {loops : List LoopEntry} (F : Forest loops)
    (hsole : SoleChild loops c d) : parentAt loops d = some c :=
  (F.mem_children_iff hsole).mp (List.mem_singleton.mpr rfl)

/-- **One step down a chain**: the upper loop sees its `SoleChild` as its only loop, and the lower
one sees the upper one with that count. -/
theorem soleChild_sees (F : Forest f.loops) (hview : view ≠ .detached)
    (hsole : SoleChild f.loops c d) (hlp : f.loop? view c = some lp)
    (hsub : f.loop? view d = some sub) :
    lp.subLoops = [sub] ∧
      ∃ header, sub.enclosing = ⟨header, lp.inductionVariable, 1⟩ :: lp.enclosing := by
  have hsubs : lp.subLoops = [sub] := by
    rw [F.subLoops_eq hview hlp hsole, List.map_singleton, hsub, Option.getD_some]
  obtain ⟨header, haround⟩ :=
    F.enclosing_of_parent hview hsub hlp (F.parentAt_of_soleChild hsole)
  rw [hsubs] at haround
  exact ⟨hsubs, header, haround⟩

/-- There is a loop at the position of any `SoleChild`. -/
theorem exists_of_soleChild (F : Forest f.loops) (view : LoopView)
    (hsole : SoleChild f.loops c d) : ∃ sub, f.loop? view d = some sub := by
  have hd : d < f.loops.length := lt_length_of_parentAt (F.parentAt_of_soleChild hsole)
  obtain ⟨sub, hsub, -⟩ := loop?_of_getElem? view (List.getElem?_eq_getElem hd)
  exact ⟨sub, hsub⟩

theorem exists_of_chain (F : Forest f.loops) (hlp : f.loop? view c = some lp)
    (hchain : Relation.ReflTransGen (SoleChild f.loops) c d) :
    ∃ sub, f.loop? view d = some sub := by
  cases hchain with
  | refl => exact ⟨lp, hlp⟩
  | tail _ hsole => exact F.exists_of_soleChild view hsole

theorem exists_soleChild (F : Forest f.loops) (hview : view ≠ .detached)
    (hlp : f.loop? view c = some lp) (hone : lp.subLoops.length = 1) :
    ∃ d, SoleChild f.loops c d := by
  obtain ⟨e, he⟩ := exists_entry hlp
  have hcs := childrenAt_of_getElem? he
  rw [F.length_subLoops hview hlp hcs] at hone
  obtain ⟨d, hd⟩ := List.length_eq_one_iff.mp hone
  exact ⟨d, hcs.trans (by rw [hd])⟩

/-- A loop with one loop directly inside has any that names it as parent for its `SoleChild`. -/
theorem soleChild_of_parent (F : Forest f.loops) (hview : view ≠ .detached)
    (houter : f.loop? view p = some outer) (hparent : parentAt f.loops c = some p)
    (hone : outer.subLoops.length = 1) : SoleChild f.loops p c := by
  obtain ⟨d, hsole⟩ := F.exists_soleChild hview houter hone
  have hmem := (F.mem_children_iff hsole).mpr hparent
  rwa [List.mem_singleton.mp hmem]

/-- **Along a chain of `SoleChild` links** the two counts of each loop have one sum, and all loops
of the chain end in the same place and at the same depth. -/
theorem along_chain (F : Forest f.loops) (hview : view ≠ .detached)
    (hchain : Relation.ReflTransGen (SoleChild f.loops) c d) (hlp : f.loop? view c = some lp)
    (hsub : f.loop? view d = some sub) :
    (NestPosition.of sub).perfectChainLength = (NestPosition.of lp).perfectChainLength ∧
      sub.depth + sub.perfectBelow = lp.depth + lp.perfectBelow ∧
      sub.perfectLeaf = lp.perfectLeaf := by
  induction hchain using Relation.ReflTransGen.head_induction_on generalizing lp with
  | refl =>
    obtain rfl : lp = sub := Option.some.inj (hlp.symm.trans hsub)
    exact ⟨rfl, rfl, rfl⟩
  | @head c m hsole _ ih =>
    obtain ⟨next, hnext⟩ := F.exists_of_soleChild view hsole
    obtain ⟨hchainLength, hdepth, hleaf⟩ := ih hnext
    obtain ⟨hsubs, header, haround⟩ := F.soleChild_sees hview hsole hlp hnext
    -- What the lower loop has more above it, the upper one has more below it.
    have hbelow : (NestPosition.of lp).perfectBelow = (NestPosition.of next).perfectBelow + 1 :=
      Loop.perfectBelow_of_subLoops hsubs
    have habove : (NestPosition.of next).perfectAbove = (NestPosition.of lp).perfectAbove + 1 := by
      simp [NestPosition.of, haround]
    have hdeeper : next.depth = lp.depth + 1 := by
      simp [Loop.depth, haround]
    refine ⟨?_, ?_, hleaf.trans (Loop.perfectLeaf_of_subLoops hsubs).symm⟩
    · rw [hchainLength, NestPosition.perfectChainLength, NestPosition.perfectChainLength]
      omega
    · simp only [NestPosition.of] at hbelow
      omega

/-- Every chain of `SoleChild` links ends, in a loop that does not contain exactly one loop. -/
theorem exists_chain_end (F : Forest f.loops) (hview : view ≠ .detached)
    (hlp : f.loop? view c = some lp) :
    ∃ d sub, Relation.ReflTransGen (SoleChild f.loops) c d ∧ f.loop? view d = some sub ∧
      sub.subLoops.length ≠ 1 := by
  -- The induction is on the number of levels that the loop counts below it.
  induction hbelow : lp.perfectBelow generalizing c lp with
  | zero =>
    refine ⟨c, lp, .refl, hlp, fun hone => ?_⟩
    obtain ⟨sub, hsubs⟩ := List.length_eq_one_iff.mp hone
    have hpos := Loop.perfectBelow_of_subLoops hsubs
    omega
  | succ n ih =>
    have hone : lp.subLoops.length = 1 := by
      by_contra hne
      have hzero := Loop.perfectBelow_eq_zero hne
      omega
    obtain ⟨m, hsole⟩ := F.exists_soleChild hview hlp hone
    obtain ⟨next, hnext⟩ := F.exists_of_soleChild view hsole
    obtain ⟨hsubs, -⟩ := F.soleChild_sees hview hsole hlp hnext
    have hnextBelow := Loop.perfectBelow_of_subLoops hsubs
    obtain ⟨d, sub, hchain, hsub, hend⟩ := ih hnext (by omega)
    exact ⟨d, sub, .head hsole hchain, hsub, hend⟩

/-- **Where the chain below a loop ends**: its `perfectLeaf` is the loop without children at its
end, if there is one. -/
theorem perfectLeaf_eq_some_iff (F : Forest f.loops) (hview : view ≠ .detached)
    (hlp : f.loop? view c = some lp) {leaf : Loop} :
    lp.perfectLeaf = some leaf ↔
      ∃ d, Relation.ReflTransGen (SoleChild f.loops) c d ∧ childrenAt f.loops d = some [] ∧
        f.loop? view d = some leaf := by
  constructor
  · intro hleaf
    obtain ⟨d, sub, hchain, hsub, hend⟩ := F.exists_chain_end hview hlp
    obtain ⟨-, -, hsame⟩ := F.along_chain hview hchain hlp hsub
    obtain ⟨e, he⟩ := exists_entry hsub
    have hlength := F.length_subLoops hview hsub (childrenAt_of_getElem? he)
    rw [← hsame] at hleaf
    -- At the end of the chain there is nothing inside, which makes a leaf, or more than one loop.
    cases hsubs : sub.subLoops with
    | nil =>
      rw [Loop.perfectLeaf_of_nil hsubs] at hleaf
      cases hleaf
      rw [hsubs, List.length_nil] at hlength
      refine ⟨d, hchain, ?_, hsub⟩
      rw [childrenAt_of_getElem? he, List.length_eq_zero_iff.mp hlength.symm]
    | cons first rest =>
      have hmany : 2 ≤ sub.subLoops.length := by
        rw [hsubs, List.length_cons] at hend ⊢
        omega
      rw [Loop.perfectLeaf_of_two_le hmany] at hleaf
      cases hleaf
  · rintro ⟨d, hchain, hnone, hleaf⟩
    obtain ⟨-, -, hsame⟩ := F.along_chain hview hchain hlp hleaf
    rw [← hsame]
    apply Loop.perfectLeaf_of_nil
    rw [F.subLoops_eq hview hleaf hnone, List.map_nil]

/-- A `perfectLeaf` lies as many levels deeper as `perfectBelow` counts, since nothing is below it.
-/
theorem depth_of_perfectLeaf (F : Forest f.loops) (hview : view ≠ .detached)
    (hlp : f.loop? view c = some lp) {leaf : Loop} (hleaf : lp.perfectLeaf = some leaf) :
    leaf.depth = lp.depth + lp.perfectBelow := by
  obtain ⟨d, hchain, hnone, hsub⟩ := (F.perfectLeaf_eq_some_iff hview hlp).mp hleaf
  obtain ⟨-, hdepth, -⟩ := F.along_chain hview hchain hlp hsub
  have hzero : leaf.perfectBelow = 0 := by
    apply Loop.perfectBelow_eq_zero
    rw [F.length_subLoops hview hsub hnone]
    simp
  omega

end Forest

end Coordinates

/-! ## §4 Functions that a script builds -/

namespace BuildStep

open BuildState

/-- The loops of a function that `runAll` builds form a `Forest`. -/
theorem forest_of_runAll {name : String} {steps : List BuildStep}
    {log : List (StepResult × BlockId)} {s : BuildState}
    (h : runAll ⟨Builder.start name, []⟩ steps = some (log, s)) : Forest s.builder.build.loops :=
  (sound_of_runAll (.start name) h).forest

/-- **Coordinates agree along every nest** of a function that a script builds. The `NestPosition` of
a loop lists the induction variables of the loop and of those around it, from the inside out, and
its depth is their number. A loop that stands alone in another reports the same `perfectChainLength`
as that one, and so do all loops of the chain. The `perfectLeaf` of a loop is the loop without
children at the end of the chain below it, if the chain ends in one, and lies as many levels deeper
as the loop counts below it. -/
theorem built_nests_consistent {name : String} {steps : List BuildStep}
    {log : List (StepResult × BlockId)} {s : BuildState}
    (h : runAll ⟨Builder.start name, []⟩ steps = some (log, s)) :
    let f := s.builder.build
    ∀ c < f.loops.length, ∃ lp, f.loop? .indexed c = some lp ∧
      (∃ path, Outwards f.loops c path ∧
        (NestPosition.of lp).nestIvs = path.map (ivAt f.loops) ∧
        (NestPosition.of lp).depth = (NestPosition.of lp).nestIvs.length ∧
        (NestPosition.of lp).depth = lp.depth) ∧
      (∀ p, parentAt f.loops c = some p → ∃ outer, f.loop? .indexed p = some outer ∧
        (outer.subLoops.length = 1 →
          (NestPosition.of outer).perfectChainLength =
            (NestPosition.of lp).perfectChainLength)) ∧
      (∀ d, Relation.ReflTransGen (SoleChild f.loops) c d →
        ∃ sub, f.loop? .indexed d = some sub ∧
          (NestPosition.of sub).perfectChainLength = (NestPosition.of lp).perfectChainLength) ∧
      (∀ leaf, lp.perfectLeaf = some leaf ↔
        ∃ d, Relation.ReflTransGen (SoleChild f.loops) c d ∧ childrenAt f.loops d = some [] ∧
          f.loop? .indexed d = some leaf) ∧
      ∀ leaf, lp.perfectLeaf = some leaf →
        leaf.depth = lp.depth + (NestPosition.of lp).perfectBelow := by
  intro f c hc
  have F : Forest f.loops := forest_of_runAll h
  have hview : LoopView.indexed ≠ .detached := by decide
  obtain ⟨lp, hlp, -⟩ := loop?_of_getElem? .indexed (List.getElem?_eq_getElem hc)
  refine ⟨lp, hlp, ?_, ?_, ?_, fun leaf => F.perfectLeaf_eq_some_iff hview hlp,
    fun leaf hleaf => F.depth_of_perfectLeaf hview hlp hleaf⟩
  · obtain ⟨path, hpath⟩ := F.exists_outwards hc
    refine ⟨path, hpath, F.nestIvs_eq hview hpath hlp, ?_, rfl⟩
    simp [NestPosition.of, Loop.depth]
  · intro p hparent
    obtain ⟨-, outer, -, houter, -⟩ := F.depth_eq_succ hview hparent
    refine ⟨outer, houter, fun hone => ?_⟩
    -- The only loop that stands in the outer one is this one.
    have hsole : SoleChild f.loops p c := F.soleChild_of_parent hview houter hparent hone
    exact (F.along_chain hview (.single hsole) houter hlp).1.symm
  · intro d hchain
    obtain ⟨sub, hsub⟩ := F.exists_of_chain hlp hchain
    exact ⟨sub, hsub, (F.along_chain hview hchain hlp hsub).1⟩

/-- A chain of three loops, and beside it one that contains two. -/
def chainAndFork : List BuildStep :=
  [.openLoop "i" (.int 8), .openLoop "j" (.int 8), .openLoop "k" (.int 8), .close 2, .close 1,
    .close 0, .openLoop "l" (.int 8), .openLoop "m" (.int 8), .close 4, .openLoop "n" (.int 8),
    .close 5, .close 3]

/-- The theorem at both nests of `chainAndFork`: the chain is as long for its innermost as for its
outermost loop, and ends there; the loop that contains two has no leaf. -/
theorem built_nests_consistent_chainAndFork :
    ∃ log s, runAll ⟨Builder.start "f", []⟩ chainAndFork = some (log, s) ∧
      ∃ outermost innermost fork,
        s.builder.build.loop? .indexed 0 = some outermost ∧
        s.builder.build.loop? .indexed 2 = some innermost ∧
        s.builder.build.loop? .indexed 3 = some fork ∧
        outermost.perfectLeaf = some innermost ∧ innermost.depth = outermost.depth + 2 ∧
        (NestPosition.of innermost).perfectChainLength =
          (NestPosition.of outermost).perfectChainLength ∧
        ∀ leaf, fork.perfectLeaf ≠ some leaf := by
  obtain ⟨log, s, h, hlength, hfirst, hsecond, hthird, hfork, hbelow⟩ :
      ∃ log s, runAll ⟨Builder.start "f", []⟩ chainAndFork = some (log, s) ∧
        s.builder.build.loops.length = 6 ∧
        SoleChild s.builder.build.loops 0 1 ∧ SoleChild s.builder.build.loops 1 2 ∧
        childrenAt s.builder.build.loops 2 = some [] ∧
        childrenAt s.builder.build.loops 3 = some [4, 5] ∧
        (s.builder.build.loop? .indexed 0).map Loop.perfectBelow = some 2 :=
    ⟨_, _, rfl, rfl, rfl, rfl, rfl, rfl, rfl⟩
  have hchain : Relation.ReflTransGen (SoleChild s.builder.build.loops) 0 2 :=
    .head hfirst (.single hsecond)
  obtain ⟨outermost, houtermost, -, -, hsame, hleaf, hdeeper⟩ :=
    built_nests_consistent h 0 (by omega)
  obtain ⟨innermost, hinnermost, hlengths⟩ := hsame 2 hchain
  obtain ⟨fork, hforkLoop, -, -, -, hforkLeaf, -⟩ := built_nests_consistent h 3 (by omega)
  have hend : outermost.perfectLeaf = some innermost :=
    (hleaf innermost).mpr ⟨2, hchain, hthird, hinnermost⟩
  refine ⟨log, s, h, outermost, innermost, fork, houtermost, hinnermost, hforkLoop, hend, ?_,
    hlengths, ?_⟩
  · rw [houtermost, Option.map_some, Option.some.injEq] at hbelow
    rw [hdeeper innermost hend, ← hbelow]
    rfl
  · intro leaf hsome
    obtain ⟨d, hdown, hnone, -⟩ := (hforkLeaf leaf).mp hsome
    -- No chain leads down from a fork, and the fork itself is not empty.
    rcases hdown.cases_head with rfl | ⟨m, hsole, -⟩
    · rw [hfork] at hnone
      cases hnone
    · rw [SoleChild, hfork] at hsole
      cases hsole

end BuildStep

end LoopAnalysis
