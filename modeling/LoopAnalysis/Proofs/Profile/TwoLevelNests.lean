import LoopAnalysis.Proofs.Profile.Nesting

/-!
# Nests of two loops

Whether a loop belongs to a nest of two is answered from its own counts. The inner loop of such a
nest is recognized exactly: it sees that it contains nothing, and that nothing stands beside it or
around its parent. The outer loop counts how far the chain of single loops reaches below it, and a
chain of one more level may end in a loop without children or in one with several.

## Main definitions

- `Forks`: several loops stand directly in a loop.

## Main statements

- `Forest.length_inside_eq_two_iff`: the trees of two loops;
- `Forest.isTwoLevelNest_of_root`, `Forest.isTwoLevelNest_of_parent`: the answer of an outermost
  loop and of any other;
- `BuildStep.two_level_nest_iff`: when the answer is the right one.
-/

namespace LoopAnalysis

/-- Two or more loops stand directly in a loop, by `childrenAt`. -/
def Forks (loops : List LoopEntry) (p : Nat) : Prop :=
  ∃ cs, childrenAt loops p = some cs ∧ 2 ≤ cs.length

variable {loops : List LoopEntry} {c d p t : Nat}

/-! ## §1 Trees of two loops -/

/-- Only an outermost loop itself is `Within` one for which `parentAt` has nothing. -/
theorem Within.eq_of_root (h : Within loops t c) (hroot : parentAt loops c = none) : t = c := by
  cases h with
  | refl => rfl
  | step hparent _ =>
    rw [hroot] at hparent
    cases hparent

theorem Within.of_parent (h : Within loops t c) (hparent : parentAt loops c = some p)
    (hroot : parentAt loops t = none) : Within loops t p := by
  cases h with
  | refl =>
    rw [hroot] at hparent
    cases hparent
  | step hparent' hin =>
    rw [hparent] at hparent'
    cases hparent'
    exact hin

namespace Forest

/-- The size of a tree, which `inside` lists, is one more than that of the trees of the children. -/
theorem length_inside_eq (F : Forest loops) {cs : List Nat} (hcs : childrenAt loops c = some cs) :
    (inside loops c).length = (cs.flatMap (inside loops)).length + 1 := by
  obtain ⟨e, he, rfl⟩ := Option.map_eq_some_iff.mp hcs
  rw [F.inside_eq he, List.length_cons]

/-- No tree is empty. -/
theorem length_inside_pos (F : Forest loops) {cs : List Nat} (hcs : childrenAt loops c = some cs)
    (hd : d ∈ cs) : 0 < (inside loops d).length := by
  have hlt := lt_length_of_parentAt ((F.mem_children_iff hcs).mp hd)
  exact List.length_pos_of_mem (mem_inside_iff.mpr ⟨hlt, .refl⟩)

/-- A tree of one loop is a loop for which `childrenAt` lists nothing. -/
theorem length_inside_eq_one_iff (F : Forest loops) {cs : List Nat}
    (hcs : childrenAt loops c = some cs) : (inside loops c).length = 1 ↔ cs = [] := by
  rw [F.length_inside_eq hcs]
  cases cs with
  | nil => simp
  | cons d ds =>
    have hpos := F.length_inside_pos hcs List.mem_cons_self
    simp only [List.flatMap_cons, List.length_append, reduceCtorEq, iff_false]
    omega

theorem exists_childrenAt (hc : c < loops.length) : ∃ cs, childrenAt loops c = some cs :=
  ⟨_, childrenAt_of_getElem? (List.getElem?_eq_getElem hc)⟩

/-- **A tree of two loops** is a loop with a `SoleChild` that has no children. -/
theorem length_inside_eq_two_iff (F : Forest loops) (ht : t < loops.length) :
    (inside loops t).length = 2 ↔
      ∃ d, SoleChild loops t d ∧ childrenAt loops d = some [] := by
  obtain ⟨cs, hcs⟩ := exists_childrenAt ht
  rw [F.length_inside_eq hcs]
  unfold SoleChild
  rw [hcs]
  -- Without a child the tree is too small, and with two it has three loops at least.
  match cs with
  | [] => simp
  | [d] =>
    have hd := lt_length_of_parentAt (F.parentAt_of_soleChild hcs)
    obtain ⟨ds, hds⟩ := exists_childrenAt hd
    have hone := F.length_inside_eq_one_iff hds
    simp only [List.flatMap_cons, List.flatMap_nil, List.append_nil, Option.some.injEq,
      List.cons.injEq, and_true, exists_eq_left', hds]
    rw [← hone]
    omega
  | d :: d' :: ds =>
    have hpos := F.length_inside_pos hcs (d := d) List.mem_cons_self
    have hpos' := F.length_inside_pos hcs (d := d') (List.mem_cons_of_mem d List.mem_cons_self)
    simp only [List.flatMap_cons, List.length_append, Option.some.injEq, List.cons.injEq,
      reduceCtorEq, and_false, false_and, exists_false, iff_false]
    omega

/-- The loops of such a tree are its root and the `SoleChild`. -/
theorem eq_of_within_sole (F : Forest loops) (hin : Within loops t c) (hsole : SoleChild loops t d)
    (hnone : childrenAt loops d = some []) (hne : c ≠ t) : c = d := by
  obtain rfl | ⟨d', hd', hin'⟩ := hin.eq_or_child
  · exact absurd rfl hne
  · obtain rfl : d' = d := List.mem_singleton.mp ((F.mem_children_iff hsole).mpr hd')
    obtain rfl | ⟨x, hx, -⟩ := hin'.eq_or_child
    · rfl
    · exact absurd ((F.mem_children_iff hnone).mpr hx) List.not_mem_nil

end Forest

/-! ## §2 What a loop answers -/

section Answers

variable {f : Function} {view : LoopView} {lp : Loop}

/-- The two answers that `isTwoLevelNest` accepts, of an inner and of an outer loop. -/
theorem NestPosition.isTwoLevelNest_iff (n : NestPosition) :
    n.isTwoLevelNest = true ↔
      (n.depth = 2 ∧ n.subLoopCount = 0 ∧ n.perfectAbove = 1) ∨
        (n.depth = 1 ∧ n.perfectBelow = 1 ∧ n.subLoopCount = 1) := by
  simp only [isTwoLevelNest, isInnermost, Bool.or_eq_true, Bool.and_eq_true, beq_iff_eq, and_assoc]

namespace Forest

theorem enclosing_eq_nil_iff (F : Forest f.loops) (hview : view ≠ .detached)
    (hlp : f.loop? view c = some lp) : lp.enclosing = [] ↔ parentAt f.loops c = none := by
  refine ⟨fun hnil => ?_, F.enclosing_of_root hview hlp⟩
  cases hparent : parentAt f.loops c with
  | none => rfl
  | some p =>
    obtain ⟨-, outer, -, houter, -⟩ := F.depth_eq_succ hview hparent
    obtain ⟨header, haround⟩ := F.enclosing_of_parent hview hlp houter hparent
    rw [hnil] at haround
    cases haround

/-- **An outermost loop** says yes in `isTwoLevelNest` if it contains one loop, in which not exactly
one loop stands. -/
theorem isTwoLevelNest_of_root (F : Forest f.loops) (hview : view ≠ .detached)
    (hlp : f.loop? view c = some lp) (hroot : parentAt f.loops c = none) :
    (NestPosition.of lp).isTwoLevelNest = true ↔
      ∃ d cs, SoleChild f.loops c d ∧ childrenAt f.loops d = some cs ∧ cs.length ≠ 1 := by
  have hdepth : lp.depth = 1 := by
    rw [Loop.depth, F.enclosing_of_root hview hlp hroot, List.length_nil]
  rw [NestPosition.isTwoLevelNest_iff]
  simp only [NestPosition.of, hdepth]
  constructor
  · rintro (⟨htwo, -⟩ | ⟨-, hbelow, hone⟩)
    · omega
    · obtain ⟨d, hsole⟩ := F.exists_soleChild hview hlp hone
      obtain ⟨sub, hsub⟩ := F.exists_of_soleChild view hsole
      obtain ⟨hsubs, -⟩ := F.soleChild_sees hview hsole hlp hsub
      obtain ⟨e, he⟩ := exists_entry hsub
      have hcs := childrenAt_of_getElem? he
      refine ⟨d, e.children, hsole, hcs, fun hchain => ?_⟩
      -- A chain that went on would be counted.
      rw [← F.length_subLoops hview hsub hcs] at hchain
      obtain ⟨next, hnext⟩ := List.length_eq_one_iff.mp hchain
      rw [Loop.perfectBelow_of_subLoops hsubs, Loop.perfectBelow_of_subLoops hnext] at hbelow
      omega
  · rintro ⟨d, cs, hsole, hcs, hend⟩
    obtain ⟨sub, hsub⟩ := F.exists_of_soleChild view hsole
    obtain ⟨hsubs, -⟩ := F.soleChild_sees hview hsole hlp hsub
    rw [← F.length_subLoops hview hsub hcs] at hend
    rw [Loop.perfectBelow_of_subLoops hsubs, Loop.perfectBelow_eq_zero hend, hsubs]
    exact .inr ⟨trivial, rfl, rfl⟩

/-- **Any other loop** says yes in `isTwoLevelNest` if it is the `SoleChild` of an outermost loop
and contains nothing. -/
theorem isTwoLevelNest_of_parent (F : Forest f.loops) (hview : view ≠ .detached)
    (hlp : f.loop? view c = some lp) (hparent : parentAt f.loops c = some p) :
    (NestPosition.of lp).isTwoLevelNest = true ↔
      parentAt f.loops p = none ∧ SoleChild f.loops p c ∧ childrenAt f.loops c = some [] := by
  obtain ⟨-, outer, -, houter, -⟩ := F.depth_eq_succ hview hparent
  obtain ⟨header, haround⟩ := F.enclosing_of_parent hview hlp houter hparent
  obtain ⟨e, he⟩ := exists_entry hlp
  have hcs := childrenAt_of_getElem? he
  have hcount := F.length_subLoops hview hlp hcs
  rw [NestPosition.isTwoLevelNest_iff]
  simp only [NestPosition.of, Loop.depth, haround, List.length_cons]
  constructor
  · rintro (⟨hdepth, hnone, habove⟩ | ⟨hdepth, -⟩)
    · have hroot : outer.enclosing = [] := List.length_eq_zero_iff.mp (by omega)
      -- The count above stops at the parent if something else stands in it.
      have hone : outer.subLoops.length = 1 := by
        by_contra hne
        simp [hne] at habove
      refine ⟨(F.enclosing_eq_nil_iff hview houter).mp hroot,
        F.soleChild_of_parent hview houter hparent hone, ?_⟩
      rw [hcs, List.length_eq_zero_iff.mp (hcount.symm.trans hnone)]
    · omega
  · rintro ⟨hroot, hsole, hnone⟩
    have hleaf : e.children = [] := Option.some.inj (hcs.symm.trans hnone)
    obtain ⟨hsubs, -⟩ := F.soleChild_sees hview hsole houter hlp
    left
    rw [F.enclosing_of_root hview houter hroot, hcount, hleaf, hsubs]
    exact ⟨rfl, rfl, rfl⟩

/-- The answer of `isTwoLevelNest` is yes in a tree of two loops, and for an outermost loop whose
only child `Forks`. -/
theorem isTwoLevelNest_iff (F : Forest f.loops) (hview : view ≠ .detached)
    (hlp : f.loop? view c = some lp) (hroot : parentAt f.loops t = none)
    (hin : Within f.loops t c) :
    (NestPosition.of lp).isTwoLevelNest = true ↔
      (inside f.loops t).length = 2 ∨
        c = t ∧ ∃ d, SoleChild f.loops t d ∧ Forks f.loops d := by
  have hc : c < f.loops.length := (List.getElem?_eq_some_iff.mp (exists_entry hlp).choose_spec).1
  have ht : t < f.loops.length := Nat.lt_of_le_of_lt (F.le_of_within hin) hc
  rw [F.length_inside_eq_two_iff ht]
  cases hparent : parentAt f.loops c with
  -- The loop is the root of its tree.
  | none =>
    obtain rfl := hin.eq_of_root hparent
    rw [F.isTwoLevelNest_of_root hview hlp hroot]
    constructor
    · rintro ⟨d, cs, hsole, hcs, hend⟩
      cases cs with
      | nil => exact .inl ⟨d, hsole, hcs⟩
      | cons first rest =>
        refine .inr ⟨rfl, d, hsole, first :: rest, hcs, ?_⟩
        rw [List.length_cons] at hend ⊢
        omega
    · rintro (⟨d, hsole, hnone⟩ | ⟨-, d, hsole, cs, hcs, hmany⟩)
      · exact ⟨d, [], hsole, hnone, by simp⟩
      · exact ⟨d, cs, hsole, hcs, by omega⟩
  -- The loop stands in another, so it is not the root, and cannot be the loop above a fork.
  | some p =>
    rw [F.isTwoLevelNest_of_parent hview hlp hparent]
    have houter := hin.of_parent hparent hroot
    have hne : c ≠ t := by
      rintro rfl
      rw [hroot] at hparent
      cases hparent
    constructor
    · rintro ⟨hpRoot, hsole, hnone⟩
      obtain rfl := houter.eq_of_root hpRoot
      exact .inl ⟨c, hsole, hnone⟩
    · rintro (⟨d, hsole, hnone⟩ | ⟨heq, -⟩)
      · obtain rfl := F.eq_of_within_sole hin hsole hnone hne
        obtain rfl : p = t :=
          Option.some.inj (hparent.symm.trans (F.parentAt_of_soleChild hsole))
        exact ⟨hroot, hsole, hnone⟩
      · exact absurd heq hne

/-- The two loops of a chain agree unless the lower one `Forks`. -/
theorem isTwoLevelNest_agree_iff (F : Forest f.loops) (hview : view ≠ .detached)
    (hroot : parentAt f.loops t = none) (hsole : SoleChild f.loops t d) {root child : Loop}
    (hlp : f.loop? view t = some root) (hchild : f.loop? view d = some child) :
    (NestPosition.of root).isTwoLevelNest = (NestPosition.of child).isTwoLevelNest ↔
      ¬ Forks f.loops d := by
  have hparent := F.parentAt_of_soleChild hsole
  have hne : d ≠ t := Nat.ne_of_gt (F.parent_lt hparent)
  have ht : t < f.loops.length := Nat.lt_trans (F.parent_lt hparent) (lt_length_of_parentAt hparent)
  have hsame : ∀ d', SoleChild f.loops t d' → d' = d := by
    intro d' hsole'
    have hlists := Option.some.inj (hsole'.symm.trans hsole)
    exact (List.cons.inj hlists).1
  -- A tree of two loops has no room for a fork.
  have hdisjoint : (inside f.loops t).length = 2 → ¬ Forks f.loops d := by
    rintro htwo ⟨cs, hcs, hmany⟩
    obtain ⟨d', hsole', hnone⟩ := (F.length_inside_eq_two_iff ht).mp htwo
    rw [hsame d' hsole', hcs, Option.some.injEq] at hnone
    rw [hnone] at hmany
    cases hmany
  rw [Bool.eq_iff_iff, F.isTwoLevelNest_iff hview hlp hroot .refl,
    F.isTwoLevelNest_iff hview hchild hroot (.step hparent .refl)]
  constructor
  · intro hagree hforks
    rcases hagree.mp (.inr ⟨rfl, d, hsole, hforks⟩) with htwo | ⟨heq, -⟩
    · exact hdisjoint htwo hforks
    · exact hne heq
  · intro hforks
    constructor
    · rintro (htwo | ⟨-, d', hsole', hforks'⟩)
      · exact .inl htwo
      · rw [hsame d' hsole'] at hforks'
        exact absurd hforks' hforks
    · rintro (htwo | ⟨heq, -⟩)
      · exact .inl htwo
      · exact absurd heq hne

end Forest

end Answers

/-! ## §3 Functions that a script builds -/

namespace BuildStep

/-- **When a nest of two loops is recognized**, in every function that a script builds. A loop says
in `isTwoLevelNest` that it belongs to a nest of two exactly if the tree it stands in, from its
outermost loop `t` down, has two loops, which is a root with one child that has no children; or if
it is outermost and its only child `Forks`. So an outermost loop and its only child give the same
answer exactly if that child does not contain two loops or more. -/
theorem two_level_nest_iff {name : String} {steps : List BuildStep}
    {log : List (StepResult × BlockId)} {s : BuildState}
    (h : runAll ⟨Builder.start name, []⟩ steps = some (log, s)) :
    let f := s.builder.build
    (∀ c < f.loops.length, ∃ lp t, f.loop? .indexed c = some lp ∧
      parentAt f.loops t = none ∧ Within f.loops t c ∧
      ((inside f.loops t).length = 2 ↔
        ∃ d, SoleChild f.loops t d ∧ childrenAt f.loops d = some []) ∧
      ((NestPosition.of lp).isTwoLevelNest = true ↔
        (inside f.loops t).length = 2 ∨
          c = t ∧ ∃ d, SoleChild f.loops t d ∧ Forks f.loops d)) ∧
    ∀ t d, parentAt f.loops t = none → SoleChild f.loops t d →
      ∃ root child, f.loop? .indexed t = some root ∧ f.loop? .indexed d = some child ∧
        ((NestPosition.of root).isTwoLevelNest = (NestPosition.of child).isTwoLevelNest ↔
          ¬ Forks f.loops d) := by
  intro f
  have F : Forest f.loops := forest_of_runAll h
  have hview : LoopView.indexed ≠ .detached := by decide
  constructor
  · intro c hc
    obtain ⟨lp, hlp, -⟩ := loop?_of_getElem? .indexed (List.getElem?_eq_getElem hc)
    obtain ⟨t, ht, hroot, hin⟩ := F.exists_root hc
    exact ⟨lp, t, hlp, hroot, hin, F.length_inside_eq_two_iff ht,
      F.isTwoLevelNest_iff hview hlp hroot hin⟩
  · intro t d hroot hsole
    have ht : t < f.loops.length := by
      obtain ⟨e, he, -⟩ := Option.map_eq_some_iff.mp hsole
      exact (List.getElem?_eq_some_iff.mp he).1
    obtain ⟨root, hlp, -⟩ := loop?_of_getElem? .indexed (List.getElem?_eq_getElem ht)
    obtain ⟨child, hchild⟩ := F.exists_of_soleChild .indexed hsole
    exact ⟨root, child, hlp, hchild, F.isTwoLevelNest_agree_iff hview hroot hsole hlp hchild⟩

/-- `for i: for j`, and nothing else. -/
def pair : List BuildStep :=
  [.openLoop "i" (.int 8), .openLoop "j" (.int 8), .close 1, .close 0]

/-- The theorem at the nest of `pair`: both loops say so. -/
theorem two_level_nest_pair :
    ∃ log s, runAll ⟨Builder.start "f", []⟩ pair = some (log, s) ∧
      ∃ root child, s.builder.build.loop? .indexed 0 = some root ∧
        s.builder.build.loop? .indexed 1 = some child ∧
        (NestPosition.of root).isTwoLevelNest = true ∧
        (NestPosition.of child).isTwoLevelNest = true := by
  obtain ⟨log, s, h, hlength, hroot, hparent, hsole, hnone⟩ :
      ∃ log s, runAll ⟨Builder.start "f", []⟩ pair = some (log, s) ∧
        s.builder.build.loops.length = 2 ∧ parentAt s.builder.build.loops 0 = none ∧
        parentAt s.builder.build.loops 1 = some 0 ∧ SoleChild s.builder.build.loops 0 1 ∧
        childrenAt s.builder.build.loops 1 = some [] :=
    ⟨_, _, rfl, rfl, rfl, rfl, rfl, rfl⟩
  obtain ⟨hanswer, hagree⟩ := two_level_nest_iff h
  obtain ⟨root, child, hlp, hchild, hsame⟩ := hagree 0 1 hroot hsole
  obtain ⟨lp, t, hlp', htop, hin, htwo, hiff⟩ := hanswer 1 (by omega)
  obtain rfl : lp = child := Option.some.inj (hlp'.symm.trans hchild)
  obtain rfl : t = 0 := (hin.of_parent hparent htop).eq_of_root hroot
  have hyes : (NestPosition.of lp).isTwoLevelNest = true :=
    hiff.mpr (.inl (htwo.mpr ⟨1, hsole, hnone⟩))
  have hplain : ¬ Forks s.builder.build.loops 1 := by
    rintro ⟨cs, hcs, hmany⟩
    cases hnone.symm.trans hcs
    cases hmany
  exact ⟨log, s, h, root, lp, hlp, hchild, (hsame.mpr hplain).trans hyes, hyes⟩

/-- `for i: for j: { for k; for l }`. -/
def forkBelow : List BuildStep :=
  [.openLoop "i" (.int 8), .openLoop "j" (.int 8), .openLoop "k" (.int 8), .close 2,
    .openLoop "l" (.int 8), .close 3, .close 1, .close 0]

/-- **A nest of four loops is taken for one of two**: the outermost loop of `forkBelow` contains one
loop, in which two stand beside each other. The outermost loop says that it belongs to a nest of
two, its only child denies it. -/
theorem forkBelow_taken_for_two :
    ∃ log s, runAll ⟨Builder.start "f", []⟩ forkBelow = some (log, s) ∧
      parentAt s.builder.build.loops 0 = none ∧ SoleChild s.builder.build.loops 0 1 ∧
      (inside s.builder.build.loops 0).length = 4 ∧
      ∃ root child, s.builder.build.loop? .indexed 0 = some root ∧
        s.builder.build.loop? .indexed 1 = some child ∧
        (NestPosition.of root).isTwoLevelNest = true ∧
        (NestPosition.of child).isTwoLevelNest = false := by
  obtain ⟨log, s, h, hroot, hsole, hfork, hk, hl, hanswers⟩ :
      ∃ log s, runAll ⟨Builder.start "f", []⟩ forkBelow = some (log, s) ∧
        parentAt s.builder.build.loops 0 = none ∧ SoleChild s.builder.build.loops 0 1 ∧
        childrenAt s.builder.build.loops 1 = some [2, 3] ∧
        childrenAt s.builder.build.loops 2 = some [] ∧
        childrenAt s.builder.build.loops 3 = some [] ∧
        ∃ root child, s.builder.build.loop? .indexed 0 = some root ∧
          s.builder.build.loop? .indexed 1 = some child ∧
          (NestPosition.of root).isTwoLevelNest = true ∧
          (NestPosition.of child).isTwoLevelNest = false :=
    ⟨_, _, rfl, rfl, rfl, rfl, rfl, rfl, _, _, rfl, rfl, rfl, rfl⟩
  have F : Forest s.builder.build.loops := forest_of_runAll h
  have hinnermost : (inside s.builder.build.loops 2).length = 1 ∧
      (inside s.builder.build.loops 3).length = 1 :=
    ⟨(F.length_inside_eq_one_iff hk).mpr rfl, (F.length_inside_eq_one_iff hl).mpr rfl⟩
  refine ⟨log, s, h, hroot, hsole, ?_, hanswers⟩
  rw [F.length_inside_eq hsole]
  simp [F.length_inside_eq hfork, hinnermost]

end BuildStep

end LoopAnalysis
