import LoopAnalysis.Proofs.Program.Links
import Mathlib.Data.List.Sort

/-!
# Loop forests

A function keeps its loops in a list and links them by position. Where every loop comes after the
one around it, and everything recorded between the two lies inside as well, the list is the forest
written down in the order in which a walk from the outside in meets its loops.

## Main definitions

- `Forest`: the links of such a list agree with each other and with its order;
- `Within`: one loop is another or lies inside it, at any depth.

## Main statements

- `Forest.wellLinked`: the links of a forest are in order;
- `Forest.preorder_eq_range`: a walk through the forest meets the loops in the order of the list;
- `Forest.loopsInOrder_eq`: and gives every loop of the function, in that order;
- `Forest.enclosing_eq`, `Forest.depth_eq_succ`: the loops around a loop and the loop it stands in.
-/

namespace LoopAnalysis

/-- Loops recorded in the order in which a walk from the outside in meets them. -/
structure Forest (loops : List LoopEntry) : Prop where
  parent_lt : ∀ {c p : Nat}, parentAt loops c = some p → p < c
  mem_children_iff : ∀ {p : Nat} {cs : List Nat}, childrenAt loops p = some cs →
    ∀ {c : Nat}, c ∈ cs ↔ parentAt loops c = some p
  ascending : ∀ {p : Nat} {cs : List Nat}, childrenAt loops p = some cs → cs.Pairwise (· < ·)
  /-- What is recorded between a loop and one directly inside it lies inside it, too. -/
  between : ∀ {c p j : Nat}, parentAt loops c = some p → p < j → j < c →
    ∃ q, parentAt loops j = some q ∧ p ≤ q

/-- The loop at the index is the one at `p` or lies inside it. -/
inductive Within (loops : List LoopEntry) (p : Nat) : Nat → Prop where
  | refl : Within loops p p
  | step {c q : Nat} : parentAt loops c = some q → Within loops p q → Within loops p c

variable {loops : List LoopEntry} {c p q : Nat} {e : LoopEntry}

/-! ## §1 Loops inside a loop -/

namespace Within

theorem trans {m : Nat} (hout : Within loops p m) (hin : Within loops m c) : Within loops p c := by
  induction hin with
  | refl => exact hout
  | step hparent _ ih => exact .step hparent ih

/-- Seen from the outside: a loop `Within` another is that one or lies in a child of it. -/
theorem eq_or_child (h : Within loops p c) :
    c = p ∨ ∃ d, parentAt loops d = some p ∧ Within loops d c := by
  -- Steps lead outwards one level at a time, so the child is that of the last of them.
  induction h with
  | refl => exact .inl rfl
  | @step c q hparent _ ih =>
    rcases ih with rfl | ⟨d, hd, hin⟩
    · exact .inr ⟨c, hparent, .refl⟩
    · exact .inr ⟨d, hd, .step hparent hin⟩

theorem lt_length (h : Within loops p c) (hp : p < loops.length) : c < loops.length := by
  cases h with
  | refl => exact hp
  | step hparent _ => exact lt_length_of_parentAt hparent

end Within

namespace Forest

/-- Only the links matter: with the same `parentAt` and `childrenAt` another list is a forest, too.
-/
theorem congr {loops' : List LoopEntry} (F : Forest loops)
    (hparent : parentAt loops' = parentAt loops)
    (hchildren : childrenAt loops' = childrenAt loops) : Forest loops' where
  parent_lt := by
    rw [hparent]
    exact F.parent_lt
  mem_children_iff := by
    rw [hparent, hchildren]
    exact F.mem_children_iff
  ascending := by
    rw [hchildren]
    exact F.ascending
  between := by
    rw [hparent]
    exact F.between

/-- The links of a forest are in order: they lead up and down in the order of the list. -/
theorem wellLinked (F : Forest loops) : WellLinked loops := by
  have hdown : ∀ {c p}, parentAt loops c = some p → p < c ∧ c < loops.length := fun h =>
    ⟨F.parent_lt h, lt_length_of_parentAt h⟩
  apply WellLinked.of_rank id
  · intro c p hparent
    have hlt := hdown hparent
    exact ⟨hlt.1.trans hlt.2, hlt.1⟩
  · rintro p c ⟨cs, hcs, hc⟩
    have hlt := hdown ((F.mem_children_iff hcs).mp hc)
    exact ⟨hlt.2, hlt.1⟩

theorem le_of_within (F : Forest loops) (h : Within loops p c) : p ≤ c := by
  induction h with
  | refl => exact Nat.le_refl p
  | step hparent _ ih => exact Nat.le_trans ih (Nat.le_of_lt (F.parent_lt hparent))

/-- **Loops inside a loop are recorded together**: once a loop outside of it is recorded, nothing
inside it follows. -/
theorem lt_of_within (F : Forest loops) {x : Nat} (hlt : p < c)
    (hout : ∀ q, parentAt loops c = some q → q < p) (h : Within loops p x) : x < c := by
  -- Induct on the way outwards from `x` to `p`.
  induction h with
  | refl => exact hlt
  | @step x q hparent hin ih =>
    have hpq : p ≤ q := F.le_of_within hin
    -- The loop around `x` comes before `c`. If `x` came after it, `c` would lie inside as well.
    rcases Nat.lt_trichotomy x c with hx | rfl | hx
    · exact hx
    · exact absurd (hout q hparent) (by omega)
    · obtain ⟨r, hr, hqr⟩ := F.between hparent ih hx
      exact absurd (hout r hr) (by omega)

theorem exists_root (F : Forest loops) (hc : c < loops.length) :
    ∃ t, t < loops.length ∧ parentAt loops t = none ∧ Within loops t c := by
  -- Parents come earlier in the list.
  induction c using Nat.strongRecOn with
  | ind c ih =>
    cases hparent : parentAt loops c with
    | none => exact ⟨c, hc, hparent, .refl⟩
    | some p =>
      have hp := F.parent_lt hparent
      obtain ⟨t, ht, hroot, hin⟩ := ih p hp (by omega)
      exact ⟨t, ht, hroot, .step hparent hin⟩

end Forest

/-! ## §2 A walk through the forest -/

section Walk

open Classical in
/-- The positions of the loop at `p` and of all loops inside it, in the order of the list. -/
noncomputable def inside (loops : List LoopEntry) (p : Nat) : List Nat :=
  (List.range loops.length).filter (Within loops p)

theorem mem_inside_iff : c ∈ inside loops p ↔ c < loops.length ∧ Within loops p c := by
  simp [inside]

theorem pairwise_inside : (inside loops p).Pairwise (· < ·) := List.pairwise_lt_range.filter _

/-- The lists `inside` of loops that stand beside each other ascend when put in a row. -/
private theorem pairwise_flatMap_inside (F : Forest loops) {ts : List Nat}
    (hascending : ts.Pairwise (· < ·))
    (hbeside : ∀ s ∈ ts, ∀ t ∈ ts, ∀ q, parentAt loops t = some q → q < s) :
    (ts.flatMap (inside loops)).Pairwise (· < ·) := by
  refine List.pairwise_flatMap.mpr ⟨fun _ _ => pairwise_inside, ?_⟩
  refine hascending.imp_of_mem fun {s t} hs ht hlt x hx y hy => ?_
  have hxt : x < t := F.lt_of_within hlt (hbeside s hs t ht) (mem_inside_iff.mp hx).2
  exact Nat.lt_of_lt_of_le hxt (F.le_of_within (mem_inside_iff.mp hy).2)

/-- What is `inside` a loop is the loop itself and what is inside its children. -/
theorem Forest.inside_eq (F : Forest loops) (he : loops[p]? = some e) :
    inside loops p = p :: e.children.flatMap (inside loops) := by
  have hp : p < loops.length := (List.getElem?_eq_some_iff.mp he).1
  have hcs := childrenAt_of_getElem? he
  have hchild : ∀ c, c ∈ e.children ↔ parentAt loops c = some p := fun _ => F.mem_children_iff hcs
  -- Both sides ascend, so that it is enough to compare their members.
  refine pairwise_inside.eq_of_mem_iff (List.pairwise_cons.mpr ⟨?_, ?_⟩) fun x => ?_
  · intro x hx
    obtain ⟨c, hc, hx⟩ := List.mem_flatMap.mp hx
    exact Nat.lt_of_lt_of_le (F.parent_lt ((hchild c).mp hc))
      (F.le_of_within (mem_inside_iff.mp hx).2)
  · apply pairwise_flatMap_inside F (F.ascending hcs)
    intro s hs t ht q hq
    rw [(hchild t).mp ht] at hq
    cases hq
    exact F.parent_lt ((hchild s).mp hs)
  · simp only [List.mem_cons, List.mem_flatMap, mem_inside_iff, hchild]
    constructor
    · rintro ⟨hx, hin⟩
      -- From left to right, a loop inside another one lies in a child of it.
      rcases hin.eq_or_child with rfl | ⟨d, hd, hin⟩
      · exact .inl rfl
      · exact .inr ⟨d, hd, hx, hin⟩
    · rintro (rfl | ⟨d, hd, hx, hin⟩)
      · exact ⟨hp, .refl⟩
      · exact ⟨hx, Within.trans (.step hd .refl) hin⟩

private theorem mapM_eq_ok {α β ε : Type} {g : α → Except ε β} {k : α → β} {xs : List α}
    (h : ∀ x ∈ xs, g x = .ok (k x)) : xs.mapM g = .ok (xs.map k) := by
  induction xs with
  | nil => rfl
  | cons x xs ih =>
    rw [List.mapM_cons, h x List.mem_cons_self, ih fun y hy => h y (List.mem_cons_of_mem x hy)]
    rfl

variable {f : Function}

/-- A walk by `preorderFrom` meets a loop and everything inside it in the order of the list. -/
theorem Forest.preorderFrom_eq (F : Forest f.loops) {levels : Nat} (hp : p < f.loops.length)
    (hlevels : f.loops.length ≤ p + levels) :
    f.preorderFrom levels p = .ok (inside f.loops p) := by
  -- Induct on the levels left; they suffice as long as they reach to the end of the list.
  induction levels generalizing p with
  | zero => omega
  | succ levels ih =>
    obtain ⟨e, he⟩ : ∃ e, f.loops[p]? = some e := ⟨_, List.getElem?_eq_getElem hp⟩
    have hbelow : e.children.mapM (f.preorderFrom levels) =
        .ok (e.children.map (inside f.loops)) := by
      apply mapM_eq_ok
      intro c hc
      have hparent := (F.mem_children_iff (childrenAt_of_getElem? he)).mp hc
      -- A loop further in comes later in the list, so one level less is enough.
      have hpc := F.parent_lt hparent
      exact ih (lt_length_of_parentAt hparent) (by omega)
    simp only [Function.preorderFrom, he, hbelow]
    rw [F.inside_eq he, List.flatMap_def]
    rfl

theorem mem_topLevel_iff : c ∈ f.topLevel ↔ c < f.loops.length ∧ parentAt f.loops c = none := by
  simp only [Function.topLevel, List.mem_map, List.mem_filter, Prod.exists,
    List.mem_zipIdx_iff_getElem?, exists_eq_right, Option.isNone_iff_eq_none]
  constructor
  · rintro ⟨e, he, hnone⟩
    exact ⟨(List.getElem?_eq_some_iff.mp he).1, by rw [parentAt_of_getElem? he, hnone]⟩
  · rintro ⟨hc, hnone⟩
    have he := List.getElem?_eq_getElem hc
    exact ⟨_, he, by rw [← hnone, parentAt_of_getElem? he]⟩

theorem pairwise_topLevel : f.topLevel.Pairwise (· < ·) := by
  have hzip : (f.loops.zipIdx.map (·.2)).Pairwise (· < ·) := by
    rw [List.zipIdx_map_snd]
    exact List.pairwise_lt_range'
  exact hzip.sublist (List.filter_sublist.map _)

/-- **Walking a forest is reading its list**: `preorder` meets every loop exactly once, in the order
in which it was recorded. -/
theorem Forest.preorder_eq_range (F : Forest f.loops) :
    f.preorder = .ok (List.range f.loops.length) := by
  have htrees : f.topLevel.mapM (f.preorderFrom f.loops.length) =
      .ok (f.topLevel.map (inside f.loops)) := by
    apply mapM_eq_ok
    intro t ht
    exact F.preorderFrom_eq (mem_topLevel_iff.mp ht).1 (by omega)
  -- Every loop lies in exactly one of the trees at the top.
  have hall : f.topLevel.flatMap (inside f.loops) = List.range f.loops.length := by
    refine List.Pairwise.eq_of_mem_iff ?_ List.pairwise_lt_range fun x => ?_
    · apply pairwise_flatMap_inside F pairwise_topLevel
      intro s _ t ht q hq
      rw [(mem_topLevel_iff.mp ht).2] at hq
      cases hq
    · simp only [List.mem_flatMap, mem_inside_iff, mem_topLevel_iff, List.mem_range]
      constructor
      · rintro ⟨t, -, hx, -⟩
        exact hx
      · intro hx
        obtain ⟨t, ht, hroot, hin⟩ := F.exists_root hx
        exact ⟨t, ⟨ht, hroot⟩, hx, hin⟩
  unfold Function.preorder
  rw [htrees, ← hall, List.flatMap_def]
  rfl

end Walk

/-! ## §3 Loops and the loops around them -/

section Loops

variable {f : Function} {view : LoopView}

/-- There is a loop at every position of the list, whichever `view` is taken. -/
theorem loop?_of_getElem? (view : LoopView) (he : f.loops[c]? = some e) :
    ∃ lp, f.loop? view c = some lp ∧ lp.toLoopBody = f.body view e ∧
      lp.enclosing =
        if view = .detached then [] else f.enclosingFrom view f.loops.length e.parent := by
  have hc : c < f.loops.length := (List.getElem?_eq_some_iff.mp he).1
  obtain ⟨levels, hlevels⟩ : ∃ levels, f.loops.length = levels + 1 :=
    ⟨f.loops.length - 1, by omega⟩
  simp only [Function.loop?, hlevels, Function.loopAt, he, bind, Option.bind_some]
  exact ⟨_, rfl, rfl, rfl⟩

theorem enclosingFrom_some (he : f.loops[p]? = some e) (fuel : Nat) :
    f.enclosingFrom view (fuel + 1) (some p) =
      ⟨e.header, e.inductionVariable, f.subLoopCount view e⟩ ::
        f.enclosingFrom view fuel e.parent := by
  simp [Function.enclosingFrom, he]

/-- More levels than there are loops around a loop add nothing to `enclosingFrom`. -/
theorem Forest.enclosingFrom_eq (F : Forest f.loops) {m n : Nat} {parent : Option Nat}
    (hm : ∀ p, parent = some p → p < m) (hn : ∀ p, parent = some p → p < n) :
    f.enclosingFrom view m parent = f.enclosingFrom view n parent := by
  -- Both walks take the same step outwards, and the next parent is smaller still.
  induction m generalizing n parent with
  | zero =>
    cases parent with
    | none => simp [Function.enclosingFrom]
    | some p => exact absurd (hm p rfl) (by omega)
  | succ m ih =>
    cases parent with
    | none => simp [Function.enclosingFrom]
    | some p =>
      have hpm := hm p rfl
      have hpn := hn p rfl
      obtain ⟨n, rfl⟩ : ∃ k, n = k + 1 := ⟨n - 1, by omega⟩
      cases he : f.loops[p]? with
      | none => simp [Function.enclosingFrom, he]
      | some e =>
        have hbound : ∀ q, e.parent = some q → q < p := fun q hq =>
          F.parent_lt (by rw [parentAt_of_getElem? he, hq])
        rw [enclosingFrom_some he, enclosingFrom_some he]
        have hrest : f.enclosingFrom view m e.parent = f.enclosingFrom view n e.parent :=
          ih (fun q hq => Nat.lt_of_lt_of_le (hbound q hq) (by omega))
            (fun q hq => Nat.lt_of_lt_of_le (hbound q hq) (by omega))
        rw [hrest]

/-- **All loops in order**: no link is broken, and `loopsInOrder` lists the loops of the function as
they were recorded. -/
theorem Forest.loopsInOrder_eq (F : Forest f.loops) :
    ∃ listed, f.loopsInOrder view = .ok listed ∧
      listed.map (·.1) = List.range f.loops.length ∧
      ∀ x ∈ listed, f.loop? view x.1 = some x.2 := by
  have hlinks : (List.range f.loops.length).findSome? f.brokenAncestor = none :=
    List.findSome?_eq_none_iff.mpr fun _ _ => F.wellLinked.brokenAncestor_eq_none
  refine ⟨(List.range f.loops.length).filterMap fun p => (f.loop? view p).map (p, ·), ?_, ?_, ?_⟩
  · simp only [Function.loopsInOrder, F.preorder_eq_range, hlinks, bind, Except.bind]
    split <;> rfl
  · rw [List.map_filterMap]
    conv_rhs => rw [← List.filterMap_some (l := List.range f.loops.length)]
    apply List.filterMap_congr
    intro p hp
    have he := List.getElem?_eq_getElem (List.mem_range.mp hp)
    -- No position is lost, as there is a loop at each of them.
    obtain ⟨lp, hlp, -⟩ := loop?_of_getElem? view he
    simp [hlp]
  · intro x hx
    obtain ⟨p, -, hp⟩ := List.mem_filterMap.mp hx
    obtain ⟨lp, hlp, rfl⟩ := Option.map_eq_some_iff.mp hp
    exact hlp

/-- **The loops around a loop**, its `enclosing`, are the one that it stands in and those around
that one. -/
theorem Forest.enclosing_eq (F : Forest f.loops) (hview : view ≠ .detached)
    (hparent : parentAt f.loops c = some p) (he : f.loops[p]? = some e) {lp outer : Loop}
    (hlp : f.loop? view c = some lp) (houter : f.loop? view p = some outer) :
    lp.enclosing =
      ⟨e.header, e.inductionVariable, f.subLoopCount view e⟩ :: outer.enclosing := by
  have hpc := F.parent_lt hparent
  have hc := lt_length_of_parentAt hparent
  obtain ⟨i, hi⟩ : ∃ i, f.loops[c]? = some i := ⟨_, List.getElem?_eq_getElem hc⟩
  obtain ⟨lp', hlp', -, hlpAround⟩ := loop?_of_getElem? view hi
  obtain ⟨outer', houter', -, houterAround⟩ := loop?_of_getElem? view he
  obtain rfl : lp' = lp := Option.some.inj (hlp'.symm.trans hlp)
  obtain rfl : outer' = outer := Option.some.inj (houter'.symm.trans houter)
  rw [if_neg hview] at hlpAround houterAround
  have hbound : ∀ q, e.parent = some q → q < p := fun q hq =>
    F.parent_lt (by rw [parentAt_of_getElem? he, hq])
  obtain ⟨k, hk⟩ : ∃ k, f.loops.length = k + 1 := ⟨f.loops.length - 1, by omega⟩
  -- The two loops were given different numbers of levels, and both are enough.
  have hrest : f.enclosingFrom view k e.parent = f.enclosingFrom view (k + 1) e.parent :=
    F.enclosingFrom_eq (fun q hq => Nat.lt_of_lt_of_le (hbound q hq) (by omega))
      (fun q hq => Nat.lt_of_lt_of_le (hbound q hq) (by omega))
  rw [hlpAround, houterAround, ← parentAt_of_getElem? hi, hparent, hk, enclosingFrom_some he, hrest]

/-- A loop is one level deeper than the one at its `parentAt`. -/
theorem Forest.depth_eq_succ (F : Forest f.loops) (hview : view ≠ .detached)
    (hparent : parentAt f.loops c = some p) :
    ∃ lp outer, f.loop? view c = some lp ∧ f.loop? view p = some outer ∧
      lp.depth = outer.depth + 1 := by
  have hpc := F.parent_lt hparent
  have hc := lt_length_of_parentAt hparent
  have he : f.loops[p]? = some f.loops[p] := List.getElem?_eq_getElem (by omega)
  obtain ⟨lp, hlp, -⟩ := loop?_of_getElem? view (List.getElem?_eq_getElem hc)
  obtain ⟨outer, houter, -⟩ := loop?_of_getElem? view he
  refine ⟨lp, outer, hlp, houter, ?_⟩
  rw [Loop.depth, Loop.depth, F.enclosing_eq hview hparent he hlp houter, List.length_cons]

end Loops

end LoopAnalysis
