import LoopAnalysis.Program.Nest
import Mathlib.Data.List.Chain
import Mathlib.Data.List.Perm.Subperm
import Mathlib.Logic.Relation

/-!
# Links in order

A function may record any positions as the parent and as the children of a loop. Its links are in
order if each leads to a loop and no way along parents, or along children, comes back to where it
started. They need not agree with each other or with the order of the list, so this is less than a
forest; still, every walk ends, after no more steps than there are loops, and meets loops only.

## Main definitions

- `parentAt`, `childrenAt`: the positions of the loop directly around a loop and of those directly
  inside it;
- `NamesParent`, `NamesChild`: the two kinds of links;
- `WellLinked`: links in order;
- `EndsWithin`: every way from a position is shorter than a number of steps.

## Main statements

- `endsWithin_of_acyclic`: ways without circles are shorter than the number of positions;
- `WellLinked.brokenAncestor_eq_none`, `WellLinked.brokenBelow_eq_none`: no walk outwards and none
  inwards meets a broken link;
- `WellLinked.of_rank`: links that lead up and down in rank are in order.
-/

namespace LoopAnalysis

/-- The position of the loop directly around the one at `c`. -/
def parentAt (loops : List LoopEntry) (c : Nat) : Option Nat := loops[c]?.bind (·.parent)

/-- The positions of the loops directly inside the one at `p`. -/
def childrenAt (loops : List LoopEntry) (p : Nat) : Option (List Nat) := loops[p]?.map (·.children)

/-- The loop at `c` records `p` as the position of the loop around it. -/
def NamesParent (loops : List LoopEntry) (c p : Nat) : Prop := parentAt loops c = some p

/-- The loop at `p` records `c` among the positions of the loops directly inside it. -/
def NamesChild (loops : List LoopEntry) (p c : Nat) : Prop :=
  ∃ cs, childrenAt loops p = some cs ∧ c ∈ cs

/-- Every link leads to a loop, and no way along parents or along children leads back. -/
structure WellLinked (loops : List LoopEntry) : Prop where
  parent_lt        : ∀ {c p : Nat}, NamesParent loops c p → p < loops.length
  child_lt         : ∀ {p c : Nat}, NamesChild loops p c → c < loops.length
  parents_acyclic  : ∀ p, ¬ Relation.TransGen (NamesParent loops) p p
  children_acyclic : ∀ p, ¬ Relation.TransGen (NamesChild loops) p p

section Lookup

variable {loops : List LoopEntry} {c p : Nat} {e : LoopEntry}

theorem parentAt_of_getElem? (h : loops[c]? = some e) : parentAt loops c = e.parent := by
  simp [parentAt, h]

theorem childrenAt_of_getElem? (h : loops[c]? = some e) : childrenAt loops c = some e.children := by
  simp [childrenAt, h]

theorem lt_length_of_parentAt (h : parentAt loops c = some p) : c < loops.length := by
  obtain ⟨e, he, -⟩ := Option.bind_eq_some_iff.mp h
  exact (List.getElem?_eq_some_iff.mp he).1

end Lookup

/-! ## §1 Ways that end -/

section Ways

variable {r : Nat → Nat → Prop} {n p q : Nat} {path : List Nat}

/-- Every way along `r` from `p` takes fewer than `n` steps. -/
def EndsWithin (r : Nat → Nat → Prop) (n p : Nat) : Prop :=
  ∀ path, (p :: path).IsChain r → path.length < n

theorem not_endsWithin_zero : ¬ EndsWithin r 0 p := fun h =>
  absurd (h [] (.singleton p)) (Nat.not_lt_zero _)

/-- One step along `r` is made, and one less is left. -/
theorem EndsWithin.next (h : EndsWithin r (n + 1) p) (hstep : r p q) : EndsWithin r n q := by
  intro path hpath
  have hlonger := h (q :: path) (List.isChain_cons_cons.mpr ⟨hstep, hpath⟩)
  simpa using hlonger

theorem EndsWithin.succ (h : EndsWithin r n p) : EndsWithin r (n + 1) p := fun path hpath =>
  Nat.lt_succ_of_lt (h path hpath)

/-- All stations of a way lie below `n` if its start and all targets of `r` do. -/
theorem lt_of_mem_path (hbound : ∀ {a b}, r a b → b < n) (hp : p < n)
    (hpath : (p :: path).IsChain r) : ∀ q ∈ p :: path, q < n := by
  -- Induct on the way; the start of the rest is a target of `r`, so the bound passes on.
  induction path generalizing p with
  | nil =>
    intro q hq
    obtain rfl := List.mem_singleton.mp hq
    exact hp
  | cons next rest ih =>
    obtain ⟨hstep, hrest⟩ := List.isChain_cons_cons.mp hpath
    intro q hq
    rcases List.mem_cons.mp hq with rfl | hq
    · exact hp
    · exact ih (hbound hstep) hrest q hq

/-- Without circles, a way meets no position twice. -/
theorem nodup_path (hacyclic : ∀ p, ¬ Relation.TransGen r p p) (hpath : path.IsChain r) :
    path.Nodup := by
  -- Along a chain of `r` every later station is reached from every earlier one.
  have hfar : path.IsChain (Relation.TransGen r) := hpath.imp fun _ _ => .single
  refine (List.isChain_iff_pairwise.mp hfar).imp ?_
  rintro a _ hcircle rfl
  exact hacyclic a hcircle

/-- **Ways without circles end**: among `n` positions they take fewer than `n` steps. -/
theorem endsWithin_of_acyclic (hacyclic : ∀ p, ¬ Relation.TransGen r p p)
    (hbound : ∀ {a b}, r a b → b < n) (hp : p < n) : EndsWithin r n p := by
  intro path hpath
  -- A way without repetition fits into the positions below `n`.
  have hsubset : p :: path ⊆ List.range n := fun q hq =>
    List.mem_range.mpr (lt_of_mem_path hbound hp hpath q hq)
  have hlength := ((nodup_path hacyclic hpath).subperm hsubset).length_le
  rwa [List.length_cons, List.length_range] at hlength

end Ways

/-! ## §2 Walks through a function -/

section Walks

variable {f : Function} {c p : Nat} {e : LoopEntry}

theorem namesChild_of_mem (he : f.loops[p]? = some e) (hc : c ∈ e.children) :
    NamesChild f.loops p c :=
  ⟨e.children, childrenAt_of_getElem? he, hc⟩

private theorem exists_mapM_ok {α β ε : Type} {g : α → Except ε β} {xs : List α}
    (h : ∀ x ∈ xs, ∃ y, g x = .ok y) : ∃ ys, xs.mapM g = .ok ys := by
  induction xs with
  | nil => exact ⟨[], rfl⟩
  | cons x xs ih =>
    obtain ⟨y, hy⟩ := h x List.mem_cons_self
    obtain ⟨ys, hys⟩ := ih fun z hz => h z (List.mem_cons_of_mem x hz)
    refine ⟨y :: ys, ?_⟩
    rw [List.mapM_cons, hy, hys]
    rfl

namespace WellLinked

theorem endsWithin_children (L : WellLinked f.loops) (hp : p < f.loops.length) :
    EndsWithin (NamesChild f.loops) f.loops.length p :=
  endsWithin_of_acyclic L.children_acyclic L.child_lt hp

/-- The walk `preorderFrom` meets loops only, with one level for each step that it may take. -/
theorem exists_preorderFrom (L : WellLinked f.loops) {levels : Nat} (hp : p < f.loops.length)
    (hlevels : EndsWithin (NamesChild f.loops) levels p) :
    ∃ positions, f.preorderFrom levels p = .ok positions := by
  -- Each level of the walk uses up one of the steps that the ways from `p` have left.
  induction levels generalizing p with
  | zero => exact absurd hlevels not_endsWithin_zero
  | succ levels ih =>
    have he := List.getElem?_eq_getElem hp
    obtain ⟨below, hbelow⟩ :
        ∃ below, f.loops[p].children.mapM (f.preorderFrom levels) = .ok below := by
      -- Every child is a loop again, and the ways from it are shorter by one.
      apply exists_mapM_ok
      intro c hc
      have hchild := namesChild_of_mem he hc
      exact ih (L.child_lt hchild) (hlevels.next hchild)
    refine ⟨p :: below.flatten, ?_⟩
    simp only [Function.preorderFrom, he, hbelow]
    rfl

theorem brokenBelow_eq_none (L : WellLinked f.loops) (hp : p < f.loops.length) :
    f.brokenBelow p = none := by
  obtain ⟨positions, hwalk⟩ := L.exists_preorderFrom hp (L.endsWithin_children hp).succ
  simp only [Function.brokenBelow, hwalk]

theorem brokenAbove_eq_none (L : WellLinked f.loops) {fuel : Nat} {parent : Option Nat}
    (hparent : ∀ p, parent = some p →
      p < f.loops.length ∧ EndsWithin (NamesParent f.loops) fuel p) :
    f.brokenAbove fuel parent = none := by
  -- The fuel bounds the ways outwards, so it runs out only where there is no parent.
  induction fuel generalizing parent with
  | zero =>
    cases parent with
    | none => rfl
    | some p => exact absurd (hparent p rfl).2 not_endsWithin_zero
  | succ fuel ih =>
    cases parent with
    | none => rfl
    | some p =>
      obtain ⟨hp, hends⟩ := hparent p rfl
      have he := List.getElem?_eq_getElem hp
      simp only [Function.brokenAbove, he]
      apply ih
      intro q hq
      have hstep : NamesParent f.loops p q := (parentAt_of_getElem? he).trans hq
      exact ⟨L.parent_lt hstep, hends.next hstep⟩

theorem brokenAncestor_eq_none (L : WellLinked f.loops) : f.brokenAncestor c = none := by
  apply L.brokenAbove_eq_none
  intro p hparent
  have hp : p < f.loops.length := L.parent_lt hparent
  exact ⟨hp, endsWithin_of_acyclic L.parents_acyclic L.parent_lt hp⟩

end WellLinked

end Walks

/-- **Links that lead up and down in `rank` are in order**, whatever the order of the list. -/
theorem WellLinked.of_rank {loops : List LoopEntry} (rank : Nat → Nat)
    (hparent : ∀ {c p}, NamesParent loops c p → p < loops.length ∧ rank p < rank c)
    (hchild : ∀ {p c}, NamesChild loops p c → c < loops.length ∧ rank p < rank c) :
    WellLinked loops where
  parent_lt h := (hparent h).1
  child_lt h := (hchild h).1
  parents_acyclic p hcircle := by
    -- A circle of parents would lead to a smaller rank of the same position.
    have hdown : Relation.TransGen (· > ·) (rank p) (rank p) :=
      hcircle.lift rank fun c p (h : NamesParent loops c p) => (hparent h).2
    rw [Relation.transGen_eq_self] at hdown
    exact Nat.lt_irrefl _ hdown
  children_acyclic p hcircle := by
    -- A circle of children would lead to a greater one.
    have hup : Relation.TransGen (· < ·) (rank p) (rank p) :=
      hcircle.lift rank fun _ _ h => (hchild h).2
    rw [Relation.transGen_eq_self] at hup
    exact Nat.lt_irrefl _ hup

end LoopAnalysis
