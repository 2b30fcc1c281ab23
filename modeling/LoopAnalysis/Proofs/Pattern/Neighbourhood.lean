import LoopAnalysis.Pattern.Stencil
import LoopAnalysis.Proofs.Access.IndexTerms
import LoopAnalysis.Proofs.Classifier.Recency
import LoopAnalysis.Proofs.Text.SortedSet
import Mathlib.Data.Set.Card
import Mathlib.Data.String.Basic

/-!
# The neighbourhood that a loop reads

The shape of a stencil is computed from the list of accesses of a loop, but it depends on less: for
every array, on the set of offset vectors at which the array is read. The order of the loads, how
often one is repeated and everything the loop stores make no difference.

## Main definitions

- `Scene.neighbours`: the offset vectors at which an array is read;
- `IsNeighbourhood`: when a set of offset vectors is a stencil;
- `StencilShape.Measures`: the points, the radius and the dimensions of such a set.

## Main statements

- `StencilShape.largest?_eq_some_iff`: which of several shapes is kept;
- `Scene.stencilShape?_eq_some_iff`: the shape of a loop, described by its sets of neighbours alone;
- `Scene.shape_of_neighbours`: what follows about order, repetition and size.
-/

namespace LoopAnalysis

/-! ## §1 Sets of offset vectors -/

/-- The levels with their offsets that occur in some vector of a set. -/
def offsetsIn (vectors : Set OffsetVector) : Set (Nat × Int64) := {p | ∃ v ∈ vectors, p ∈ v}

/-- A set of offset vectors is a stencil: three vectors or more, all offsets within `stencilRadius`,
and one of them not zero. -/
structure IsNeighbourhood (vectors : Set OffsetVector) : Prop where
  three_le_ncard : 3 ≤ vectors.ncard
  near : ∀ p ∈ offsetsIn vectors, Word.magnitude p.2 ≤ stencilRadius
  moves : ∃ p ∈ offsetsIn vectors, p.2 ≠ 0

/-- The numbers of a shape are those of a set of vectors: how many there are, the largest distance
of one of the `offsetsIn` it from zero, and how many levels have an offset other than zero. -/
structure StencilShape.Measures (shape : StencilShape) (vectors : Set OffsetVector) : Prop where
  points : shape.points = vectors.ncard
  radius : IsGreatest ((fun p => Word.magnitude p.2) '' offsetsIn vectors) shape.radius
  dimensions : shape.dimensions = (Prod.fst '' {p ∈ offsetsIn vectors | p.2 ≠ 0}).ncard

section Lists

variable {found : List OffsetVector}

/-- As many elements are left by `eraseDups` as the list has members. -/
theorem ncard_setOf_mem {α : Type} [BEq α] [LawfulBEq α] (xs : List α) :
    {x | x ∈ xs}.ncard = xs.eraseDups.length := by
  -- Any two tests of equality that are lawful agree, so the one of the list may be replaced.
  classical
  obtain rfl := lawful_beq_subsingleton ‹BEq α› instBEqOfDecidableEq
  rw [length_eraseDups, ← List.coe_toFinset, Set.ncard_coe_finset]

theorem offsetsIn_setOf_mem : offsetsIn {v | v ∈ found} = {p | p ∈ found.eraseDups.flatten} := by
  ext p
  simp [offsetsIn]

/-- The three tests of `isStencil` ask for an `IsNeighbourhood`. -/
theorem isStencil_iff : isStencil found.eraseDups = true ↔ IsNeighbourhood {v | v ∈ found} := by
  unfold isStencil
  simp only [Bool.and_eq_true, decide_eq_true_eq, List.all_eq_true, List.any_eq_true, bne_iff_ne,
    ← ncard_setOf_mem]
  constructor
  · rintro ⟨⟨hthree, hnear⟩, hmoves⟩
    refine ⟨hthree, ?_, ?_⟩
    · rw [offsetsIn_setOf_mem]
      exact hnear
    · rw [offsetsIn_setOf_mem]
      exact hmoves
  · rintro ⟨hthree, hnear, hmoves⟩
    rw [offsetsIn_setOf_mem] at hnear hmoves
    exact ⟨⟨hthree, hnear⟩, hmoves⟩

/-- `ofPoints` gives a list of vectors the numbers of the set of its members. -/
theorem measures_ofPoints (array : String) (h : (offsetsIn {v | v ∈ found}).Nonempty) :
    (StencilShape.ofPoints array found.eraseDups).Measures {v | v ∈ found} := by
  rw [offsetsIn_setOf_mem] at h
  refine ⟨(ncard_setOf_mem found).symm, ?_, ?_⟩
  · -- Some offset occurs, so the largest distance is that of one of them.
    obtain ⟨p, hp⟩ := h
    have hsome := List.isSome_max?_of_mem
      (List.mem_map_of_mem (f := fun p : Nat × Int64 => Word.magnitude p.2) hp)
    obtain ⟨m, hm⟩ := Option.isSome_iff_exists.mp hsome
    have hradius : (StencilShape.ofPoints array found.eraseDups).radius = m := by
      show Option.getD _ 0 = m
      rw [hm, Option.getD_some]
    obtain ⟨hmem, hle⟩ := List.max?_eq_some_iff.mp hm
    rw [hradius, offsetsIn_setOf_mem]
    refine ⟨List.mem_map.mp hmem, ?_⟩
    rintro _ ⟨q, hq, rfl⟩
    exact hle _ (List.mem_map_of_mem hq)
  · -- The levels are collected from a list as well, so they are counted in the same way.
    have hlevels : Prod.fst '' {p ∈ offsetsIn {v | v ∈ found} | p.2 ≠ 0} =
        {level | level ∈ (found.eraseDups.flatten.filter (·.2 != 0)).map (·.1)} := by
      rw [offsetsIn_setOf_mem]
      ext level
      simp only [Set.mem_image, Set.mem_ofPred_eq, List.mem_map, List.mem_filter, bne_iff_ne]
    rw [hlevels, ncard_setOf_mem]
    rfl

end Lists

namespace IsNeighbourhood

variable {vectors : Set OffsetVector} {shape : StencilShape}

theorem offsets_nonempty (h : IsNeighbourhood vectors) : (offsetsIn vectors).Nonempty := by
  obtain ⟨p, hp, -⟩ := h.moves
  exact ⟨p, hp⟩

/-- A neighbourhood reaches one step or more, and no further than `stencilRadius`. -/
theorem radius_bounds (h : IsNeighbourhood vectors) (hshape : shape.Measures vectors) :
    1 ≤ shape.radius ∧ shape.radius ≤ stencilRadius := by
  constructor
  · obtain ⟨p, hp, hne⟩ := h.moves
    exact (Word.magnitude_pos hne).trans_le (hshape.radius.2 ⟨p, hp, rfl⟩)
  · obtain ⟨p, hp, hradius⟩ := hshape.radius.1
    exact hradius ▸ h.near p hp

/-- A neighbourhood spreads over one level or more, all of them levels that occur in it. -/
theorem dimensions_bounds (h : IsNeighbourhood vectors) (hshape : shape.Measures vectors)
    {levels : Nat} (hlevels : ∀ p ∈ offsetsIn vectors, p.1 < levels) :
    1 ≤ shape.dimensions ∧ shape.dimensions ≤ levels := by
  have hsubset :
      Prod.fst '' {p ∈ offsetsIn vectors | p.2 ≠ 0} ⊆ (Finset.range levels : Set Nat) := by
    rintro _ ⟨p, ⟨hp, -⟩, rfl⟩
    exact Finset.mem_coe.mpr (Finset.mem_range.mpr (hlevels p hp))
  have hfinite := (Finset.range levels).finite_toSet.subset hsubset
  rw [hshape.dimensions]
  constructor
  · obtain ⟨p, hp, hne⟩ := h.moves
    exact (Set.ncard_pos hfinite).mpr ⟨p.1, p, ⟨hp, hne⟩, rfl⟩
  · calc _ ≤ (Finset.range levels : Set Nat).ncard := Set.ncard_le_ncard hsubset
      _ = levels := by rw [Set.ncard_coe_finset, Finset.card_range]

end IsNeighbourhood

/-- A set of vectors `Measures` one shape under the name of an array. -/
theorem StencilShape.Measures.unique {vectors : Set OffsetVector} {a b : StencilShape}
    (ha : a.Measures vectors) (hb : b.Measures vectors) (harray : a.array = b.array) : a = b := by
  obtain ⟨array, points, radius, dimensions⟩ := a
  obtain ⟨array', points', radius', dimensions'⟩ := b
  obtain rfl : points = points' := ha.points.trans hb.points.symm
  obtain rfl : radius = radius' := ha.radius.unique hb.radius
  obtain rfl : dimensions = dimensions' := ha.dimensions.trans hb.dimensions.symm
  obtain rfl : array = array' := harray
  rfl

/-! ## §2 The largest shape -/

namespace StencilShape

/-- A shape is not kept against another: it has fewer points, or as many points and the name of its
array does not come later. -/
def YieldsTo (a b : StencilShape) : Prop :=
  a.points < b.points ∨ a.points = b.points ∧ a.array ≤ b.array

theorem YieldsTo.refl (a : StencilShape) : a.YieldsTo a := .inr ⟨rfl, le_rfl⟩

theorem YieldsTo.trans {a b c : StencilShape} (hab : a.YieldsTo b) (hbc : b.YieldsTo c) :
    a.YieldsTo c := by
  rcases hab with hab | ⟨hab, hab'⟩ <;> rcases hbc with hbc | ⟨hbc, hbc'⟩
  · exact .inl (hab.trans hbc)
  · exact .inl (hbc ▸ hab)
  · exact .inl (hab ▸ hbc)
  · exact .inr ⟨hab.trans hbc, hab'.trans hbc'⟩

theorem YieldsTo.array_eq {a b : StencilShape} (hab : a.YieldsTo b) (hba : b.YieldsTo a) :
    a.array = b.array := by
  rcases hab with hab | ⟨hab, hab'⟩ <;> rcases hba with hba | ⟨hba, hba'⟩
  · omega
  · omega
  · omega
  · exact le_antisymm hab' hba'

/-- The choice that `largest?` makes at one shape. -/
def larger (best next : StencilShape) : StencilShape :=
  if best.points ≤ next.points then next else best

/-- `larger` keeps one of the two shapes, to which both yield. -/
theorem larger_cases {best next : StencilShape} (h : best.array < next.array) :
    (larger best next = best ∨ larger best next = next) ∧
      best.YieldsTo (larger best next) ∧ next.YieldsTo (larger best next) := by
  unfold larger
  split
  · next hle =>
    refine ⟨.inr rfl, ?_, .refl next⟩
    rcases hle.lt_or_eq with hlt | heq
    · exact .inl hlt
    · exact .inr ⟨heq, h.le⟩
  · next hnot => exact ⟨.inl rfl, .refl best, .inl (not_le.mp hnot)⟩

/-- A search through shapes in ascending order of their arrays ends with one that every other
`YieldsTo`. -/
theorem foldl_larger {best : StencilShape} {shapes : List StencilShape}
    (h : (best :: shapes).Pairwise (·.array < ·.array)) :
    shapes.foldl larger best ∈ best :: shapes ∧
      ∀ other ∈ best :: shapes, other.YieldsTo (shapes.foldl larger best) := by
  -- After each step the shape that is kept still has an array before those that are to come.
  induction shapes generalizing best with
  | nil => simp [YieldsTo.refl]
  | cons next shapes ih =>
    obtain ⟨hbest, hnext, hrest⟩ : _ ∧ _ ∧ _ := by simpa only [List.pairwise_cons] using h
    obtain ⟨hlarger, hyields, hyields'⟩ := larger_cases (hbest next List.mem_cons_self)
    have hsorted : (larger best next :: shapes).Pairwise (·.array < ·.array) := by
      rcases hlarger with heq | heq <;> rw [heq, List.pairwise_cons]
      · exact ⟨fun other hother => hbest other (List.mem_cons_of_mem next hother), hrest⟩
      · exact ⟨hnext, hrest⟩
    obtain ⟨hkept, hall⟩ := ih hsorted
    have hstep := hall _ List.mem_cons_self
    simp only [List.mem_cons, forall_eq_or_imp, List.foldl_cons] at hkept hall ⊢
    refine ⟨?_, hyields.trans hstep, hyields'.trans hstep, hall.2⟩
    -- What is kept in the end is the shape after this step or one of those to come.
    rcases hkept with hkept | hkept
    · rw [hkept]
      exact hlarger.imp_right .inl
    · exact .inr (.inr hkept)

/-- **The largest shape, the last one on a tie**: among shapes in ascending order of their arrays
`largest?` is the one that every other `YieldsTo`. -/
theorem largest?_eq_some_iff {shapes : List StencilShape} {shape : StencilShape}
    (h : shapes.Pairwise (·.array < ·.array)) :
    largest? shapes = some shape ↔ shape ∈ shapes ∧ ∀ other ∈ shapes, other.YieldsTo shape := by
  cases shapes with
  | nil => simp [largest?]
  | cons first rest =>
    obtain ⟨hkept, hall⟩ := foldl_larger h
    constructor
    · intro hlargest
      cases hlargest
      exact ⟨hkept, hall⟩
    · rintro ⟨hmem, hshape⟩
      -- Two shapes that yield to one another have one array, and arrays differ in the list.
      have harray := (hall shape hmem).array_eq (hshape _ hkept)
      have hnodup : ((first :: rest).map (·.array)).Nodup :=
        (List.pairwise_map.mpr h).imp fun hlt => hlt.ne
      exact congrArg some (List.inj_on_of_nodup_map hnodup hkept hmem harray.symm)

theorem isSome_largest?_of_mem {shapes : List StencilShape} {shape : StencilShape}
    (h : shape ∈ shapes) : (largest? shapes).isSome = true := by
  cases shapes with
  | nil => cases h
  | cons first rest => rfl

end StencilShape

/-! ## §3 The neighbourhoods of a loop -/

namespace Scene

variable {s : Scene} {array : String} {shape : StencilShape}

/-- A load stands at a vector of offsets: its array stays where it is, and every index, of which
there is at least one, has the level and the offset of the vector by `nestOffset?`. -/
def StandsAt (s : Scene) (read : AccessSite) (v : OffsetVector) : Prop :=
  read.baseInvariant = true ∧ read.indices ≠ [] ∧
    List.Forall₂ (fun index p => s.nestOffset? index = some p) read.indices v

/-- The offset vectors at which the loop reads an array. -/
def neighbours (s : Scene) (array : String) : Set OffsetVector :=
  {v | ∃ read ∈ s.reads, read.base = array ∧ s.StandsAt read v}

private theorem mapM_eq_some_iff {α β : Type} {f : α → Option β} {xs : List α} {ys : List β} :
    xs.mapM f = some ys ↔ List.Forall₂ (fun x y => f x = some y) xs ys := by
  induction xs generalizing ys with
  | nil => simp [eq_comm]
  | cons x xs ih =>
    simp only [List.mapM_cons, bind, Option.bind_eq_some_iff, pure, Option.some.injEq, ih,
      List.forall₂_cons_left_iff]
    constructor
    · rintro ⟨y, hy, zs, hzs, rfl⟩
      exact ⟨y, zs, hy, hzs, rfl⟩
    · rintro ⟨y, zs, hy, hzs, rfl⟩
      exact ⟨y, hy, zs, hzs, rfl⟩

/-- `offsets?` computes the vector that a load `StandsAt`. -/
theorem offsets?_eq_some_iff {read : AccessSite} {v : OffsetVector} :
    s.offsets? read = some v ↔ s.StandsAt read v := by
  simp [offsets?, StandsAt, mapM_eq_some_iff, and_assoc]

/-- The vectors that are collected for an array are its `neighbours`. -/
theorem setOf_mem_found :
    {v | v ∈ (s.reads.filter (·.base == array)).filterMap s.offsets?} = s.neighbours array := by
  ext v
  simp [neighbours, offsets?_eq_some_iff, and_assoc]

theorem isStencil_pointsOf :
    isStencil (s.pointsOf array) = true ↔ IsNeighbourhood (s.neighbours array) := by
  rw [← setOf_mem_found]
  exact isStencil_iff

/-- The shape that is computed for an array `Measures` its neighbourhood. -/
theorem measures_pointsOf (h : IsNeighbourhood (s.neighbours array)) :
    (StencilShape.ofPoints array (s.pointsOf array)).Measures (s.neighbours array) := by
  rw [← setOf_mem_found] at h ⊢
  exact measures_ofPoints array h.offsets_nonempty

theorem mem_readArrays (h : IsNeighbourhood (s.neighbours array)) : array ∈ s.readArrays := by
  obtain ⟨p, v, ⟨read, hread, rfl, -⟩, -⟩ := h.offsets_nonempty
  exact Text.mem_sortedSet.mpr (List.mem_map_of_mem hread)

/-- The shapes of all `readArrays` of which the loop reads a neighbourhood. -/
def stencils (s : Scene) : List StencilShape :=
  s.readArrays.filterMap fun array =>
    if isStencil (s.pointsOf array) then some (.ofPoints array (s.pointsOf array)) else none

/-- The `stencils` are the shapes that measure a neighbourhood of their own array. -/
theorem mem_stencils :
    shape ∈ s.stencils ↔
      IsNeighbourhood (s.neighbours shape.array) ∧ shape.Measures (s.neighbours shape.array) := by
  simp only [stencils, List.mem_filterMap, isStencil_pointsOf, Option.ite_none_right_eq_some,
    Option.some.injEq]
  constructor
  · rintro ⟨array, -, hstencil, rfl⟩
    exact ⟨hstencil, measures_pointsOf hstencil⟩
  · rintro ⟨hstencil, hshape⟩
    exact ⟨shape.array, mem_readArrays hstencil, hstencil,
      (measures_pointsOf hstencil).unique hshape rfl⟩

/-- The `stencils` stand in ascending order of their arrays, as `readArrays` does. -/
theorem pairwise_stencils : s.stencils.Pairwise (·.array < ·.array) := by
  refine List.pairwise_filterMap.mpr ((Text.pairwise_sortedSet _).imp ?_)
  intro a b hlt shape hshape shape' hshape'
  split at hshape <;> cases hshape
  split at hshape' <;> cases hshape'
  exact hlt

/-- **The shape of a loop** `Measures` a neighbourhood of one array, and no other array has one with
more points, or with as many and a name that comes later. -/
theorem stencilShape?_eq_some_iff :
    s.stencilShape? = some shape ↔
      IsNeighbourhood (s.neighbours shape.array) ∧ shape.Measures (s.neighbours shape.array) ∧
        ∀ other, IsNeighbourhood (s.neighbours other) →
          (s.neighbours other).ncard < shape.points ∨
            (s.neighbours other).ncard = shape.points ∧ other ≤ shape.array := by
  rw [show s.stencilShape? = StencilShape.largest? s.stencils from rfl,
    StencilShape.largest?_eq_some_iff pairwise_stencils, mem_stencils, and_assoc]
  refine and_congr_right fun _ => and_congr_right fun _ => ⟨fun hall other hother => ?_, ?_⟩
  · -- An array with a neighbourhood has a shape among those that are compared.
    have hmeasures := measures_pointsOf hother
    have hyields := hall _ (mem_stencils.mpr ⟨hother, hmeasures⟩)
    rwa [StencilShape.YieldsTo, hmeasures.points] at hyields
  · intro hall other hother
    obtain ⟨hother, hmeasures⟩ := mem_stencils.mp hother
    rw [StencilShape.YieldsTo, hmeasures.points]
    exact hall other.array hother

/-- There is a `stencilShape?` exactly when the loop reads an `IsNeighbourhood` of some array. -/
theorem isSome_stencilShape? :
    s.stencilShape?.isSome = true ↔ ∃ array, IsNeighbourhood (s.neighbours array) := by
  constructor
  · intro hsome
    obtain ⟨shape, hshape⟩ := Option.isSome_iff_exists.mp hsome
    exact ⟨shape.array, (stencilShape?_eq_some_iff.mp hshape).1⟩
  · rintro ⟨array, harray⟩
    exact StencilShape.isSome_largest?_of_mem (mem_stencils.mpr ⟨harray, measures_pointsOf harray⟩)

/-- The levels of offsets are levels of the nest, since `nestOffset?` takes them from there. -/
theorem level_lt {p : Nat × Int64} (hp : p ∈ offsetsIn (s.neighbours array)) :
    p.1 < s.nesting.nestIvs.length := by
  obtain ⟨v, ⟨read, -, -, -, -, hv⟩, hp⟩ := hp
  -- The vector has one entry for each index, so the induction is on both at once.
  generalize read.indices = indices at hv
  induction hv with
  | nil => cases hp
  | cons hindex _ ih =>
    rcases List.mem_cons.mp hp with rfl | hp
    · obtain ⟨iv, hiv, -⟩ := nestOffset?_eq_some hindex
      exact (List.getElem?_eq_some_iff.mp hiv).1
    · exact ih hp

/-- The `neighbours` depend on which loads there are, and on nothing else among the accesses. -/
theorem neighbours_congr {sites : List AccessSite}
    (h : ∀ site, site.isRead = true → (site ∈ sites ↔ site ∈ s.sites)) :
    { s with sites }.neighbours array = s.neighbours array := by
  have hreads : ∀ site, site ∈ { s with sites }.reads ↔ site ∈ s.reads := by
    intro site
    rw [reads, reads, List.mem_filter, List.mem_filter]
    exact and_congr_left (h site)
  ext v
  exact exists_congr fun read => and_congr_left fun _ => hreads read

/-- **The shape of a stencil is a function of the `neighbours` of arrays**, the sets of offset
vectors at which they are read. So `stencilShape?` is the same for any list of accesses with the
same loads in it, in whatever order and however often. There is a shape exactly where some array is
read in an `IsNeighbourhood`. Its points, its radius and its dimensions are the numbers of the
neighbourhood of its array; there are three points or more, the radius lies between one and three,
and the dimensions between one and the depth of the nest. No array with a neighbourhood has more
points, and of those with as many it is the last. -/
theorem shape_of_neighbours (s : Scene) :
    (∀ t : Scene, (∀ array, t.neighbours array = s.neighbours array) →
      t.stencilShape? = s.stencilShape?) ∧
    (∀ sites : List AccessSite, (∀ site, site.isRead = true → (site ∈ sites ↔ site ∈ s.sites)) →
      { s with sites }.stencilShape? = s.stencilShape?) ∧
    (s.stencilShape?.isSome = true ↔ ∃ array, IsNeighbourhood (s.neighbours array)) ∧
    ∀ shape, s.stencilShape? = some shape →
      IsNeighbourhood (s.neighbours shape.array) ∧ shape.Measures (s.neighbours shape.array) ∧
      3 ≤ shape.points ∧ (1 ≤ shape.radius ∧ shape.radius ≤ 3) ∧
      (1 ≤ shape.dimensions ∧ shape.dimensions ≤ s.nesting.nestIvs.length) ∧
      (∀ lp, s.nesting = .of lp → shape.dimensions ≤ s.nesting.depth) ∧
      ∀ other, IsNeighbourhood (s.neighbours other) →
        (s.neighbours other).ncard < shape.points ∨
          (s.neighbours other).ncard = shape.points ∧ other ≤ shape.array := by
  have hfunction : ∀ t : Scene, (∀ array, t.neighbours array = s.neighbours array) →
      t.stencilShape? = s.stencilShape? := by
    intro t h
    -- The description of the shape mentions nothing but the neighbours.
    ext shape
    simp only [stencilShape?_eq_some_iff, h]
  refine ⟨hfunction, fun sites h => hfunction _ fun _ => neighbours_congr h, isSome_stencilShape?,
    fun shape hshape => ?_⟩
  obtain ⟨hstencil, hmeasures, hlargest⟩ := stencilShape?_eq_some_iff.mp hshape
  have hdimensions := hstencil.dimensions_bounds hmeasures fun _ => level_lt
  refine ⟨hstencil, hmeasures, hmeasures.points ▸ hstencil.three_le_ncard,
    hstencil.radius_bounds hmeasures, hdimensions, fun lp hnesting => ?_, hlargest⟩
  -- In a nest that was computed from a loop there is one induction variable for each level.
  have hdepth : s.nesting.nestIvs.length = s.nesting.depth := by
    rw [hnesting]
    simp [NestPosition.of, Loop.depth]
  exact hdepth ▸ hdimensions.2

end Scene

/-- The inner loop of a nest that reads `A[i - 1][j]`, `A[i][j - 1]` twice, `A[i][j + 1]`, and `B`
at `j - 1`, at `j` and at the offset that is furthest from zero. -/
def Loop.crossReads : Loop :=
  { straight ⟨0⟩ [
      .phi ⟨0⟩ [(.int 0, ⟨0⟩), (.value ⟨3⟩, ⟨1⟩)],
      .binary ⟨1⟩ .sub (.value ⟨20⟩) (.int 1),
      .binary ⟨2⟩ .sub (.value ⟨0⟩) (.int 1),
      .binary ⟨3⟩ .add (.value ⟨0⟩) (.int 1),
      .binary ⟨4⟩ .add (.value ⟨0⟩) (.int (-9223372036854775808)),
      .elementPtr ⟨5⟩ (.symbol "A") [.value ⟨1⟩, .value ⟨0⟩],
      .load ⟨6⟩ (.value ⟨5⟩),
      .elementPtr ⟨7⟩ (.symbol "A") [.value ⟨20⟩, .value ⟨2⟩],
      .load ⟨8⟩ (.value ⟨7⟩),
      .load ⟨9⟩ (.value ⟨7⟩),
      .elementPtr ⟨10⟩ (.symbol "A") [.value ⟨20⟩, .value ⟨3⟩],
      .load ⟨11⟩ (.value ⟨10⟩),
      .elementPtr ⟨12⟩ (.symbol "B") [.value ⟨2⟩],
      .load ⟨13⟩ (.value ⟨12⟩),
      .elementPtr ⟨14⟩ (.symbol "B") [.value ⟨0⟩],
      .load ⟨15⟩ (.value ⟨14⟩),
      .elementPtr ⟨16⟩ (.symbol "B") [.value ⟨4⟩],
      .load ⟨17⟩ (.value ⟨16⟩)] with
    enclosing := [⟨⟨5⟩, some ⟨20⟩, 1⟩] }

/-- The reads of `A` in `Loop.crossReads` count once each and spread over both loops, in whatever
order they stand; those of `B` reach too far. -/
theorem Scene.crossReads_shape :
    let s := Scene.of Loop.crossReads
    s.stencilShape? = some ⟨"A", 3, 1, 2⟩ ∧ (s.neighbours "A").ncard = 3 ∧
      2 ≤ (NestPosition.of Loop.crossReads).depth ∧
      { s with sites := s.sites.reverse ++ s.sites }.stencilShape? = some ⟨"A", 3, 1, 2⟩ ∧
      ¬ IsNeighbourhood (s.neighbours "B") := by
  intro s
  have hshape : s.stencilShape? = some ⟨"A", 3, 1, 2⟩ := by decide +kernel
  obtain ⟨-, hsites, -, hall⟩ := shape_of_neighbours s
  obtain ⟨-, hmeasures, -, -, -, hdepth, -⟩ := hall _ hshape
  refine ⟨hshape, hmeasures.points.symm, hdepth Loop.crossReads rfl, ?_, ?_⟩
  · rw [hsites _ fun site _ => by simp, hshape]
  · rw [← isStencil_pointsOf]
    decide +kernel

end LoopAnalysis
