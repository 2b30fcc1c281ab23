import LoopAnalysis.Proofs.Pattern.Neighbourhood

/-!
# Reads that are no neighbours

An offset beyond the radius makes no point of a stencil. A load at such an offset is not passed
over, though, as one without offsets is: it keeps the whole array from having a shape. So taking
all far loads away changes the shape of a loop exactly where an array that is read near and far has
a neighbourhood among its near offsets, and no array without far loads has a larger one.

## Main definitions

- `nearPart`: the offset vectors of a set that stay within the radius;
- `Scene.withoutFarReads`: a loop without its far loads.

## Main statements

- `Scene.neighbours_withoutFarReads`: what is left of the neighbours of an array;
- `Scene.shape_ignores_far_reads_iff`: when the shape is the same without the far loads.
-/

namespace LoopAnalysis

/-! ## §1 Near and far -/

/-- An offset beyond the `stencilRadius`. -/
def isFar (p : Nat × Int64) : Bool := stencilRadius < Word.magnitude p.2

/-- The vectors of a set in which no offset `isFar`. -/
def nearPart (vectors : Set OffsetVector) : Set OffsetVector :=
  {v ∈ vectors | ∀ p ∈ v, isFar p = false}

/-- Some offset in a set of vectors `isFar`. -/
def ReachesFar (vectors : Set OffsetVector) : Prop := ∃ p ∈ offsetsIn vectors, isFar p = true

variable {vectors : Set OffsetVector}

/-- A set without far offsets, for which `ReachesFar` fails, is its own `nearPart`. -/
theorem nearPart_eq_self (h : ¬ ReachesFar vectors) : nearPart vectors = vectors := by
  refine Set.sep_eq_self_iff_mem_true.mpr fun v hv p hp => Bool.eq_false_iff.mpr fun hfar => ?_
  exact h ⟨p, ⟨v, hv, hp⟩, hfar⟩

/-- Nothing in an `IsNeighbourhood` is far. -/
theorem IsNeighbourhood.not_reachesFar (h : IsNeighbourhood vectors) : ¬ ReachesFar vectors := by
  rintro ⟨p, hp, hfar⟩
  exact absurd (h.near p hp) (not_le.mpr (of_decide_eq_true hfar))

theorem IsNeighbourhood.nearPart_eq (h : IsNeighbourhood vectors) : nearPart vectors = vectors :=
  nearPart_eq_self h.not_reachesFar

namespace Scene

/-! ## §2 A loop without its far loads -/

variable {s : Scene} {array : String} {shape : StencilShape}

/-- A load some index of which has a `nestOffset?` beyond the radius. -/
def readsFar (s : Scene) (site : AccessSite) : Bool :=
  site.isRead && site.indices.any fun index => (s.nestOffset? index).any isFar

/-- The loop without the loads for which `readsFar` holds. -/
def withoutFarReads (s : Scene) : Scene :=
  { s with sites := s.sites.filter fun site => !s.readsFar site }

/-- A load at a vector is one that `readsFar` finds exactly if an offset of the vector is far. -/
theorem readsFar_of_standsAt {read : AccessSite} {v : OffsetVector} (hread : read.isRead = true)
    (h : s.StandsAt read v) : s.readsFar read = v.any isFar := by
  obtain ⟨-, -, hv⟩ := h
  rw [readsFar, hread, Bool.true_and]
  -- The vector has one offset for each index, so both are searched in step.
  generalize read.indices = indices at hv
  induction hv with
  | nil => rfl
  | cons hindex _ ih => rw [List.any_cons, List.any_cons, hindex, ih, Option.any_some]

theorem mem_reads_withoutFarReads {read : AccessSite} :
    read ∈ s.withoutFarReads.reads ↔ read ∈ s.reads ∧ s.readsFar read = false := by
  simp only [reads, withoutFarReads, List.mem_filter, Bool.not_eq_true']
  exact and_right_comm

/-- Without the far loads, the `nearPart` of the neighbours of every array is left. -/
theorem neighbours_withoutFarReads (s : Scene) (array : String) :
    s.withoutFarReads.neighbours array = nearPart (s.neighbours array) := by
  ext v
  have hfar : ∀ {read}, read ∈ s.reads → s.StandsAt read v →
      (s.readsFar read = false ↔ ∀ p ∈ v, isFar p = false) := by
    intro read hread hstands
    rw [readsFar_of_standsAt (List.mem_filter.mp hread).2 hstands, List.any_eq_false]
    simp only [Bool.not_eq_true]
  constructor
  · rintro ⟨read, hmem, hbase, hstands⟩
    obtain ⟨hread, hnear⟩ := mem_reads_withoutFarReads.mp hmem
    exact ⟨⟨read, hread, hbase, hstands⟩, (hfar hread hstands).mp hnear⟩
  · rintro ⟨⟨read, hread, hbase, hstands⟩, hnear⟩
    have hkept := mem_reads_withoutFarReads.mpr ⟨hread, (hfar hread hstands).mpr hnear⟩
    exact ⟨read, hkept, hbase, hstands⟩

/-- An array that has a neighbourhood keeps it in `withoutFarReads`: it has no far loads. -/
theorem isNeighbourhood_withoutFarReads (h : IsNeighbourhood (s.neighbours array)) :
    s.withoutFarReads.neighbours array = s.neighbours array := by
  rw [neighbours_withoutFarReads, h.nearPart_eq]

/-- Whether the `neighbours` of an array reach far can be computed from the points that are found.
-/
theorem reachesFar_neighbours :
    ReachesFar (s.neighbours array) ↔ (s.pointsOf array).flatten.any isFar = true := by
  rw [ReachesFar, ← setOf_mem_found, offsetsIn_setOf_mem, List.any_eq_true]
  rfl

/-! ## §3 The two shapes -/

/-- The `nearPart` of an array is not kept against a shape: it has fewer points, or as many and a
name that does not come later. -/
def NearYields (s : Scene) (array : String) (shape : StencilShape) : Prop :=
  (nearPart (s.neighbours array)).ncard < shape.points ∨
    (nearPart (s.neighbours array)).ncard = shape.points ∧ array ≤ shape.array

/-- The `stencilShape?` is left as it is in `withoutFarReads` if no array whose far loads are taken
away would win without them. -/
theorem stencilShape?_withoutFarReads_of_some (hshape : s.stencilShape? = some shape)
    (hfar : ∀ array, ReachesFar (s.neighbours array) →
      IsNeighbourhood (nearPart (s.neighbours array)) → s.NearYields array shape) :
    s.withoutFarReads.stencilShape? = some shape := by
  obtain ⟨hstencil, hmeasures, hlargest⟩ := stencilShape?_eq_some_iff.mp hshape
  rw [stencilShape?_eq_some_iff, isNeighbourhood_withoutFarReads hstencil]
  refine ⟨hstencil, hmeasures, fun other hother => ?_⟩
  rw [neighbours_withoutFarReads] at hother ⊢
  -- An array that is never read far is what it was, and the shape was the largest then.
  by_cases hreaches : ReachesFar (s.neighbours other)
  · exact hfar other hreaches hother
  · rw [nearPart_eq_self hreaches] at hother ⊢
    exact hlargest other hother

/-- A shape that is found in `withoutFarReads`, of an array that has no far loads, was there before.
-/
theorem stencilShape?_of_withoutFarReads (hshape : s.withoutFarReads.stencilShape? = some shape)
    (hnear : ¬ ReachesFar (s.neighbours shape.array)) : s.stencilShape? = some shape := by
  obtain ⟨hstencil, hmeasures, hlargest⟩ := stencilShape?_eq_some_iff.mp hshape
  rw [neighbours_withoutFarReads, nearPart_eq_self hnear] at hstencil hmeasures
  refine stencilShape?_eq_some_iff.mpr ⟨hstencil, hmeasures, fun other hother => ?_⟩
  have hsame := isNeighbourhood_withoutFarReads hother
  rw [← hsame] at hother ⊢
  exact hlargest other hother

/-- **When far loads do not matter to the shape of a stencil.** The `stencilShape?` of a loop is the
one that is left in `withoutFarReads` exactly if every array that is read far, and has a
neighbourhood among its near offsets, yields to the shape of the loop. The array of a shape is never
read far. So with the far loads gone there still is a shape, to which the old one yields; and if it
is another, it is that of an array that was read far. -/
theorem shape_ignores_far_reads_iff (s : Scene) :
    (s.withoutFarReads.stencilShape? = s.stencilShape? ↔
      ∀ array, ReachesFar (s.neighbours array) →
        IsNeighbourhood (nearPart (s.neighbours array)) →
          ∃ shape, s.stencilShape? = some shape ∧ s.NearYields array shape) ∧
    (∀ shape, s.stencilShape? = some shape → ¬ ReachesFar (s.neighbours shape.array) ∧
      ∃ left, s.withoutFarReads.stencilShape? = some left ∧ shape.YieldsTo left) ∧
    ∀ left, s.withoutFarReads.stencilShape? = some left →
      s.stencilShape? = some left ∨ ReachesFar (s.neighbours left.array) := by
  refine ⟨⟨fun hsame array _ hnear => ?_, fun hyield => ?_⟩, fun shape hshape => ?_,
    fun left hleft => ?_⟩
  · rw [← neighbours_withoutFarReads] at hnear
    obtain ⟨shape, hshape⟩ := Option.isSome_iff_exists.mp (isSome_stencilShape?.mpr ⟨array, hnear⟩)
    refine ⟨shape, hsame ▸ hshape, ?_⟩
    rw [NearYields, ← neighbours_withoutFarReads]
    exact (stencilShape?_eq_some_iff.mp hshape).2.2 array hnear
  · have hkept : ∀ shape, s.stencilShape? = some shape →
        s.withoutFarReads.stencilShape? = some shape := by
      intro shape hshape
      refine stencilShape?_withoutFarReads_of_some hshape fun array hfar hnear => ?_
      obtain ⟨other, hother, hyields⟩ := hyield array hfar hnear
      cases Option.some.inj (hother.symm.trans hshape)
      exact hyields
    cases hleft : s.withoutFarReads.stencilShape? with
    | none =>
      -- A shape of the loop would have been kept.
      cases hshape : s.stencilShape? with
      | none => rfl
      | some shape =>
        rw [hkept shape hshape] at hleft
        cases hleft
    | some left =>
      -- If the array of the new shape was read far, it yields to a shape that the loop had all
      -- along.
      by_cases hfar : ReachesFar (s.neighbours left.array)
      · have hnear := (stencilShape?_eq_some_iff.mp hleft).1
        rw [neighbours_withoutFarReads] at hnear
        obtain ⟨shape, hshape, -⟩ := hyield left.array hfar hnear
        rw [hshape, ← hleft, hkept shape hshape]
      · exact (stencilShape?_of_withoutFarReads hleft hfar).symm
  · obtain ⟨hstencil, hmeasures, -⟩ := stencilShape?_eq_some_iff.mp hshape
    have hsame := isNeighbourhood_withoutFarReads hstencil
    refine ⟨hstencil.not_reachesFar, ?_⟩
    have hsome := isSome_stencilShape?.mpr ⟨shape.array, hsame.symm ▸ hstencil⟩
    obtain ⟨left, hleft⟩ := Option.isSome_iff_exists.mp hsome
    have hyields := (stencilShape?_eq_some_iff.mp hleft).2.2 shape.array (hsame.symm ▸ hstencil)
    rw [hsame, ← hmeasures.points] at hyields
    exact ⟨left, hleft, hyields⟩
  · by_cases hfar : ReachesFar (s.neighbours left.array)
    · exact .inr hfar
    · exact .inl (stencilShape?_of_withoutFarReads hleft hfar)

end Scene

/-- A loop that reads `A` at `i - 1`, at `i`, at `i + 1` and at `i + 10`. -/
def Loop.nearAndFar : Loop :=
  straight ⟨0⟩ [
    .phi ⟨0⟩ [(.int 0, ⟨0⟩), (.value ⟨2⟩, ⟨1⟩)],
    .binary ⟨1⟩ .sub (.value ⟨0⟩) (.int 1),
    .binary ⟨2⟩ .add (.value ⟨0⟩) (.int 1),
    .binary ⟨3⟩ .add (.value ⟨0⟩) (.int 10),
    .elementPtr ⟨4⟩ (.symbol "A") [.value ⟨1⟩],
    .load ⟨5⟩ (.value ⟨4⟩),
    .elementPtr ⟨6⟩ (.symbol "A") [.value ⟨0⟩],
    .load ⟨7⟩ (.value ⟨6⟩),
    .elementPtr ⟨8⟩ (.symbol "A") [.value ⟨2⟩],
    .load ⟨9⟩ (.value ⟨8⟩),
    .elementPtr ⟨10⟩ (.symbol "A") [.value ⟨3⟩],
    .load ⟨11⟩ (.value ⟨10⟩)]

/-- `Loop.nearAndFar` has no shape, and without its one far load it has one of three points. -/
theorem Scene.nearAndFar_shape_lost :
    (Scene.of Loop.nearAndFar).stencilShape? = none ∧
    (Scene.of Loop.nearAndFar).withoutFarReads.stencilShape? = some ⟨"A", 3, 1, 1⟩ := by
  decide +kernel

/-- `Loop.nearAndFar` with further loads of `B` at `i - 1`, at `i`, at `i + 1` and at `i + 2`. -/
def Loop.nearAndFarBeside : Loop :=
  straight ⟨0⟩ (Loop.nearAndFar.instructions ++ [
    .binary ⟨12⟩ .add (.value ⟨0⟩) (.int 2),
    .elementPtr ⟨13⟩ (.symbol "B") [.value ⟨1⟩],
    .load ⟨14⟩ (.value ⟨13⟩),
    .elementPtr ⟨15⟩ (.symbol "B") [.value ⟨0⟩],
    .load ⟨16⟩ (.value ⟨15⟩),
    .elementPtr ⟨17⟩ (.symbol "B") [.value ⟨2⟩],
    .load ⟨18⟩ (.value ⟨17⟩),
    .elementPtr ⟨19⟩ (.symbol "B") [.value ⟨12⟩],
    .load ⟨20⟩ (.value ⟨19⟩)])

/-- The far load of `A` does not matter in `Loop.nearAndFarBeside`: the three near points of `A`
yield to the four of `B`, which is never read far. -/
theorem Scene.nearAndFarBeside_shape_kept :
    let s := Scene.of Loop.nearAndFarBeside
    s.withoutFarReads.stencilShape? = some ⟨"B", 4, 2, 1⟩ ∧
      ReachesFar (s.neighbours "A") ∧ IsNeighbourhood (nearPart (s.neighbours "A")) ∧
      (nearPart (s.neighbours "A")).ncard ≤ 4 ∧ ¬ ReachesFar (s.neighbours "B") := by
  intro s
  have hshape : s.stencilShape? = some ⟨"B", 4, 2, 1⟩ := by decide +kernel
  have hleft : s.withoutFarReads.stencilShape? = some ⟨"B", 4, 2, 1⟩ := by decide +kernel
  have hfar : ReachesFar (s.neighbours "A") := reachesFar_neighbours.mpr (by decide +kernel)
  have hnear : IsNeighbourhood (nearPart (s.neighbours "A")) := by
    rw [← neighbours_withoutFarReads, ← isStencil_pointsOf]
    decide +kernel
  obtain ⟨hiff, hnever, -⟩ := shape_ignores_far_reads_iff s
  obtain ⟨shape, hsome, hyields⟩ := hiff.mp (hleft.trans hshape.symm) "A" hfar hnear
  obtain rfl := Option.some.inj (hshape.symm.trans hsome)
  refine ⟨hleft, hfar, hnear, ?_, (hnever _ hshape).1⟩
  rcases hyields with hlt | ⟨heq, -⟩
  · exact hlt.le
  · exact heq.le

end LoopAnalysis
