import LoopAnalysis.Proofs.Dependence.Findings
import LoopAnalysis.Proofs.Dependence.Relation
import LoopAnalysis.Proofs.Program.Straight

/-!
# Exactness of the comparison of two accesses

Two accesses are compared dimension by dimension in words. Where that is possible at all, the
answer is that of the integers; and where no index sweeps a range, the relation does not only hold
wherever the accesses touch one place, it says exactly when they do.

## Main definitions

- `Word.Fits`, `Comparable`: integers that a word can hold, and affine indices whose comparison
  stays within words;
- `AccessSite.IsPlain`: no index of the access sweeps a range.

## Main statements

- `relateDimension_affine`, `relateDimension_overflow`: one dimension, for all words;
- `relateDimensions_complete`, `Loop.relate_iff`: all dimensions together;
- `relate_overflow`: a comparison that leaves the words is given up;
- `Loop.recorded_distance`: what a recorded distance says about a store and a load;
- `Loop.relate_exact`: all of it for two accesses of a loop.
-/

namespace LoopAnalysis

/-! ## §1 Words -/

namespace Word

/-- A word can hold the integer. -/
def Fits (z : Int) : Prop := -2 ^ 63 ≤ z ∧ z < 2 ^ 63

theorem fits_toInt (w : Int64) : Fits w.toInt := ⟨w.le_toInt, w.toInt_lt⟩

theorem ofInt?_eq_none_iff {z : Int} : ofInt? z = none ↔ ¬ Fits z := by
  unfold ofInt? Fits
  split
  · next h => exact iff_of_false (by simp) (by omega)
  · next h => exact iff_of_true rfl (by omega)

theorem exists_ofInt? {z : Int} (h : Fits z) : ∃ w, ofInt? z = some w := by
  rw [← Option.isSome_iff_exists, Option.isSome_iff_ne_none]
  exact fun hnone => ofInt?_eq_none_iff.mp hnone h

/-- A remainder is smaller than its divisor, so it `Fits`. -/
theorem fits_tmod {b : Int64} (a : Int) (hb : b ≠ 0) : Fits (a.tmod b.toInt) := by
  have hzero : b.toInt ≠ 0 := fun h => hb (eq_zero_iff.mpr h)
  have hlow : -2 ^ 63 ≤ b.toInt := b.le_toInt
  have hhigh : b.toInt < 2 ^ 63 := b.toInt_lt
  have habs := Int.natAbs_tmod a b.toInt
  have hlt : a.natAbs % b.toInt.natAbs < b.toInt.natAbs := Nat.mod_lt _ (by omega)
  unfold Fits
  omega

/-- Remainders by `rem?` exist where quotients do. -/
theorem exists_rem? {a b : Int64} (hb : b ≠ 0) (h : Fits (a.toInt.tdiv b.toInt)) :
    ∃ r, rem? a b = some r := by
  obtain ⟨r, hr⟩ := exists_ofInt? (fits_tmod a.toInt hb)
  refine ⟨r, ?_⟩
  unfold Fits at h
  rw [rem?, if_neg hb, if_pos (by omega), hr]

end Word

/-! ## §2 One dimension -/

/-- The comparison of two affine indices of one coefficient stays within words. -/
structure Comparable (c oa ob : Int64) : Prop where
  coefficient : c ≠ 0
  difference  : Word.Fits (oa.toInt - ob.toInt)
  quotient    : Word.Fits ((oa.toInt - ob.toInt).tdiv c.toInt)

section Dimension

variable {c oa ob : Int64} {x y : Operand}

/-- **Within words the comparison is that of the integers**: the indices are `apart` where the
coefficient does not divide the difference of the offsets, and else `shift`ed by the quotient. -/
theorem relateDimension_affine (h : Comparable c oa ob) (x y : Operand) :
    (¬ c.toInt ∣ oa.toInt - ob.toInt ∧
      relateDimension (.affine c oa) (.affine c ob) x y = .ok .apart) ∨
    ∃ d : Int64, c.toInt * d.toInt = oa.toInt - ob.toInt ∧
      relateDimension (.affine c oa) (.affine c ob) x y = .ok (.shift d) := by
  obtain ⟨delta, hdelta⟩ := Word.exists_ofInt? h.difference
  have hexact := Word.ofInt?_eq_some_iff.mp hdelta
  have hquotient := h.quotient
  rw [← hexact] at hquotient
  obtain ⟨r, hr⟩ := Word.exists_rem? h.coefficient hquotient
  obtain ⟨d, hd⟩ := Word.exists_ofInt? hquotient
  have hdiv : Word.div? delta c = some d := by rw [Word.div?, if_neg h.coefficient, hd]
  have hsub : Word.sub? oa ob = some delta := hdelta
  rw [← hexact]
  -- The remainder decides, and it is the one of the integers.
  by_cases hdvd : c.toInt ∣ delta.toInt
  · refine .inr ⟨d, ?_, ?_⟩
    · rw [Word.ofInt?_eq_some_iff.mp hd, Int.mul_tdiv_cancel' hdvd]
    · simp [relateDimension, hsub, hr, hdiv, (Word.rem?_eq_zero hr).mpr hdvd]
  · refine .inl ⟨hdvd, ?_⟩
    have hne : r ≠ 0 := fun hzero => hdvd ((Word.rem?_eq_zero hr).mp hzero)
    simp [relateDimension, hsub, hr, hdiv, hne]

/-- **Nothing wraps**: where the indices are not `Comparable`, so that the comparison would leave
the words or divide by zero, it is given up. -/
theorem relateDimension_overflow (h : ¬ Comparable c oa ob) (x y : Operand) :
    relateDimension (.affine c oa) (.affine c ob) x y = .error .overflow := by
  simp only [relateDimension, if_true]
  split
  · rfl
  · next delta hsub =>
    split
    · next r d hrem hdiv =>
      -- A difference and a quotient that exist show that the comparison stays within words.
      have hdelta := Word.sub?_eq_some_iff.mp hsub
      obtain ⟨hc, hd⟩ := Word.div?_eq_some_iff.mp hdiv
      refine absurd ⟨hc, ?_, ?_⟩ h
      · rw [← hdelta]
        exact Word.fits_toInt delta
      · rw [← hdelta, ← hd]
        exact Word.fits_toInt d
    · rfl

/-- The least word divided by `-1`. -/
example : relateDimension (.affine (-1) Int64.minValue) (.affine (-1) 0) (.int 0) (.int 0) =
    .error .overflow := by decide

theorem relateDimension_affine_ne_free {b : IndexTerm} :
    relateDimension (.affine c oa) b x y ≠ .ok .free := by
  cases b with
  | affine cb ob =>
    simp only [relateDimension]
    split
    · split
      · simp
      · split
        · split <;> simp
        · simp
    · simp
  | _ => simp [relateDimension]

end Dimension

/-! ## §3 All dimensions -/

/-- An index that sweeps a range in every iteration. -/
def IndexTerm.isSwept : IndexTerm → Bool
  | .swept _ => true
  | _ => false

section Dimensions

variable {dims : List ((IndexTerm × IndexTerm) × (Operand × Operand))} {found : Option Int64}

/-- A `distance` is never zero. -/
theorem ne_zero_of_relateDimensions {d : Int64}
    (h : relateDimensions found dims = .ok (.distance d)) : d ≠ 0 := by
  fun_induction relateDimensions found dims with
  | case1 => cases h
  | case2 e =>
    split at h
    · cases h
    · next he =>
      cases h
      exact he
  | case3 | case4 | case8 => cases h
  | case5 _ _ _ _ _ _ _ ih | case6 _ _ _ _ _ _ _ ih | case7 _ _ _ _ _ _ _ ih => exact ih h

/-- Only accesses without an affine index are `uniform` and meet in every two iterations. -/
theorem not_isAffine_of_uniform (h : relateDimensions found dims = .ok .uniform) :
    found = none ∧ ∀ dim ∈ dims, dim.1.1.isAffine = false := by
  fun_induction relateDimensions found dims with
  | case1 => exact ⟨rfl, by simp⟩
  | case2 e => split at h <;> cases h
  | case3 | case4 | case8 => cases h
  | case5 found a b x y rest hfree ih =>
    obtain ⟨hnone, hrest⟩ := ih h
    refine ⟨hnone, fun dim hdim => ?_⟩
    rcases List.mem_cons.mp hdim with rfl | hdim
    · -- An affine index is never left open.
      cases a with
      | affine c o => exact absurd hfree relateDimension_affine_ne_free
      | _ => rfl
    · exact hrest dim hdim
  | case6 _ _ _ _ _ _ _ ih | case7 _ _ _ _ _ _ _ ih => cases (ih h).1

/-- A dimension that cannot be compared leaves an answer only where those before it have given one:
they are `independent`. -/
theorem independent_of_error {k : Nat} {a b : IndexTerm} {x y : Operand} {e : Ambiguity}
    {rel : Relation} (hdim : dims[k]? = some ((a, b), (x, y)))
    (herror : relateDimension a b x y = .error e) (h : relateDimensions found dims = .ok rel) :
    relateDimensions found (dims.take k) = .ok .independent := by
  -- Walk to the dimension that fails; before it the answer must have been found.
  induction dims generalizing found k with
  | nil => simp at hdim
  | cons dim rest ih =>
    obtain ⟨⟨a', b'⟩, x', y'⟩ := dim
    cases k with
    | zero =>
      simp only [List.getElem?_cons_zero, Option.some.injEq, Prod.mk.injEq] at hdim
      obtain ⟨⟨rfl, rfl⟩, rfl, rfl⟩ := hdim
      rw [relateDimensions, herror] at h
      cases h
    | succ k =>
      rw [List.getElem?_cons_succ] at hdim
      rw [relateDimensions] at h
      rw [List.take_succ_cons, relateDimensions]
      cases hhead : relateDimension a' b' x' y' with
      | error _ =>
        rw [hhead] at h
        cases h
      | ok head =>
        rw [hhead] at h
        cases head with
        | apart => rfl
        | free => exact ih hdim h
        | shift d =>
          cases found with
          | none => exact ih hdim h
          | some previous =>
            by_cases hsame : previous = d
            · simp only [hsame, if_true] at h ⊢
              exact ih hdim h
            · simp only [hsame, if_false]

end Dimensions

/-! ## §4 When two accesses meet -/

section Meeting

variable {lp : Loop} {iv : ValueId} {r₁ r₂ : Valuation} {x y : Operand}

/-- A dimension that is `free` without sweeping anything is one place. -/
theorem relateDimension_free (hagree : Valuation.AgreeOutside lp.toLoopBody r₁ r₂)
    (hx : x.isFractional = false) (hxs : (lp.classifyIndex x).isSwept = false)
    (hys : (lp.classifyIndex y).isSwept = false)
    (h : relateDimension (lp.classifyIndex x) (lp.classifyIndex y) x y = .ok .free) :
    r₁.eval x = r₂.eval y := by
  obtain ⟨c, oa, ob, delta, r, d, -, -, -, -, -, hrel⟩ | ⟨s, t, ha, -, hbeq, -⟩ |
    ⟨s, t, m, n, -, -, -, -, -, hrel⟩ | ⟨s, hswept, -⟩ := relateDimension_cases h
  · split at hrel <;> cases hrel
  · -- Two invariant operands that compare equal; as they are no fractions, they are one.
    rcases Operand.eq_or_float_of_beq hbeq with rfl | ⟨a, b, rfl, -, -⟩
    · exact hagree.eval_eq (Loop.isInvariant_of_classifyIndex ha)
    · cases hx
  · cases hrel
  · rcases hswept with hswept | hswept
    · rw [hswept] at hxs
      cases hxs
    · rw [hswept] at hys
      cases hys

/-- **Completeness of `relateDimensions`**: where no index sweeps a range, accesses whose relation
`Allows` the distance of two iterations touch one place in them. -/
theorem relateDimensions_complete (hiv : lp.inductionVariable = some iv)
    (h₁ : r₁.Respects lp.toLoopBody) (h₂ : r₂.Respects lp.toLoopBody)
    (hagree : Valuation.AgreeOutside lp.toLoopBody r₁ r₂) {xs ys : List Operand}
    {found : Option Int64} {rel : Relation} (hlength : xs.length = ys.length)
    (hxs : ∀ x ∈ xs, x.isFractional = false ∧ (lp.classifyIndex x).isSwept = false)
    (hys : ∀ y ∈ ys, (lp.classifyIndex y).isSwept = false)
    (h : relateDimensions found (lp.dimensions xs ys) = .ok rel)
    (hallows : rel.Allows (r₂.value iv - r₁.value iv)) :
    (∀ d, found = some d → r₂.value iv - r₁.value iv = d.toInt) ∧
      xs.map r₁.eval = ys.map r₂.eval := by
  -- A distance once found stays, or the relation allows nothing.
  induction xs generalizing ys found with
  | nil =>
    cases ys with
    | cons => cases hlength
    | nil =>
      refine ⟨fun d hd => ?_, rfl⟩
      subst hd
      simp only [Loop.dimensions, List.map_nil, List.zip_nil_left, relateDimensions,
        Except.ok.injEq] at h
      subst h
      split at hallows
      · next hzero =>
        rw [Word.eq_zero_iff] at hzero
        exact Eq.trans hallows hzero.symm
      · exact hallows
  | cons x xs ih =>
    cases ys with
    | nil => cases hlength
    | cons y ys =>
      obtain ⟨⟨hxf, hxs'⟩, hxs⟩ := List.forall_mem_cons.mp hxs
      obtain ⟨hys', hys⟩ := List.forall_mem_cons.mp hys
      have hlength : xs.length = ys.length := Nat.succ.inj hlength
      rw [Loop.dimensions_cons, relateDimensions] at h
      cases hdim : relateDimension (lp.classifyIndex x) (lp.classifyIndex y) x y with
      | error e =>
        rw [hdim] at h
        cases h
      | ok dim =>
        rw [hdim] at h
        cases dim with
        | apart =>
          cases h
          cases hallows
        | free =>
          obtain ⟨hfound, hrest⟩ := ih hlength hxs hys h
          have hxy := relateDimension_free hagree hxf hxs' hys' hdim
          exact ⟨hfound, by rw [List.map_cons, List.map_cons, hxy, hrest]⟩
        | shift d =>
          -- Another distance than the one found before would allow nothing.
          have hgoes : relateDimensions (some d) (lp.dimensions xs ys) = .ok rel ∧
              ∀ e, found = some e → e = d := by
            cases found with
            | none => exact ⟨h, by simp⟩
            | some previous =>
              by_cases hsame : previous = d
              · simp only [hsame, if_true] at h
                exact ⟨h, by simp [hsame]⟩
              · simp only [hsame, if_false] at h
                cases h
                cases hallows
          obtain ⟨hgap, hrest⟩ := ih hlength hxs hys hgoes.1
          have hgap : r₂.value iv - r₁.value iv = d.toInt := hgap d rfl
          have hxy := (relateDimension_shift hiv h₁ h₂ hdim).mpr hgap
          refine ⟨fun e he => ?_, by rw [List.map_cons, List.map_cons, hxy, hrest]⟩
          rw [hgoes.2 e he]
          exact hgap

end Meeting

/-! ## §5 Two accesses of a loop -/

namespace AccessSite

/-- No index of the access sweeps a range. -/
def IsPlain (s : AccessSite) : Prop := ∀ term ∈ s.terms, term.isSwept = false

/-- The first dimensions of an access. -/
def upTo (s : AccessSite) (k : Nat) : AccessSite :=
  { s with indices := s.indices.take k, terms := s.terms.take k }

end AccessSite

/-- Accesses that are related have the same number of dimensions. -/
theorem relate_eq_ok {a b : AccessSite} {rel : Relation} (h : relate a b = .ok rel) :
    a.terms.length = b.terms.length ∧
      relateDimensions none ((a.terms.zip b.terms).zip (a.indices.zip b.indices)) = .ok rel := by
  unfold relate at h
  split at h
  · cases h
  · split at h
    · cases h
    · next hlength => exact ⟨not_not.mp hlength, h⟩

namespace Loop

variable {lp : Loop} {iv : ValueId} {r₁ r₂ : Valuation} {a b : AccessSite}

theorem length_terms (ha : a ∈ lp.accesses) : a.terms.length = a.indices.length := by
  rw [terms_eq_map ha, List.length_map]

/-- **When two accesses meet**: where no index sweeps a range, they touch one place exactly in the
iterations that their relation `Allows`. -/
theorem relate_iff (hiv : lp.inductionVariable = some iv) (h₁ : r₁.Respects lp.toLoopBody)
    (h₂ : r₂.Respects lp.toLoopBody) (hagree : Valuation.AgreeOutside lp.toLoopBody r₁ r₂)
    (ha : a ∈ lp.accesses) (hb : b ∈ lp.accesses)
    (hfractions : ∀ x ∈ a.indices, x.isFractional = false) (haPlain : a.IsPlain)
    (hbPlain : b.IsPlain) {rel : Relation} (h : relate a b = .ok rel) :
    a.indices.map r₁.eval = b.indices.map r₂.eval ↔ rel.Allows (r₂.value iv - r₁.value iv) := by
  constructor
  · exact relate_sound hiv h₁ h₂ ha hb h
  · intro hallows
    obtain ⟨hlength, hdims⟩ := relate_eq_ok h
    rw [length_terms ha, length_terms hb] at hlength
    rw [AccessSite.IsPlain, terms_eq_map ha, List.forall_mem_map] at haPlain
    rw [AccessSite.IsPlain, terms_eq_map hb, List.forall_mem_map] at hbPlain
    rw [terms_eq_map ha, terms_eq_map hb] at hdims
    exact (relateDimensions_complete hiv h₁ h₂ hagree hlength
      (fun x hx => ⟨hfractions x hx, haPlain x hx⟩) hbPlain hdims hallows).2

/-- **A comparison that leaves the words is given up**, unless the dimensions before, those `upTo`
this one, tell the accesses apart. -/
theorem relate_overflow (ha : a ∈ lp.accesses) (hb : b ∈ lp.accesses) {k : Nat} {c oa ob : Int64}
    (hak : a.terms[k]? = some (.affine c oa)) (hbk : b.terms[k]? = some (.affine c ob))
    (hover : ¬ Comparable c oa ob) :
    (∃ e, relate a b = .error e) ∨ relate (a.upTo k) (b.upTo k) = .ok .independent := by
  cases hrel : relate a b with
  | error e => exact .inl ⟨e, rfl⟩
  | ok rel =>
    refine .inr ?_
    obtain ⟨hlength, hdims⟩ := relate_eq_ok hrel
    obtain ⟨haBase, hbBase⟩ := baseInvariant_of_relate hrel
    obtain ⟨hka, -⟩ := List.getElem?_eq_some_iff.mp hak
    obtain ⟨hkb, -⟩ := List.getElem?_eq_some_iff.mp hbk
    rw [length_terms ha] at hka
    rw [length_terms hb] at hkb
    have hdim : ((a.terms.zip b.terms).zip (a.indices.zip b.indices))[k]? =
        some ((.affine c oa, .affine c ob), (a.indices[k], b.indices[k])) := by
      simp [List.getElem?_zip_eq_some, hak, hbk, hka, hkb]
    have hbefore := independent_of_error hdim (relateDimension_overflow hover _ _) hdims
    simp only [List.zip_eq_zipWith, List.take_zipWith] at hbefore
    unfold relate AccessSite.upTo
    rw [if_neg (by simp [haBase, hbBase]), if_neg (by simp [hlength])]
    simp only [List.zip_eq_zipWith]
    exact hbefore

/-- Accesses that are `uniform` have no affine index. -/
theorem not_isAffine_of_relate_uniform (ha : a ∈ lp.accesses) (hb : b ∈ lp.accesses)
    (h : relate a b = .ok .uniform) : ∀ term ∈ a.terms, term.isAffine = false := by
  obtain ⟨hlength, hdims⟩ := relate_eq_ok h
  -- The dimensions list the terms of the first access in order.
  have hfirst : ((a.terms.zip b.terms).zip (a.indices.zip b.indices)).map (·.1.1) = a.terms := by
    have hpairs : (a.terms.zip b.terms).length ≤ (a.indices.zip b.indices).length := by
      rw [List.length_zip, List.length_zip, length_terms ha, length_terms hb]
    calc ((a.terms.zip b.terms).zip (a.indices.zip b.indices)).map (·.1.1)
        = (((a.terms.zip b.terms).zip (a.indices.zip b.indices)).map Prod.fst).map Prod.fst := by
          rw [List.map_map]
          rfl
      _ = a.terms := by rw [List.map_fst_zip hpairs, List.map_fst_zip (Nat.le_of_eq hlength)]
  intro term hterm
  rw [← hfirst] at hterm
  obtain ⟨dim, hdim, rfl⟩ := List.mem_map.mp hterm
  exact (not_isAffine_of_uniform hdims).2 dim hdim

/-! ## §6 Recorded dependences -/

/-- A dependence that `relatePair` records between a store with an affine index and a load is a
distance that was found: the load comes later after a `raw`, earlier for a `war`. -/
theorem recorded_distance (ha : a ∈ lp.accesses) (hb : b ∈ lp.accesses)
    (haffine : ∃ term ∈ a.terms, term.isAffine = true) (hread : b.isRead = true)
    {accumulator : Option Accumulator} {dep : CarriedDependence}
    (hdep : dep ∈ (relatePair a accumulator b).carried) (hlimit : dep.distance < 2 ^ 32 - 1) :
    ∃ d, relate a b = .ok (.distance d) ∧ 0 < dep.distance ∧
      (dep.kind = .raw ∧ d.toInt = dep.distance ∨ dep.kind = .war ∧ d.toInt = -dep.distance) := by
  obtain ⟨term, hterm, haffine⟩ := haffine
  -- An affine index moves, so the two do not meet everywhere.
  have hmoves : ∀ {other}, other ∈ lp.accesses → relate a other ≠ .ok .uniform := by
    intro other hother huniform
    rw [not_isAffine_of_relate_uniform ha hother huniform term hterm] at haffine
    cases haffine
  obtain ⟨-, -, huniform, -⟩ | ⟨-, -, -, ⟨d, hrel, rfl⟩ | ⟨huniform, -⟩⟩ :=
    mem_carried_relatePair hdep
  · exact absurd huniform (hmoves ha)
  · have hne : d ≠ 0 := ne_zero_of_relateDimensions (relate_eq_ok hrel).2
    rw [Ne, Word.eq_zero_iff] at hne
    have hkind : (shiftedDependence a b d).kind = if 0 < d.toInt then .raw else .war := by
      simp [shiftedDependence, hread]
    have hdistance : (shiftedDependence a b d).distance = d.toInt.natAbs := by
      simp only [shiftedDependence, Word.magnitude, distanceLimit] at hlimit ⊢
      omega
    rw [hdistance, hkind]
    refine ⟨d, hrel, by omega, ?_⟩
    split
    · exact .inl ⟨rfl, by omega⟩
    · exact .inr ⟨rfl, by omega⟩
  · exact absurd huniform (hmoves hb)

/-- **What `relate` says of two accesses**, in any two iterations of a loop. Accesses that are
`independent` touch different places; those of the `sameIteration` meet in no other; those at a
`distance` meet only that many iterations apart, which is never in one. Where no index sweeps a
range (`IsPlain`), they do meet there, and `uniform` accesses meet everywhere. The numbers in
between are those of the integers: where they leave the words or a coefficient is zero (not
`Comparable`), the comparison is given up. So a dependence that is recorded between a store with an
affine index and a load says in which iteration the load touches the stored place: later for a
`raw`, earlier for a `war`. -/
theorem relate_exact (hiv : lp.inductionVariable = some iv) (ha : a ∈ lp.accesses)
    (hb : b ∈ lp.accesses) (hfractions : ∀ x ∈ a.indices, x.isFractional = false)
    (h₁ : r₁.Respects lp.toLoopBody) (h₂ : r₂.Respects lp.toLoopBody)
    (hagree : Valuation.AgreeOutside lp.toLoopBody r₁ r₂) :
    let meet := a.indices.map r₁.eval = b.indices.map r₂.eval
    let gap := r₂.value iv - r₁.value iv
    let plain := a.IsPlain ∧ b.IsPlain
    (relate a b = .ok .independent → ¬ meet) ∧
    (relate a b = .ok .sameIteration →
      (meet → r₁.value iv = r₂.value iv) ∧ (plain → (meet ↔ r₁.value iv = r₂.value iv))) ∧
    (∀ d, relate a b = .ok (.distance d) →
      d ≠ 0 ∧ (meet → gap = d.toInt) ∧ (plain → (meet ↔ gap = d.toInt))) ∧
    (relate a b = .ok .uniform → plain → meet) ∧
    (∀ c oa ob : Int64, ∀ x y,
      (¬ Comparable c oa ob →
        relateDimension (.affine c oa) (.affine c ob) x y = .error .overflow ∧
        ∀ k, a.terms[k]? = some (.affine c oa) → b.terms[k]? = some (.affine c ob) →
          (∃ e, relate a b = .error e) ∨ relate (a.upTo k) (b.upTo k) = .ok .independent) ∧
      (Comparable c oa ob →
        (¬ c.toInt ∣ oa.toInt - ob.toInt ∧
          relateDimension (.affine c oa) (.affine c ob) x y = .ok .apart) ∨
        ∃ d : Int64, c.toInt * d.toInt = oa.toInt - ob.toInt ∧
          relateDimension (.affine c oa) (.affine c ob) x y = .ok (.shift d))) ∧
    (a.isWrite = true → b.isRead = true → (∃ term ∈ a.terms, term.isAffine = true) →
      ∀ dep ∈ (relatePair a (accumulatorAt? (lp.memoryAccumulators lp.accesses) a) b).carried,
        dep ∈ lp.dependenceProfile.carried ∧
        (dep.distance < 2 ^ 32 - 1 → 0 < dep.distance ∧
          ((dep.kind = .raw ∧ (meet → gap = dep.distance) ∧ (plain → (meet ↔ gap = dep.distance))) ∨
            (dep.kind = .war ∧ (meet → gap = -dep.distance) ∧
              (plain → (meet ↔ gap = -dep.distance)))))) := by
  intro meet gap plain
  have hsound : ∀ {rel}, relate a b = .ok rel → meet → rel.Allows gap := fun hrel =>
    relate_sound hiv h₁ h₂ ha hb hrel
  have hexact : ∀ {rel}, relate a b = .ok rel → plain → (meet ↔ rel.Allows gap) :=
    fun hrel hplain => relate_iff hiv h₁ h₂ hagree ha hb hfractions hplain.1 hplain.2 hrel
  refine ⟨fun hrel => hsound hrel, ?_, ?_, ?_, ?_, ?_⟩
  · intro hrel
    have hsame : gap = 0 ↔ r₁.value iv = r₂.value iv := by omega
    exact ⟨fun hmeet => hsame.mp (hsound hrel hmeet),
      fun hplain => (hexact hrel hplain).trans hsame⟩
  · intro d hrel
    exact ⟨ne_zero_of_relateDimensions (relate_eq_ok hrel).2, hsound hrel, hexact hrel⟩
  · intro hrel hplain
    exact (hexact hrel hplain).mpr trivial
  · intro c oa ob x y
    refine ⟨fun hover => ⟨relateDimension_overflow hover x y, ?_⟩, fun hcomparable =>
      relateDimension_affine hcomparable x y⟩
    intro k hak hbk
    exact relate_overflow ha hb hak hbk hover
  · intro hwrite hread haffine dep hdep
    refine ⟨?_, fun hlimit => ?_⟩
    · -- What a pair records is among the findings, and those are what the profile carries.
      have hcarried : lp.dependenceProfile.carried = (lp.findings lp.accesses).carried :=
        LoopBody.carried_ofSites
      rw [hcarried, mem_carried_findings_iff, mem_carried_memoryFindings_iff]
      exact .inl ⟨a, ha, hwrite, b, hb, hdep⟩
    · -- The kind says in which direction the distance counts.
      obtain ⟨d, hrel, hpos, hkind⟩ := recorded_distance ha hb haffine hread hdep hlimit
      refine ⟨hpos, ?_⟩
      rcases hkind with ⟨hkind, hd⟩ | ⟨hkind, hd⟩
      · rw [← hd]
        exact .inl ⟨hkind, hsound hrel, hexact hrel⟩
      · rw [← hd]
        exact .inr ⟨hkind, hsound hrel, hexact hrel⟩

/-! ## §7 A recurrence of distance two -/

/-- `for i: A[i + 2] = A[i]`. -/
def everySecond : Loop :=
  straight ⟨0⟩ [
    .phi ⟨0⟩ [(.int 0, ⟨0⟩), (.value ⟨5⟩, ⟨1⟩)],
    .elementPtr ⟨1⟩ (.symbol "A") [.value ⟨0⟩],
    .load ⟨2⟩ (.value ⟨1⟩),
    .binary ⟨3⟩ .add (.value ⟨0⟩) (.int 2),
    .elementPtr ⟨4⟩ (.symbol "A") [.value ⟨3⟩],
    .store (.value ⟨4⟩) (.value ⟨2⟩),
    .binary ⟨5⟩ .add (.value ⟨0⟩) (.int 1)]

/-- Iteration `n` of `everySecond`. -/
def everySecondAt (n : Int) : Valuation where
  value v := [n, 0, 0, n + 2, 0, n + 1].getD v.index 0
  symbol _ := 0
  fraction _ := 0

theorem respects_everySecondAt (n : Int) : (everySecondAt n).Respects everySecond.toLoopBody := by
  intro v i z hdef hz
  obtain ⟨hmem, hresult⟩ := mem_of_straight_definition hdef
  simp only [List.mem_cons, List.not_mem_nil, or_false] at hmem
  -- Only the two sums have a meaning to check.
  rcases hmem with rfl | rfl | rfl | rfl | rfl | rfl | rfl <;> cases hresult <;>
    simp [Instruction.meaning?, BinaryOp.meaning?, Valuation.eval, everySecondAt] at hz ⊢ <;>
    omega

theorem agreeOutside_everySecondAt (m n : Int) :
    Valuation.AgreeOutside everySecond.toLoopBody (everySecondAt m) (everySecondAt n) := by
  refine ⟨fun v hv => ?_, rfl, rfl⟩
  have hdefined := straight_defines_eq_false_iff.mp hv
  simp only [List.mem_cons, List.not_mem_nil, or_false, forall_eq_or_imp, forall_eq,
    Instruction.result, ne_eq, Option.some.injEq, reduceCtorEq, not_false_eq_true,
    true_and] at hdefined
  obtain ⟨k⟩ := v
  have hlarge : 6 ≤ k := by
    simp only [ValueId.mk.injEq] at hdefined
    omega
  simp [everySecondAt, hlarge]

/-- The theorem at the store and the load of `everySecond`: the load touches the stored place two
iterations later, and no other iteration does. -/
theorem everySecond_exact :
    ∃ store ∈ everySecond.accesses, ∃ load ∈ everySecond.accesses,
      relate store load = .ok (.distance 2) ∧ ∀ m n : Int,
        store.indices.map (everySecondAt m).eval = load.indices.map (everySecondAt n).eval ↔
          n - m = 2 := by
  obtain ⟨load, store, haccesses, hrel, hplain, hfractions⟩ :
      ∃ load store, everySecond.accesses = [load, store] ∧
        relate store load = .ok (.distance 2) ∧
        (∀ term ∈ store.terms ++ load.terms, term.isSwept = false) ∧
        ∀ x ∈ store.indices, x.isFractional = false :=
    ⟨_, _, rfl, by decide, by decide, by decide⟩
  have hload : load ∈ everySecond.accesses := by simp [haccesses]
  have hstore : store ∈ everySecond.accesses := by simp [haccesses]
  rw [List.forall_mem_append] at hplain
  refine ⟨store, hstore, load, hload, hrel, fun m n => ?_⟩
  obtain ⟨-, -, hdistance, -⟩ := relate_exact rfl hstore hload hfractions
    (respects_everySecondAt m) (respects_everySecondAt n) (agreeOutside_everySecondAt m n)
  obtain ⟨-, -, hmeet⟩ := hdistance 2 hrel
  exact hmeet hplain

end Loop

end LoopAnalysis
