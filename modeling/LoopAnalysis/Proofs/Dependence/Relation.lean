import LoopAnalysis.Profile.Dependence
import LoopAnalysis.Proofs.Access.Site
import LoopAnalysis.Proofs.Access.Valuation
import LoopAnalysis.Proofs.Program.Operand
import Mathlib.Tactic.Linarith

/-!
# Two accesses and the iterations in which they meet

The comparison of two accesses is sound: a relation that it reports holds in any two iterations in
which both accesses touch the same place.

## Main definitions

- `Relation.Allows`: how many iterations apart two accesses may meet under a relation.

## Main statements

- `relateDimension_apart`, `relateDimension_shift`: what a single dimension says;
- `relateDimensions_sound`: what all dimensions say together;
- `Loop.relate_sound`: the same for two accesses of a loop.
-/

namespace LoopAnalysis

/-! ## §1 One dimension -/

section Dimension

variable {lp : Loop} {iv : ValueId} {r₁ r₂ : Valuation} {x y : Operand}

/-- Affine indices with one coefficient meet exactly the reported number of iterations apart. -/
theorem affine_meet_iff {c oa ob delta r d : Int64} {m n : Int} (hc : c ≠ 0)
    (hdelta : Word.sub? oa ob = some delta) (hrem : Word.rem? delta c = some r)
    (hdiv : Word.div? delta c = some d) (hr : r = 0) :
    c.toInt * m + oa.toInt = c.toInt * n + ob.toInt ↔ n - m = d.toInt := by
  have hc' : c.toInt ≠ 0 := fun h => hc (Word.eq_zero_iff.mpr h)
  have hdelta := Word.sub?_eq_some_iff.mp hdelta
  have hd := (Word.div?_eq_some_iff.mp hdiv).2
  -- The division is exact, so the distance times the coefficient gives the offsets back.
  have hexact : c.toInt * d.toInt = oa.toInt - ob.toInt := by
    rw [hd, ← hdelta, Int.mul_tdiv_cancel' ((Word.rem?_eq_zero hrem).mp hr)]
  constructor
  · intro h
    apply Int.eq_of_mul_eq_mul_left hc'
    linarith
  · intro h
    have : c.toInt * (n - m) = oa.toInt - ob.toInt := by rw [h, hexact]
    linarith

/-- Affine indices with one coefficient never meet when it does not divide the distance of their
offsets. -/
theorem affine_apart {c oa ob delta r : Int64} {m n : Int}
    (hdelta : Word.sub? oa ob = some delta) (hrem : Word.rem? delta c = some r) (hr : r ≠ 0) :
    c.toInt * m + oa.toInt ≠ c.toInt * n + ob.toInt := by
  intro h
  apply hr
  rw [Word.rem?_eq_zero hrem, Word.sub?_eq_some_iff.mp hdelta]
  exact ⟨n - m, by linarith⟩

/-- Everything that `relateDimension` can say, and why. -/
theorem relateDimension_cases {a b : IndexTerm} {rel : DimensionRelation}
    (h : relateDimension a b x y = .ok rel) :
    (∃ c oa ob delta r d, a = .affine c oa ∧ b = .affine c ob ∧ Word.sub? oa ob = some delta ∧
      Word.rem? delta c = some r ∧ Word.div? delta c = some d ∧
      rel = if r = 0 then .shift d else .apart) ∨
    (∃ s t, a = .invariant s ∧ b = .invariant t ∧ (x == y) = true ∧ rel = .free) ∨
    (∃ s t m n, a = .invariant s ∧ b = .invariant t ∧ x = .int m ∧ y = .int n ∧ m ≠ n ∧
      rel = .apart) ∨
    (∃ s, (a = .swept s ∨ b = .swept s) ∧ rel = .free) := by
  unfold relateDimension at h
  split at h
  · next ca oa cb ob =>
    -- Two affine indices: the remainder of the division decides.
    split at h
    · next hc =>
      subst hc
      split at h
      · cases h
      · next delta hdelta =>
        split at h
        · next r d hrem hdiv =>
          refine .inl ⟨ca, oa, ob, delta, r, d, rfl, rfl, hdelta, hrem, hdiv, ?_⟩
          split at h <;> cases h <;> simp_all
        · cases h
    · cases h
  · next s t =>
    -- Two invariant indices: one place if they are equal, and apart if they are two constants.
    split at h
    · next hxy =>
      cases h
      exact .inr (.inl ⟨s, t, rfl, rfl, hxy, rfl⟩)
    · next hxy =>
      split at h
      · next m n =>
        cases h
        refine .inr (.inr (.inl ⟨s, t, m, n, rfl, rfl, rfl, rfl, ?_, rfl⟩))
        rintro rfl
        exact hxy (by simp [BEq.beq, instBEqOperand.beq])
      · cases h
  · next s t =>
    -- A swept index on either side leaves the dimension open.
    cases h
    exact .inr (.inr (.inr ⟨s, .inl rfl, rfl⟩))
  · next s t =>
    cases h
    exact .inr (.inr (.inr ⟨t, .inr rfl, rfl⟩))
  · next s t =>
    cases h
    exact .inr (.inr (.inr ⟨s, .inl rfl, rfl⟩))
  · cases h

/-- Indices that `relateDimension` finds `apart` differ in any two iterations. -/
theorem relateDimension_apart (hiv : lp.inductionVariable = some iv)
    (h₁ : r₁.Respects lp.toLoopBody) (h₂ : r₂.Respects lp.toLoopBody)
    (h : relateDimension (lp.classifyIndex x) (lp.classifyIndex y) x y = .ok .apart) :
    r₁.eval x ≠ r₂.eval y := by
  obtain ⟨c, oa, ob, delta, r, d, ha, hb, hdelta, hrem, -, hrel⟩ | ⟨s, t, -, -, -, hrel⟩ |
    ⟨s, t, m, n, -, -, rfl, rfl, hne, -⟩ | ⟨s, -, hrel⟩ := relateDimension_cases h
  · rw [Loop.classifyIndex_affine_eval hiv h₁ ha, Loop.classifyIndex_affine_eval hiv h₂ hb]
    refine affine_apart hdelta hrem fun hr => ?_
    simp [hr] at hrel
  · cases hrel
  · exact fun heq => hne (Int64.toInt_inj.mp heq)
  · cases hrel

/-- Indices that `relateDimension` finds at a `shift` meet in two iterations exactly when these are
that far apart. -/
theorem relateDimension_shift (hiv : lp.inductionVariable = some iv)
    (h₁ : r₁.Respects lp.toLoopBody) (h₂ : r₂.Respects lp.toLoopBody) {d : Int64}
    (h : relateDimension (lp.classifyIndex x) (lp.classifyIndex y) x y = .ok (.shift d)) :
    r₁.eval x = r₂.eval y ↔ r₂.value iv - r₁.value iv = d.toInt := by
  obtain ⟨c, oa, ob, delta, r, e, ha, hb, hdelta, hrem, hdiv, hrel⟩ | ⟨s, t, -, -, -, hrel⟩ |
    ⟨s, t, m, n, -, -, -, -, -, hrel⟩ | ⟨s, -, hrel⟩ := relateDimension_cases h
  · have hc : c ≠ 0 := (Loop.classifyIndex_eq_affine hiv ha).2
    split at hrel
    · next hr =>
      cases hrel
      rw [Loop.classifyIndex_affine_eval hiv h₁ ha, Loop.classifyIndex_affine_eval hiv h₂ hb]
      exact affine_meet_iff hc hdelta hrem hdiv hr
    · cases hrel
  · cases hrel
  · cases hrel
  · cases hrel

end Dimension

/-! ## §2 All dimensions -/

/-- The distances, in iterations, at which two accesses of a relation may meet. -/
def Relation.Allows : Relation → Int → Prop
  | .independent, _ => False
  | .sameIteration, gap => gap = 0
  | .distance d, gap => gap = d.toInt
  | .uniform, _ => True

/-- The dimensions of two lists of indices, in the form in which `relateDimensions` compares them.
-/
def Loop.dimensions (lp : Loop) (xs ys : List Operand) :
    List ((IndexTerm × IndexTerm) × (Operand × Operand)) :=
  ((xs.map lp.classifyIndex).zip (ys.map lp.classifyIndex)).zip (xs.zip ys)

section Dimensions

variable {lp : Loop} {iv : ValueId} {r₁ r₂ : Valuation}

@[simp] theorem Loop.dimensions_cons (x y : Operand) (xs ys : List Operand) :
    lp.dimensions (x :: xs) (y :: ys) =
      ((lp.classifyIndex x, lp.classifyIndex y), (x, y)) :: lp.dimensions xs ys := rfl

/-- **Soundness of `relateDimensions`**: where the indices of two accesses agree, the iterations lie
as far apart as the relation `Allows`, given that this holds of the distance found so far. -/
theorem relateDimensions_sound (hiv : lp.inductionVariable = some iv)
    (h₁ : r₁.Respects lp.toLoopBody) (h₂ : r₂.Respects lp.toLoopBody) {xs ys : List Operand}
    {found : Option Int64} {rel : Relation}
    (h : relateDimensions found (lp.dimensions xs ys) = .ok rel)
    (hfound : ∀ d, found = some d → r₂.value iv - r₁.value iv = d.toInt)
    (hmeet : xs.map r₁.eval = ys.map r₂.eval) :
    rel.Allows (r₂.value iv - r₁.value iv) := by
  -- The induction is on the dimensions that are left; `found` sums up those already compared.
  induction xs generalizing ys found with
  | nil =>
    cases found with
    | none =>
      cases h
      trivial
    | some d =>
      have hgap := hfound d rfl
      simp only [Loop.dimensions, List.map_nil, List.zip_nil_left, relateDimensions,
        Except.ok.injEq] at h
      subst h
      split
      · next hd =>
        rw [Word.eq_zero_iff] at hd
        exact hgap.trans hd
      · exact hgap
  | cons x xs ih =>
    cases ys with
    | nil => cases hmeet
    | cons y ys =>
      obtain ⟨hxy, hrest⟩ := List.cons.inj hmeet
      rw [Loop.dimensions_cons, relateDimensions] at h
      cases hdim : relateDimension (lp.classifyIndex x) (lp.classifyIndex y) x y with
      | error e =>
        rw [hdim] at h
        cases h
      | ok dim =>
        rw [hdim] at h
        cases dim with
        | apart => exact absurd hxy (relateDimension_apart hiv h₁ h₂ hdim)
        | free => exact ih h hfound hrest
        | shift d =>
          have hgap : r₂.value iv - r₁.value iv = d.toInt :=
            (relateDimension_shift hiv h₁ h₂ hdim).mp hxy
          have hfound' : ∀ e, some d = some e → r₂.value iv - r₁.value iv = e.toInt := by
            rintro e ⟨⟩
            exact hgap
          cases found with
          | none => exact ih h hfound' hrest
          | some previous =>
            -- Two distances that both hold are equal, so the comparison goes on.
            have hsame : previous = d :=
              Int64.toInt_inj.mp ((hfound previous rfl).symm.trans hgap)
            simp only [hsame, if_true] at h
            exact ih h hfound' hrest

/-- What `relate` says of two accesses of a loop holds wherever they touch one place. -/
theorem Loop.relate_sound (hiv : lp.inductionVariable = some iv)
    (h₁ : r₁.Respects lp.toLoopBody) (h₂ : r₂.Respects lp.toLoopBody) {s t : AccessSite}
    (hs : s ∈ lp.accesses) (ht : t ∈ lp.accesses) {rel : Relation} (h : relate s t = .ok rel)
    (hmeet : s.indices.map r₁.eval = t.indices.map r₂.eval) :
    rel.Allows (r₂.value iv - r₁.value iv) := by
  unfold relate at h
  split at h
  · cases h
  · split at h
    · cases h
    · rw [Loop.terms_eq_map hs, Loop.terms_eq_map ht] at h
      refine relateDimensions_sound hiv h₁ h₂ h ?_ hmeet
      rintro d ⟨⟩

end Dimensions

/-! ## §3 An access and itself -/

/-- A dimension compared with itself never gives a `shift` other than zero. -/
theorem relateDimension_self {a : IndexTerm} {x : Operand} {d : Int64}
    (h : relateDimension a a x x = .ok (.shift d)) : d = 0 := by
  obtain ⟨c, oa, ob, delta, r, e, ha, hb, hdelta, -, hdiv, hrel⟩ | ⟨s, t, -, -, -, hrel⟩ |
    ⟨s, t, m, n, -, -, -, -, -, hrel⟩ | ⟨s, -, hrel⟩ := relateDimension_cases h
  · obtain ⟨-, rfl⟩ := IndexTerm.affine.inj (ha.symm.trans hb)
    have hdelta : delta.toInt = 0 := by
      rw [Word.sub?_eq_some_iff.mp hdelta, Int.sub_self]
    split at hrel
    · cases hrel
      rw [Word.eq_zero_iff, (Word.div?_eq_some_iff.mp hdiv).2, hdelta, Int.zero_tdiv]
    · cases hrel
  · cases hrel
  · cases hrel
  · cases hrel

/-- Lists of dimensions compared with themselves are never at a `distance`. -/
theorem relateDimensions_self {ts : List IndexTerm} {xs : List Operand} {found : Option Int64}
    {d : Int64} (hfound : ∀ e, found = some e → e = 0) :
    relateDimensions found ((ts.zip ts).zip (xs.zip xs)) ≠ .ok (.distance d) := by
  -- Induct on the terms; the invariant is that any distance found so far is zero.
  induction ts generalizing xs found with
  | nil =>
    cases found with
    | none => rintro ⟨⟩
    | some e => simp [relateDimensions, hfound e rfl]
  | cons a ts ih =>
    cases xs with
    | nil =>
      cases found with
      | none => rintro ⟨⟩
      | some e => simp [relateDimensions, hfound e rfl]
    | cons x xs =>
      simp only [List.zip_cons_cons, relateDimensions]
      cases hdim : relateDimension a a x x with
      | error e => rintro ⟨⟩
      | ok dim =>
        cases dim with
        | apart => rintro ⟨⟩
        | free => exact ih hfound
        | shift e =>
          obtain rfl := relateDimension_self hdim
          -- The dimension adds a zero to the distances, which agrees with what was found.
          have hzero : ∀ e, some (0 : Int64) = some e → e = 0 := by
            rintro e ⟨⟩
            rfl
          cases found with
          | none => exact ih hzero
          | some previous =>
            simp only [hfound previous rfl, if_true]
            exact ih hzero

/-- An access is never at a `distance` from itself. -/
theorem relate_self_ne_distance {s : AccessSite} {d : Int64} :
    relate s s ≠ .ok (.distance d) := by
  unfold relate
  split
  · rintro ⟨⟩
  · split
    · rintro ⟨⟩
    · exact relateDimensions_self (by rintro e ⟨⟩)

/-- A dimension that does not move is `free` when compared with itself. -/
theorem relateDimension_self_of_uniform {a : IndexTerm} {x : Operand} {rel : DimensionRelation}
    (huniform : a.isUniform = true) (h : relateDimension a a x x = .ok rel) : rel = .free := by
  obtain ⟨c, oa, ob, delta, r, e, rfl, -⟩ | ⟨s, t, -, -, -, hrel⟩ |
    ⟨s, t, m, n, -, -, hm, hn, hne, -⟩ | ⟨s, -, hrel⟩ := relateDimension_cases h
  · cases huniform
  · exact hrel
  · exact absurd (Operand.int.inj (hm.symm.trans hn)) hne
  · exact hrel

theorem relateDimensions_self_of_uniform {ts : List IndexTerm} {xs : List Operand} {rel : Relation}
    (huniform : ts.all (·.isUniform) = true)
    (h : relateDimensions none ((ts.zip ts).zip (xs.zip xs)) = .ok rel) : rel = .uniform := by
  induction ts generalizing xs with
  | nil =>
    cases h
    rfl
  | cons a ts ih =>
    cases xs with
    | nil =>
      cases h
      rfl
    | cons x xs =>
      rw [List.all_cons, Bool.and_eq_true] at huniform
      simp only [List.zip_cons_cons, relateDimensions] at h
      cases hdim : relateDimension a a x x with
      | error e =>
        rw [hdim] at h
        cases h
      | ok dim =>
        obtain rfl := relateDimension_self_of_uniform huniform.1 hdim
        rw [hdim] at h
        exact ih huniform.2 h

/-- An access of one place in every iteration meets itself in every two, where it can be compared
with itself at all. -/
theorem relate_self_of_isUniform {s : AccessSite} {rel : Relation} (huniform : s.isUniform = true)
    (h : relate s s = .ok rel) : rel = .uniform := by
  rw [AccessSite.isUniform, Bool.and_eq_true] at huniform
  unfold relate at h
  split at h
  · cases h
  · split at h
    · cases h
    · exact relateDimensions_self_of_uniform huniform.2 h

/-! ## §4 Accesses of one place -/

section OnePlace

variable {lp : Loop} {x y : Operand}

/-- Equal indices that do not move leave a dimension `free`. -/
theorem relateDimension_of_beq (hbeq : (y == x) = true)
    (huniform : (lp.classifyIndex x).isUniform = true) :
    relateDimension (lp.classifyIndex x) (lp.classifyIndex y) x y = .ok .free := by
  rcases Operand.eq_or_float_of_beq hbeq with rfl | ⟨b, a, rfl, rfl, -⟩
  · cases hterm : lp.classifyIndex y with
    | invariant t => simp [relateDimension, hbeq]
    | swept t => rfl
    | affine | indirect | unresolved =>
      rw [hterm] at huniform
      cases huniform
  · -- Fractional constants need not be equal to compare so, but they never move.
    simp [Loop.classifyIndex, LoopBody.classifyOwn, LoopBody.isInvariant, relateDimension,
      Operand.beq_symm hbeq]

/-- Lists of such indices meet in every two iterations: they are `uniform`. -/
theorem relateDimensions_of_beq {xs ys : List Operand} (hbeq : (ys == xs) = true)
    (huniform : (xs.map lp.classifyIndex).all (·.isUniform) = true) :
    relateDimensions none (lp.dimensions xs ys) = .ok .uniform := by
  induction xs generalizing ys with
  | nil => rfl
  | cons x xs ih =>
    cases ys with
    | nil => cases hbeq
    | cons y ys =>
      rw [List.cons_beq_cons, Bool.and_eq_true] at hbeq
      rw [List.map_cons, List.all_cons, Bool.and_eq_true] at huniform
      rw [Loop.dimensions_cons, relateDimensions, relateDimension_of_beq hbeq.1 huniform.1]
      exact ih hbeq.2 huniform.2

/-- An access and another of the same place (`sameLocation`) meet in every two iterations. They are
told so unless the array of the other seems to move. -/
theorem Loop.relate_of_sameLocation {s t : AccessSite} (hs : s ∈ lp.accesses)
    (ht : t ∈ lp.accesses) (huniform : s.isUniform = true) (hsame : t.sameLocation s = true) :
    relate s t = if t.baseInvariant then .ok .uniform else .error .varyingBase := by
  rw [AccessSite.isUniform, Bool.and_eq_true] at huniform
  rw [AccessSite.sameLocation, Bool.and_eq_true] at hsame
  unfold relate
  cases hbase : t.baseInvariant with
  | false => simp
  | true =>
    have hlength : s.terms.length = t.terms.length := by
      rw [Loop.terms_eq_map hs, Loop.terms_eq_map ht, List.length_map, List.length_map]
      exact (List.length_eq_of_beq hsame.2).symm
    rw [if_neg (by simp [huniform.1]), if_neg (by simp [hlength]), if_pos rfl]
    rw [Loop.terms_eq_map hs] at huniform ⊢
    rw [Loop.terms_eq_map ht]
    exact relateDimensions_of_beq hsame.2 huniform.2

end OnePlace

end LoopAnalysis
