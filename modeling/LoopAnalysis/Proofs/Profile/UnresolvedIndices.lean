import LoopAnalysis.Proofs.Profile.Vectorizable
import LoopAnalysis.Proofs.Program.Straight

/-!
# Indices that a positive verdict overlooks

The pattern of an access is that of one index only: the last one that moves. What stands to the
left of it is never looked at, so a loop that gathers whole rows, `A[idx[i]][i]`, is vectorized as
if it walked along one row. This is the only way in which a vectorized loop can have an index that
is not understood.

## Main definitions

- `hidesUnresolved`: some index that is not understood has an affine one to its right.

## Main statements

- `decidingTerm_eq_some`: where the index stands that decides the pattern of an access;
- `Loop.resolved_of_relate`: two accesses are compared to the end only where all indices are
  understood;
- `Loop.resolved_indices_iff_of_vectorizable`: which indices of a vectorized loop are understood;
- `Loop.gathersRows_vectorizable`: a loop that gathers rows is vectorized.
-/

namespace LoopAnalysis

/-! ## §1 The index that decides -/

section Deciding

variable {ts after : List IndexTerm} {t : IndexTerm} {s : AccessSite}

theorem IndexTerm.isResolved_of_isUniform (h : t.isUniform = true) : t.isResolved = true := by
  cases t with
  | invariant | swept => rfl
  | affine | indirect | unresolved => cases h

/-- There is no `decidingTerm` exactly where no index moves. -/
theorem decidingTerm_eq_none_iff : decidingTerm ts = none ↔ ∀ t ∈ ts, t.isUniform = true := by
  induction ts with
  | nil => simp [decidingTerm]
  | cons t ts ih =>
    rw [List.forall_mem_cons, ← ih, decidingTerm]
    cases decidingTerm ts with
    | some found => simp
    | none => simp

/-- The `decidingTerm` is followed by indices that stay where they are, and moves itself. -/
theorem decidingTerm_eq_some (h : decidingTerm ts = some (t, after)) :
    ∃ before, ts = before ++ t :: after ∧ t.isUniform = false ∧
      ∀ u ∈ after, u.isUniform = true := by
  induction ts with
  | nil => cases h
  | cons first ts ih =>
    rw [decidingTerm] at h
    cases hrest : decidingTerm ts with
    | some found =>
      -- The index was found further to the right already.
      rw [hrest] at h
      obtain rfl := Option.some.inj h
      obtain ⟨before, rfl, hmoves, hafter⟩ := ih hrest
      exact ⟨first :: before, rfl, hmoves, hafter⟩
    | none =>
      rw [hrest] at h
      dsimp only at h
      split at h
      · cases h
      · next hmoves =>
        cases h
        exact ⟨[], rfl, by simpa using hmoves, decidingTerm_eq_none_iff.mp hrest⟩

/-- An access whose `pattern` is no less predictable than a strided one stays in one place, or the
last of its indices that moves is affine. -/
theorem AccessSite.affine_of_rank_pattern {written : List String}
    (h : (s.pattern written).rank ≤ 2) :
    s.isUniform = true ∨
      ∃ before c o, ∃ after, s.terms = before ++ .affine c o :: after ∧
        ∀ u ∈ after, u.isUniform = true := by
  unfold pattern at h
  split at h
  · exact absurd h (by decide)
  · split at h
    · next huniform => exact .inl huniform
    · split at h
      · exact absurd h (by decide)
      · next term after hdecides =>
        obtain ⟨before, hterms, hmoves, hafter⟩ := decidingTerm_eq_some hdecides
        -- The pattern is that of the index that decides, and only an affine one is predictable
        -- enough.
        cases term with
        | affine c o => exact .inr ⟨before, c, o, after, hterms, hafter⟩
        | indirect => simp [AccessPattern.rank] at h
        | unresolved => simp [AccessPattern.rank] at h
        | invariant => cases hmoves
        | swept => cases hmoves

/-- Whether some index for which `isResolved` fails has an affine one to its right. -/
def hidesUnresolved : List IndexTerm → Bool
  | [] => false
  | t :: ts => !t.isResolved && ts.any (·.isAffine) || hidesUnresolved ts

theorem hidesUnresolved_iff :
    hidesUnresolved ts = true ↔
      ∃ before t after, ts = before ++ t :: after ∧ t.isResolved = false ∧
        ∃ u ∈ after, u.isAffine = true := by
  induction ts with
  | nil => simp [hidesUnresolved]
  | cons first ts ih =>
    rw [hidesUnresolved, Bool.or_eq_true, ih, Bool.and_eq_true, Bool.not_eq_true',
      List.any_eq_true]
    constructor
    · rintro (⟨hfirst, haffine⟩ | ⟨before, t, after, rfl, ht, haffine⟩)
      · exact ⟨[], first, ts, rfl, hfirst, haffine⟩
      · exact ⟨first :: before, t, after, rfl, ht, haffine⟩
    · rintro ⟨before, t, after, hsplit, ht, haffine⟩
      cases before with
      | nil =>
        obtain ⟨rfl, rfl⟩ := List.cons.inj hsplit
        exact .inl ⟨ht, haffine⟩
      | cons _ before =>
        obtain ⟨-, rfl⟩ := List.cons.inj hsplit
        exact .inr ⟨before, t, after, rfl, ht, haffine⟩

end Deciding

/-! ## §2 Comparisons stop at an index that is not understood -/

section Comparing

variable {a b : IndexTerm} {x y : Operand}

/-- Two indices that `relateDimension` compares are both understood. -/
theorem isResolved_of_relateDimension {rel : DimensionRelation}
    (h : relateDimension a b x y = .ok rel) : a.isResolved = true ∧ b.isResolved = true := by
  constructor
  · cases a with
    | indirect | unresolved => cases b <;> cases h
    | affine | invariant | swept => rfl
  · cases b with
    | indirect | unresolved => cases a <;> cases h
    | affine | invariant | swept => rfl

/-- A dimension is never told `apart` from itself. -/
theorem relateDimension_self_ne_apart : relateDimension a a x x ≠ .ok .apart := by
  intro h
  obtain ⟨c, oa, ob, delta, r, d, ha, hb, hdelta, hrem, -, hrel⟩ | ⟨s, t, -, -, -, hrel⟩ |
    ⟨s, t, m, n, -, -, hm, hn, hne, -⟩ | ⟨s, -, hrel⟩ := relateDimension_cases h
  · -- The offsets are the same, so they differ by a multiple of the coefficient.
    obtain ⟨-, rfl⟩ := IndexTerm.affine.inj (ha.symm.trans hb)
    have hdelta : delta.toInt = 0 := by
      rw [Word.sub?_eq_some_iff.mp hdelta, Int.sub_self]
    have hr : r = 0 := by
      rw [Word.eq_zero_iff, Word.toInt_of_rem? hrem, hdelta, Int.zero_tmod]
    simp [hr] at hrel
  · cases hrel
  · exact hne (Operand.int.inj (hm.symm.trans hn))
  · cases hrel

namespace Loop

variable {lp : Loop} {s t : AccessSite}

/-- Lists of indices that `relateDimensions` compares with themselves are compared to the end. -/
theorem relateDimensions_self_ne_independent {xs : List Operand} {found : Option Int64}
    (hfound : ∀ d, found = some d → d = 0) :
    relateDimensions found (lp.dimensions xs xs) ≠ .ok .independent := by
  -- The comparison would stop early only at indices apart, or at a second distance.
  induction xs generalizing found with
  | nil =>
    cases found with
    | none => rintro ⟨⟩
    | some d => simp [dimensions, relateDimensions, hfound d rfl]
  | cons x xs ih =>
    rw [dimensions_cons, relateDimensions]
    cases hdim : relateDimension (lp.classifyIndex x) (lp.classifyIndex x) x x with
    | error e => rintro ⟨⟩
    | ok dim =>
      cases dim with
      | apart => exact absurd hdim relateDimension_self_ne_apart
      | free => exact ih hfound
      | shift d =>
        obtain rfl := relateDimension_self hdim
        have hzero : ∀ d, some (0 : Int64) = some d → d = 0 := by
          rintro d ⟨⟩
          rfl
        cases found with
        | none => exact ih hzero
        | some previous =>
          simp only [hfound previous rfl, if_true]
          exact ih hzero

/-- An access is not told apart from itself by `relate`. -/
theorem relate_self_ne_independent (hs : s ∈ lp.accesses) : relate s s ≠ .ok .independent := by
  unfold relate
  split
  · rintro ⟨⟩
  · rw [if_neg (by simp), terms_eq_map hs]
    exact relateDimensions_self_ne_independent (by rintro d ⟨⟩)

theorem resolved_of_relateDimensions {xs ys : List Operand} {found : Option Int64} {rel : Relation}
    (h : relateDimensions found (lp.dimensions xs ys) = .ok rel) (hrel : rel ≠ .independent)
    (hlength : xs.length = ys.length) :
    (∀ x ∈ xs, (lp.classifyIndex x).isResolved = true) ∧
      ∀ y ∈ ys, (lp.classifyIndex y).isResolved = true := by
  induction xs generalizing ys found with
  | nil =>
    obtain rfl := List.length_eq_zero_iff.mp hlength.symm
    simp
  | cons x xs ih =>
    cases ys with
    | nil => cases hlength
    | cons y ys =>
      rw [dimensions_cons, relateDimensions] at h
      cases hdim : relateDimension (lp.classifyIndex x) (lp.classifyIndex y) x y with
      | error e =>
        rw [hdim] at h
        cases h
      | ok dim =>
        rw [hdim] at h
        obtain ⟨hx, hy⟩ := isResolved_of_relateDimension hdim
        -- Whatever this dimension says, the comparison goes on to those that are left.
        have hgoes : ∃ found', relateDimensions found' (lp.dimensions xs ys) = .ok rel := by
          cases dim with
          | apart =>
            cases h
            exact absurd rfl hrel
          | free => exact ⟨_, h⟩
          | shift d =>
            cases found with
            | none => exact ⟨_, h⟩
            | some previous =>
              dsimp only at h
              split at h
              · exact ⟨_, h⟩
              · cases h
                exact absurd rfl hrel
        obtain ⟨found', hrest⟩ := hgoes
        obtain ⟨hxs, hys⟩ := ih hrest (Nat.succ.inj hlength)
        exact ⟨List.forall_mem_cons.mpr ⟨hx, hxs⟩, List.forall_mem_cons.mpr ⟨hy, hys⟩⟩

/-- **Only understood indices are compared to the end**: two accesses of a loop that `relate`
relates, and not because some index tells them apart, have no index that is not understood. -/
theorem resolved_of_relate (hs : s ∈ lp.accesses) (ht : t ∈ lp.accesses) {rel : Relation}
    (h : relate s t = .ok rel) (hrel : rel ≠ .independent) :
    (∀ u ∈ s.terms, u.isResolved = true) ∧ ∀ u ∈ t.terms, u.isResolved = true := by
  unfold relate at h
  split at h
  · cases h
  · split at h
    · cases h
    · next hlength =>
      rw [terms_eq_map hs, terms_eq_map ht] at h hlength ⊢
      simp only [List.forall_mem_map]
      exact resolved_of_relateDimensions h hrel (by simpa using hlength)

end Loop

end Comparing

/-! ## §3 The indices of a vectorized loop -/

/-- No row of the table that vectorizes a loop sets `requiresGather`. -/
theorem VectorizationVerdict.requiresGather_of_vectorizable {mem : MemoryProfile}
    {dep : DependenceProfile} (h : (assess mem dep).vectorizable = true) :
    (assess mem dep).requiresGather = false := by
  rcases cases_of_vectorizable h with ⟨hseq, -⟩ | ⟨⟨stride, hstride⟩, -⟩
  · simp only [assess, hseq]
    split
    · rfl
    · split <;> rfl
  · simp only [assess, hstride]
    split <;> rfl

namespace Loop

variable {lp : Loop} {s w : AccessSite} {t : IndexTerm} {before after : List IndexTerm}

/-- The `memoryFindings` of a vectorized loop are clear: nothing is carried between its accesses and
nothing is in doubt. -/
theorem clear_memoryFindings_of_vectorizable
    (h : (VectorizationVerdict.assess lp.memoryProfile lp.dependenceProfile).vectorizable = true) :
    (memoryFindings (lp.memoryAccumulators lp.accesses) lp.accesses).Clear := by
  rcases VectorizationVerdict.cases_of_vectorizable h with ⟨-, hsafe | helim⟩ | ⟨-, hsafe⟩
  · exact (LoopBody.clear_of_isSafe hsafe).2.2
  · -- The dependence to be eliminated is that of a register, so it comes from no access.
    obtain ⟨-, -, -, -, -, -, -, hcarried⟩ :=
      scalar_of_eliminable (memoryAccumulators_of_vectorizable h) helim
    obtain ⟨-, -, -, -, hcertain, -⟩ := LoopBody.lone_dependence_of_eliminable helim
    simp only [LoopBody.findings, Findings.ambiguous_concat, List.any_cons,
      Bool.or_eq_false_iff] at hcertain
    exact ⟨hcarried, hcertain.2.1⟩
  · exact (LoopBody.clear_of_isSafe hsafe).2.2

/-- A store of a vectorized loop passed `relateSelf`, so its indices are understood. -/
theorem store_resolved_of_vectorizable
    (h : (VectorizationVerdict.assess lp.memoryProfile lp.dependenceProfile).vectorizable = true)
    (hw : w ∈ lp.accesses) (hwrite : w.isWrite = true) : ∀ t ∈ w.terms, t.isResolved = true := by
  have hclear :=
    clear_memoryFindings_iff.mp (clear_memoryFindings_of_vectorizable h) w hw hwrite w hw
  have hself : (relateSelf w).Clear := by
    simpa [memoryAccumulators_of_vectorizable h, accumulatorAt?, relatePair] using hclear
  obtain ⟨-, rel, hrel, -⟩ := relate_of_clear_relateSelf hself
  refine (resolved_of_relate hw hw hrel ?_).1
  rintro rfl
  exact relate_self_ne_independent hw hrel

/-- A read of a vectorized loop with an index that is not understood is told apart by `relate` from
every store to its array. -/
theorem read_apart_of_vectorizable
    (h : (VectorizationVerdict.assess lp.memoryProfile lp.dependenceProfile).vectorizable = true)
    (hs : s ∈ lp.accesses) (hread : s.isWrite = false) (ht : t ∈ s.terms)
    (hunresolved : t.isResolved = false) (hw : w ∈ lp.accesses) (hwrite : w.isWrite = true)
    (hbase : w.base = s.base) : relate w s = .ok .independent := by
  have hclear :=
    clear_memoryFindings_iff.mp (clear_memoryFindings_of_vectorizable h) w hw hwrite s hs
  have horder : s.order ≠ w.order := by
    intro heq
    rw [eq_of_order_eq hs hw heq, hwrite] at hread
    cases hread
  obtain ⟨-, -, hrelated⟩ := relate_of_clear_relatePair horder (by simp [hread]) hclear
  rcases hrelated hbase.symm with hapart | hsame
  · exact hapart
  · -- Within one iteration all indices would have been compared.
    have hresolved := (resolved_of_relate hw hs hsame (by simp)).2 t ht
    rw [hunresolved] at hresolved
    cases hresolved

/-- An index of a vectorized loop for which `isResolved` fails has an affine one to its right. -/
theorem affine_right_of_vectorizable
    (h : (VectorizationVerdict.assess lp.memoryProfile lp.dependenceProfile).vectorizable = true)
    (hs : s ∈ lp.accesses) (hterms : s.terms = before ++ t :: after)
    (hunresolved : t.isResolved = false) : ∃ u ∈ after, u.isAffine = true := by
  have hmoves : t.isUniform ≠ true := by
    intro huniform
    rw [IndexTerm.isResolved_of_isUniform huniform] at hunresolved
    cases hunresolved
  obtain ⟨hwalks, hrank⟩ := rank_le_two_of_vectorizable h
  rcases AccessSite.affine_of_rank_pattern ((rank_pattern_le hwalks hs).trans hrank) with
    huniform | ⟨before', c, o, after', hterms', hafter'⟩
  · rw [AccessSite.isUniform, Bool.and_eq_true, List.all_eq_true] at huniform
    exact absurd (huniform.2 t (by simp [hterms])) hmoves
  · -- The index stands to the left of the affine one: it neither is that one nor follows it.
    rcases List.append_eq_append_iff.mp (hterms.symm.trans hterms') with
      ⟨between, -, hright⟩ | ⟨between, -, hleft⟩
    · cases between with
      | nil =>
        obtain ⟨rfl, -⟩ := List.cons.inj hright
        cases hunresolved
      | cons _ between =>
        obtain ⟨-, rfl⟩ := List.cons.inj hright
        exact ⟨.affine c o, by simp, rfl⟩
    · cases between with
      | nil =>
        obtain ⟨rfl, -⟩ := List.cons.inj hleft
        cases hunresolved
      | cons _ between =>
        obtain ⟨-, rfl⟩ := List.cons.inj hleft
        exact absurd (hafter' t (by simp)) hmoves

/-- **Which indices of a vectorized loop are understood.** A vectorized loop never sets
`requiresGather`. Where it has an index for which `isResolved` fails, the access is a read, an
affine index stands to the right of that index, and every store to the same array is told apart from
the read by another index. So all indices of the loop are understood exactly when no read
`hidesUnresolved`. -/
theorem resolved_indices_iff_of_vectorizable (lp : Loop)
    (h : (VectorizationVerdict.assess lp.memoryProfile lp.dependenceProfile).vectorizable = true) :
    (VectorizationVerdict.assess lp.memoryProfile lp.dependenceProfile).requiresGather = false ∧
    (∀ s ∈ lp.accesses, ∀ before t after, s.terms = before ++ t :: after → t.isResolved = false →
      s.isRead = true ∧ (∃ u ∈ after, u.isAffine = true) ∧
      ∀ w ∈ lp.accesses, w.isWrite = true → w.base = s.base → relate w s = .ok .independent) ∧
    ((∀ s ∈ lp.accesses, ∀ t ∈ s.terms, t.isResolved = true) ↔
      ∀ s ∈ lp.accesses, s.isRead = true → hidesUnresolved s.terms = false) := by
  have hread : ∀ s ∈ lp.accesses, ∀ t ∈ s.terms, t.isResolved = false → s.isRead = true := by
    intro s hs t ht hunresolved
    cases hkind : s.kind with
    | read => simp [AccessSite.isRead, hkind]
    | write =>
      have hresolved :=
        store_resolved_of_vectorizable h hs (by simp [AccessSite.isWrite, hkind]) t ht
      rw [hunresolved] at hresolved
      cases hresolved
  refine ⟨VectorizationVerdict.requiresGather_of_vectorizable h, ?_, ?_⟩
  · intro s hs before t after hterms hunresolved
    have ht : t ∈ s.terms := by simp [hterms]
    have hr := hread s hs t ht hunresolved
    have hw : s.isWrite = false := by
      simp only [AccessSite.isRead, AccessSite.isWrite, beq_iff_eq] at hr ⊢
      simp [hr]
    refine ⟨hr, affine_right_of_vectorizable h hs hterms hunresolved, ?_⟩
    intro w hmem hwrite hbase
    exact read_apart_of_vectorizable h hs hw ht hunresolved hmem hwrite hbase
  · constructor
    · intro hall s hs _
      rw [Bool.eq_false_iff, ne_eq, hidesUnresolved_iff]
      rintro ⟨before, t, after, hterms, hunresolved, -⟩
      rw [hall s hs t (by simp [hterms])] at hunresolved
      cases hunresolved
    · -- An index that is not understood would have an affine one to its right, which hides it.
      intro hnone s hs t ht
      by_contra hunresolved
      rw [Bool.not_eq_true] at hunresolved
      obtain ⟨before, after, hterms⟩ := List.append_of_mem ht
      have hhides : hidesUnresolved s.terms = true :=
        hidesUnresolved_iff.mpr ⟨before, t, after, hterms, hunresolved,
          affine_right_of_vectorizable h hs hterms hunresolved⟩
      rw [hnone s hs (hread s hs t ht hunresolved)] at hhides
      cases hhides

/-! ## §4 Rows that are walked along and rows that are gathered -/

/-- `for i: B[i] = A[row][i]`, with the row computed by the instructions of `code`. -/
def copiesFromRow (row : Operand) (code : List Instruction) : Loop :=
  straight ⟨0⟩ (.phi ⟨0⟩ [(.int 0, ⟨0⟩), (.value ⟨1⟩, ⟨1⟩)] :: code ++ [
    .elementPtr ⟨2⟩ (.symbol "A") [row, .value ⟨0⟩],
    .load ⟨3⟩ (.value ⟨2⟩),
    .elementPtr ⟨4⟩ (.symbol "B") [.value ⟨0⟩],
    .store (.value ⟨4⟩) (.value ⟨3⟩),
    .binary ⟨1⟩ .add (.value ⟨0⟩) (.int 1)])

/-- `for i: B[i] = A[idx[i]][i]`. -/
def gathersRows : Loop :=
  copiesFromRow (.value ⟨6⟩) [
    .elementPtr ⟨5⟩ (.symbol "idx") [.value ⟨0⟩],
    .load ⟨6⟩ (.value ⟨5⟩)]

/-- `for i: B[i] = A[i * i][i]`. -/
def skipsRows : Loop :=
  copiesFromRow (.value ⟨5⟩) [.binary ⟨5⟩ .mul (.value ⟨0⟩) (.value ⟨0⟩)]

/-- The theorem at a loop that walks along one row, `copiesFromRow` without code. -/
theorem copiesRow_resolved :
    (VectorizationVerdict.assess (copiesFromRow (.symbol "row") []).memoryProfile
        (copiesFromRow (.symbol "row") []).dependenceProfile).vectorizable = true ∧
      ∀ s ∈ (copiesFromRow (.symbol "row") []).accesses, ∀ t ∈ s.terms, t.isResolved = true := by
  have h : (VectorizationVerdict.assess (copiesFromRow (.symbol "row") []).memoryProfile
      (copiesFromRow (.symbol "row") []).dependenceProfile).vectorizable = true := by decide
  obtain ⟨-, -, hresolved⟩ :=
    resolved_indices_iff_of_vectorizable (copiesFromRow (.symbol "row") []) h
  exact ⟨h, hresolved.mpr (by decide)⟩

/-- **A gather can go unnoticed**: a loop that reads `A[idx[i]][i]` is vectorized and does not set
`requiresGather`, although the row is loaded within the loop; and so is one that reads
`A[i * i][i]`, although its row is not understood. -/
theorem gathersRows_vectorizable :
    ((VectorizationVerdict.assess gathersRows.memoryProfile
        gathersRows.dependenceProfile).vectorizable = true ∧
      (VectorizationVerdict.assess gathersRows.memoryProfile
        gathersRows.dependenceProfile).requiresGather = false ∧
      ∃ s ∈ gathersRows.accesses, IndexTerm.indirect ∈ s.terms) ∧
    (VectorizationVerdict.assess skipsRows.memoryProfile
        skipsRows.dependenceProfile).vectorizable = true ∧
      ∃ s ∈ skipsRows.accesses, IndexTerm.unresolved ∈ s.terms := by
  decide

end Loop

end LoopAnalysis
