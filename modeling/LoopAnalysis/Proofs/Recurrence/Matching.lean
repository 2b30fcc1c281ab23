import LoopAnalysis.Access.Recurrence
import LoopAnalysis.Proofs.Access.Site
import Mathlib.Tactic.Common

/-!
# How accumulators are matched

Inverts the search for accumulators: what the definition of an update looks like when it was read
as `previous ⊕ addend`, and what stands behind every accumulator that a loop reports.

## Main definitions

- `LoopBody.Folds`: the definition of a value has the shape that was matched;
- `Loop.Completes`: a store that completes a read of the same place to an accumulation.

## Main statements

- `folds_of_matchAccumulation`: a match comes from an operator, a comparison with a selection, or a
  call, and from nothing else;
- `registerAccumulator?_eq_some`, `completes_of_mem_memoryAccumulators`: the match and the uses
  behind the accumulators of header phis and of stores.
-/

namespace LoopAnalysis.LoopBody

variable {lp : LoopBody} {previous update : ValueId} {m : Accumulation}

/-! ## §1 The shape of an update -/

/-- The three shapes in which the definition of `update` folds something into `previous`. -/
inductive Folds (lp : LoopBody) (previous update : ValueId) (m : Accumulation) : Prop where
  /-- A binary operator. The previous value stands on the left, or on the right of an operator
  other than a difference. -/
  | binary (r : ValueId) (op : BinaryOp) (lhs rhs : Operand)
      (definition : lp.definition update = some (.binary r op lhs rhs))
      (sides : lhs.isValue previous = true ∧ m.addend = rhs ∨
        rhs.isValue previous = true ∧ op.isSub = false ∧ m.addend = lhs)
      (operator : op.reduction? = some m.operator)
      (expression : m.expression = [update])
  /-- The larger or the smaller of the previous value and the addend, by comparison. -/
  | select (r c rc : ValueId) (onTrue onFalse lhs rhs : Operand) (p : Predicate)
      (definition : lp.definition update = some (.select r (.value c) onTrue onFalse))
      (comparison : lp.definition c = some (.compare rc p lhs rhs))
      (arms : onTrue.isValue previous = true ∧ m.addend = onFalse ∨
        onFalse.isValue previous = true ∧ m.addend = onTrue)
      (sides : lhs.isValue previous = true ∧ (rhs == m.addend) = true ∨
        rhs.isValue previous = true ∧ (lhs == m.addend) = true)
      (ordered : p.isGreater = true ∨ p.isLess = true)
      (operator : m.operator = if p.isGreater == (onTrue == lhs) then .max else .min)
      (expression : m.expression = [update, c])
  /-- A call of a function whose name says minimum or maximum. -/
  | call (r : Option ValueId) (callee : String) (a b : Operand) (isPure : Bool)
      (definition : lp.definition update = some (.call r (some callee) [a, b] isPure))
      (sides : a.isValue previous = true ∨ b.isValue previous = true)
      (addend : m.addend = a ∧ a.isValue previous = false ∨
        m.addend = b ∧ b.isValue previous = false)
      (operator : calleeReduction? callee = some m.operator)
      (expression : m.expression = [update])

/-- A selection whose arms are the previous value and `other` is in `Folds` where its condition
compares the two. -/
private theorem folds_of_select {r : ValueId} {condition onTrue onFalse other : Operand}
    (hdef : lp.definition update = some (.select r condition onTrue onFalse))
    (harms : onTrue.isValue previous = true ∧ other = onFalse ∨
      onFalse.isValue previous = true ∧ other = onTrue)
    (h : (condition.value?.bind fun comparison =>
      match lp.definition comparison with
      | some (.compare _ predicate lhs rhs) =>
        if !((lhs.isValue previous && rhs == other) || (rhs.isValue previous && lhs == other)) ||
            !(predicate.isGreater || predicate.isLess) then none
        else
          some (⟨if predicate.isGreater == (onTrue == lhs) then .max else .min, other,
            [update, comparison]⟩ : Accumulation)
      | _ => none) = some m) :
    lp.Folds previous update m := by
  obtain ⟨c, hc, hmatch⟩ := Option.bind_eq_some_iff.mp h
  obtain rfl : condition = .value c := by
    cases condition with
    | value v => rw [Option.some.inj hc]
    | _ => cases hc
  split at hmatch
  · next rc p lhs rhs hcompare =>
    split at hmatch
    · cases hmatch
    · next hshape =>
      obtain rfl := Option.some.inj hmatch
      simp only [Bool.or_eq_true, Bool.not_eq_true', not_or, Bool.not_eq_false,
        Bool.and_eq_true] at hshape
      exact .select r c rc onTrue onFalse lhs rhs p hdef hcompare harms hshape.1 hshape.2 rfl rfl
  · cases hmatch

/-- What `matchAccumulation` gives has one of the three shapes of `Folds`. -/
theorem folds_of_matchAccumulation (h : lp.matchAccumulation previous update = some m) :
    lp.Folds previous update m := by
  unfold matchAccumulation at h
  split at h
  -- A binary operator, with the previous value on the left or on the right.
  · next r op lhs rhs hdef =>
    simp only [bind, pure, Option.bind_some] at h
    split at h
    · next hl =>
      obtain ⟨red, hred, heq⟩ := Option.bind_eq_some_iff.mp h
      obtain rfl := Option.some.inj heq
      exact .binary r op lhs rhs hdef (.inl ⟨hl, rfl⟩) hred rfl
    · split at h
      · next hr =>
        rw [Bool.and_eq_true, Bool.not_eq_true'] at hr
        obtain ⟨red, hred, heq⟩ := Option.bind_eq_some_iff.mp h
        obtain rfl := Option.some.inj heq
        exact .binary r op lhs rhs hdef (.inr ⟨hr.1, hr.2, rfl⟩) hred rfl
      · cases h
  -- A selection, with the previous value as either arm.
  · next r condition onTrue onFalse hdef =>
    simp only [bind] at h
    split at h
    · next ht => exact folds_of_select hdef (.inl ⟨ht, rfl⟩) h
    · split at h
      · next hf => exact folds_of_select hdef (.inr ⟨hf, rfl⟩) h
      · cases h
  -- A call: the addend is the first argument that is not the previous value.
  · next r callee a b isPure hdef =>
    simp only [bind, Option.bind_eq_some_iff] at h
    obtain ⟨red, hred, addend, haddend, h⟩ := h
    split at h
    · next hany =>
      obtain rfl := Option.some.inj h
      refine .call r callee a b isPure hdef (by simpa using hany) ?_ hred rfl
      have hother : addend.isValue previous = false := by
        simpa using List.find?_some haddend
      rcases List.mem_cons.mp (List.mem_of_find?_eq_some haddend) with rfl | hb
      · exact .inl ⟨rfl, hother⟩
      · obtain rfl := List.mem_singleton.mp hb
        exact .inr ⟨rfl, hother⟩
    · cases h
  · cases h

/-- The `expression` of an update is the update, with the comparison of a selection. -/
theorem Folds.expression_eq (h : lp.Folds previous update m) :
    m.expression = [update] ∨
      ∃ c r onTrue onFalse, lp.definition update = some (.select r (.value c) onTrue onFalse) ∧
        m.expression = [update, c] := by
  cases h with
  | binary r op lhs rhs _ _ _ hexpr => exact .inl hexpr
  | select r c rc onTrue onFalse lhs rhs p hdef _ _ _ _ _ hexpr =>
    exact .inr ⟨c, r, onTrue, onFalse, hdef, hexpr⟩
  | call r callee a b isPure _ _ _ _ hexpr => exact .inl hexpr

/-! ## §2 Users -/

/-- The users of a value, as `usersOf` lists them, are the instructions of the loop that use it. -/
theorem mem_usersOf_iff {v : ValueId} {i : Instruction} :
    i ∈ lp.usersOf v ↔ i ∈ lp.instructions ∧ i.uses v = true := by
  rw [usersOf, List.mem_filter]

/-- The uses of a value are confined by `usesConfined` when every user in the loop defines one of
the given values. -/
theorem usesConfined_iff {v : ValueId} {expression : List ValueId} :
    lp.usesConfined v expression = true ↔
      ∀ i ∈ lp.instructions, i.uses v = true → ∃ w ∈ expression, i.result = some w := by
  simp only [usesConfined, List.all_eq_true, mem_usersOf_iff, and_imp]
  refine forall₃_congr fun i _ _ => ?_
  cases i.result <;> simp

/-! ## §3 Accumulators -/

/-- The match and the uses behind what `registerAccumulator?` reports for a header phi. -/
theorem registerAccumulator?_eq_some {phi : ValueId} {name : String} {acc : Accumulator}
    (h : lp.registerAccumulator? phi update name = some acc) :
    ∃ m, lp.matchAccumulation phi update = some m ∧ acc.update = update ∧
      acc.variableName = name ∧ acc.operator = m.operator ∧ acc.addend = m.addend ∧
      (acc.soleUse = true ↔ lp.usesConfined phi m.expression = true ∧
        ∀ i ∈ lp.instructions, i.uses update = true → isPhiOf phi i = true) := by
  simp only [registerAccumulator?, bind, Option.bind_eq_some_iff, pure, Option.some.injEq] at h
  obtain ⟨m, hm, rfl⟩ := h
  refine ⟨m, hm, rfl, rfl, rfl, rfl, ?_⟩
  simp only [Bool.and_eq_true, List.all_eq_true, mem_usersOf_iff, and_imp]

/-- Each of the `carriedScalars` is a phi of the header, other than the induction variable. -/
theorem mem_carriedScalars {s : CarriedScalar} (h : s ∈ lp.carriedScalars) :
    ∃ header, lp.blocks.find? (·.id == lp.header) = some header ∧
      ∃ incoming, .phi s.phi incoming ∈ header.instructions ∧
        some s.phi ≠ lp.inductionVariable ∧ s = lp.carriedScalar s.phi incoming := by
  unfold carriedScalars at h
  split at h
  · cases h
  · next header hfind =>
    obtain ⟨i, hi, hs⟩ := List.mem_filterMap.mp h
    refine ⟨header, hfind, ?_⟩
    cases i with
    | phi r incoming =>
      simp only [carriedScalar?] at hs
      split at hs
      · cases hs
      · next hne =>
        obtain rfl := Option.some.inj hs
        exact ⟨incoming, hi, hne, rfl⟩
    | _ => cases hs

/-- The accumulator of a carried scalar folds into its phi what comes in along the `backEdge`, the
first edge from inside the loop. -/
theorem backEdge_of_mem_carriedScalars {s : CarriedScalar} {acc : Accumulator}
    (hs : s ∈ lp.carriedScalars) (hacc : s.accumulator = some acc) :
    ∃ header incoming, lp.blocks.find? (·.id == lp.header) = some header ∧
      .phi s.phi incoming ∈ header.instructions ∧
      lp.backEdge incoming = some (.value acc.update) ∧
      lp.registerAccumulator? s.phi acc.update s.name = some acc := by
  obtain ⟨header, hheader, incoming, hphi, -, heq⟩ := mem_carriedScalars hs
  rw [heq] at hacc
  simp only [carriedScalar, Option.bind_eq_some_iff] at hacc
  obtain ⟨u, ⟨x, hx, hxu⟩, hu⟩ := hacc
  obtain ⟨m, -, hupdate, -⟩ := registerAccumulator?_eq_some hu
  -- What comes in is a value, since a constant has no definition to match.
  obtain rfl : x = .value u := by
    cases x with
    | value v => rw [Option.some.inj hxu]
    | _ => cases hxu
  refine ⟨header, incoming, hheader, hphi, ?_, ?_⟩
  · rw [hx, hupdate]
  · rw [hupdate, heq]
    exact hu

theorem accumulator_of_mem_carriedScalars {s : CarriedScalar} {acc : Accumulator}
    (hs : s ∈ lp.carriedScalars) (hacc : s.accumulator = some acc) :
    lp.registerAccumulator? s.phi acc.update s.name = some acc := by
  obtain ⟨header, incoming, -, -, -, h⟩ := backEdge_of_mem_carriedScalars hs hacc
  exact h

/-- The accumulator of a carried scalar is kept in a `register`. -/
theorem storage_of_mem_carriedScalars {s : CarriedScalar} {acc : Accumulator}
    (hs : s ∈ lp.carriedScalars) (hacc : s.accumulator = some acc) : acc.storage = .register := by
  have h := accumulator_of_mem_carriedScalars hs hacc
  simp only [registerAccumulator?, bind, Option.bind_eq_some_iff, pure, Option.some.injEq] at h
  obtain ⟨m, -, heq⟩ := h
  rw [← heq]

end LoopAnalysis.LoopBody

namespace LoopAnalysis.Loop

variable {lp : Loop} {order : Nat} {acc : Accumulator}

/-- A store that completes a read of the same place to an accumulation: it stores the update of
`acc`, and `loaded` is the previous value that the update `Folds` its addend into. -/
structure Completes (lp : Loop) (acc : Accumulator) (write read : AccessSite) (loaded : ValueId)
    (m : Accumulation) : Prop where
  write_mem : write ∈ lp.accesses
  isWrite   : write.isWrite = true
  isUniform : write.isUniform = true
  value     : write.value = some (.value acc.update)
  name      : acc.variableName = write.rendered
  read_mem  : read ∈ lp.accesses
  isRead    : read.isRead = true
  before    : read.order ≤ write.order
  same      : read.sameLocation write = true
  result    : read.result = some loaded
  matched   : lp.matchAccumulation loaded acc.update = some m
  operator  : acc.operator = m.operator

theorem mem_memoryAccumulators_iff :
    (order, acc) ∈ lp.memoryAccumulators lp.accesses ↔
      ∃ write ∈ lp.accesses, write.isWrite = true ∧ write.isUniform = true ∧ write.order = order ∧
        lp.memoryAccumulator? lp.accesses write = some acc := by
  simp only [LoopBody.memoryAccumulators, List.mem_filterMap, List.mem_filter, Bool.and_eq_true,
    Option.map_eq_some_iff, Prod.mk.injEq]
  constructor
  · rintro ⟨write, ⟨hmem, hwrite, huniform⟩, found, hfound, horder, rfl⟩
    exact ⟨write, hmem, hwrite, huniform, horder, hfound⟩
  · rintro ⟨write, hmem, hwrite, huniform, horder, hfound⟩
    exact ⟨write, ⟨hmem, hwrite, huniform⟩, acc, hfound, horder, rfl⟩

/-- The read that `matchedRead?` gives for a store stands before it and goes to the same place. -/
theorem matchedRead?_eq_some {write : AccessSite} {update loaded : ValueId} {m : Accumulation}
    (h : lp.matchedRead? lp.accesses write update = some (loaded, m)) :
    ∃ read ∈ lp.accesses, read.isRead = true ∧ read.order ≤ write.order ∧
      read.sameLocation write = true ∧ read.result = some loaded ∧
      lp.matchAccumulation loaded update = some m := by
  -- The reads are tried in body order, and the first that fits is taken.
  obtain ⟨read, hmem, hmatch⟩ := List.exists_of_findSome?_eq_some h
  simp only [bind, Option.bind_eq_some_iff] at hmatch
  obtain ⟨v, hresult, hmatch⟩ := hmatch
  split at hmatch
  · cases hmatch
  · next hplace =>
    simp only [Bool.or_eq_true, Bool.not_eq_true', decide_eq_true_eq, not_or, Bool.not_eq_false,
      Nat.not_lt] at hplace
    simp only [pure, Option.bind_eq_some_iff, Option.some.injEq, Prod.mk.injEq] at hmatch
    obtain ⟨m', hm, rfl, rfl⟩ := hmatch
    exact ⟨read, hmem, hplace.1.1, hplace.1.2, hplace.2, hresult, hm⟩

/-- What stands behind one of the `memoryAccumulators`: a store that `Completes` a read, and the
uses of the two values. -/
theorem completes_of_mem_memoryAccumulators (h : (order, acc) ∈ lp.memoryAccumulators lp.accesses) :
    ∃ write read loaded m, write.order = order ∧ lp.Completes acc write read loaded m ∧
      (acc.soleUse = true ↔ lp.usesConfined loaded m.expression = true ∧
        ∀ i ∈ lp.instructions, i.uses acc.update = true → i.isStore = true) := by
  obtain ⟨write, hmem, hwrite, huniform, horder, hfound⟩ := mem_memoryAccumulators_iff.mp h
  simp only [LoopBody.memoryAccumulator?, bind, Option.bind_eq_some_iff, pure,
    Option.some.injEq] at hfound
  obtain ⟨update, ⟨operand, hvalue, hoperand⟩, ⟨loaded, m⟩, hread, rfl⟩ := hfound
  -- Only a value that is stored can have been matched.
  obtain rfl : operand = .value update := by
    cases operand with
    | value v => rw [Option.some.inj hoperand]
    | _ => cases hoperand
  obtain ⟨read, hreadMem, hisRead, hbefore, hsame, hresult, hm⟩ := matchedRead?_eq_some hread
  refine ⟨write, read, loaded, m, horder, ?_, ?_⟩
  · exact ⟨hmem, hwrite, huniform, hvalue, rfl, hreadMem, hisRead, hbefore, hsame, hresult, hm, rfl⟩
  · simp only [Bool.and_eq_true, List.all_eq_true, LoopBody.mem_usersOf_iff, and_imp]

/-- A store has at most one of the `memoryAccumulators`. -/
theorem eq_of_mem_memoryAccumulators {acc' : Accumulator}
    (h : (order, acc) ∈ lp.memoryAccumulators lp.accesses)
    (h' : (order, acc') ∈ lp.memoryAccumulators lp.accesses) : acc = acc' := by
  obtain ⟨write, hmem, -, -, horder, hfound⟩ := mem_memoryAccumulators_iff.mp h
  obtain ⟨write', hmem', -, -, horder', hfound'⟩ := mem_memoryAccumulators_iff.mp h'
  obtain rfl := eq_of_order_eq hmem hmem' (horder.trans horder'.symm)
  exact Option.some.inj (hfound.symm.trans hfound')

end LoopAnalysis.Loop
