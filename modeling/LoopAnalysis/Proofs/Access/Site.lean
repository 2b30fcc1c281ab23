import LoopAnalysis.Access.Site

/-!
# The accesses of a loop

Every access stands at the position of its load or store, so a position belongs to at most one
access, and its terms are those of its own indices.

## Main statements

- `mem_accesses_iff`: the accesses are those that the loads and stores of the body make;
- `eq_of_order_eq`: two accesses at one position are one access;
- `order_ne_of_isRead`: a read and a store stand at different positions;
- `terms_eq_map`: the terms of an access describe its indices.
-/

namespace LoopAnalysis.Loop

variable {lp : Loop} {s t : AccessSite} {i : Instruction} {n : Nat}

/-! ## §1 The access of an instruction -/

@[simp] theorem siteOf_order (kind : AccessKind) (address : Operand) (v : Option Operand)
    (r : Option ValueId) : (lp.siteOf kind n address v r).order = n := rfl

/-- Only loads and stores make accesses: a `load` makes a read, and a `store` a write. -/
theorem siteOf?_cases (h : lp.siteOf? n i = some s) :
    (∃ r address, i = .load r address ∧ s = lp.siteOf .read n address none (some r)) ∨
    (∃ address v, i = .store address v ∧ s = lp.siteOf .write n address (some v) none) := by
  cases i with
  | load r address =>
    refine .inl ⟨r, address, rfl, ?_⟩
    simpa [siteOf?] using h.symm
  | store address v =>
    refine .inr ⟨address, v, rfl, ?_⟩
    simpa [siteOf?] using h.symm
  | _ => cases h

theorem order_of_siteOf? (h : lp.siteOf? n i = some s) : s.order = n := by
  obtain ⟨r, address, -, rfl⟩ | ⟨address, v, -, rfl⟩ := siteOf?_cases h <;> simp

theorem terms_of_siteOf? (h : lp.siteOf? n i = some s) :
    s.terms = s.indices.map lp.classifyIndex := by
  obtain ⟨r, address, -, rfl⟩ | ⟨address, v, -, rfl⟩ := siteOf?_cases h <;> rfl

/-! ## §2 All accesses -/

/-- The `accesses` of a loop are those that `siteOf?` makes of the instructions at their positions.
-/
theorem mem_accesses_iff :
    s ∈ lp.accesses ↔ ∃ i, lp.instructions[s.order]? = some i ∧ lp.siteOf? s.order i = some s := by
  simp only [accesses, List.mem_filterMap, Prod.exists, List.mem_zipIdx_iff_getElem?]
  constructor
  · rintro ⟨i, n, hi, hs⟩
    obtain rfl := order_of_siteOf? hs
    exact ⟨i, hi, hs⟩
  · rintro ⟨i, hi, hs⟩
    exact ⟨i, s.order, hi, hs⟩

/-- Two accesses at one position are one access. -/
theorem eq_of_order_eq (hs : s ∈ lp.accesses) (ht : t ∈ lp.accesses) (h : s.order = t.order) :
    s = t := by
  -- The position determines the instruction, and the instruction its access.
  obtain ⟨i, hi, hsite⟩ := mem_accesses_iff.mp hs
  obtain ⟨j, hj, htsite⟩ := mem_accesses_iff.mp ht
  rw [h] at hi hsite
  obtain rfl : i = j := by simpa [hi] using hj
  exact Option.some.inj (hsite.symm.trans htsite)

/-- The terms of an access are what `classifyIndex` says of its indices. -/
theorem terms_eq_map (hs : s ∈ lp.accesses) : s.terms = s.indices.map lp.classifyIndex := by
  obtain ⟨i, -, hsite⟩ := mem_accesses_iff.mp hs
  exact terms_of_siteOf? hsite

/-- A read is no write, so `isRead` excludes `isWrite`. -/
theorem isWrite_of_isRead (h : s.isRead = true) : s.isWrite = false := by
  simp only [AccessSite.isRead, AccessSite.isWrite, beq_iff_eq] at h ⊢
  rw [h]
  rfl

/-- A read stands at another position than any store, as one position has one access. -/
theorem order_ne_of_isRead (hs : s ∈ lp.accesses) (hread : s.isRead = true) (ht : t ∈ lp.accesses)
    (hwrite : t.isWrite = true) : s.order ≠ t.order := by
  intro h
  rw [← eq_of_order_eq hs ht h, isWrite_of_isRead hread] at hwrite
  cases hwrite

/-- A store of the loop stands at the position of the access it makes. -/
theorem store_of_isWrite (hs : s ∈ lp.accesses) (hwrite : s.isWrite = true) :
    ∃ address v, lp.instructions[s.order]? = some (.store address v) ∧ s.value = some v := by
  obtain ⟨i, hi, hsite⟩ := mem_accesses_iff.mp hs
  obtain ⟨r, address, rfl, hread⟩ | ⟨address, v, rfl, hstore⟩ := siteOf?_cases hsite
  · rw [hread] at hwrite
    cases hwrite
  · exact ⟨address, v, hi, by rw [hstore]; rfl⟩

end LoopAnalysis.Loop
