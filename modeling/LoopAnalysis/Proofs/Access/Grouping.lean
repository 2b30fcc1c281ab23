import LoopAnalysis.Proofs.Access.Formula
import LoopAnalysis.Proofs.Program.SingleAssignment

/-!
# What a text without brackets says

A row of atoms and signs is read by the rules of arithmetic: products before sums and differences,
and those from left to right. A formula that is put together in this way has the value that its
text is read with, and any other has another value for some symbols. Two operands with one text
have one value, therefore, if both are put together as the text is read, and need not otherwise.

## Main definitions

- `Formula.reading`: the value that a text is read with;
- `Formula.isGrouped`: a formula is put together as its text is read;
- `Formula.Distinct`: its atoms are symbols, none of them twice.

## Main statements

- `Formula.eval_eq_reading`: the value of a grouped formula is that of its text;
- `Formula.Distinct.exists_eval_ne_reading`: the value of any other is not, for some symbols;
- `LoopBody.exists_respects`: definitions that do not go in circles can be respected;
- `LoopBody.equal_texts_equal_values`: when operands with one text have one value.
-/

namespace LoopAnalysis

/-! ## §1 Reading a row -/

/-- Where a reader of a sum stands: the `total` of the terms that are complete, and the `pending`
product of the factors so far of the one that is being read. -/
structure Tally where
  total   : Int
  pending : Int

namespace Tally

/-- The sum so far. -/
def value (t : Tally) : Int := t.total + t.pending

/-- Another factor. -/
def scale (t : Tally) (x : Int) : Tally := ⟨t.total, t.pending * x⟩

/-- A sign: a product goes on with its term, a sum or difference begins a new one. -/
def sign (t : Tally) : Sign → Tally
  | .plus => ⟨t.value, 1⟩
  | .minus => ⟨t.value, -1⟩
  | .times => t

/-- A `sign` and the atom behind it. -/
def step (σ : String → Int) (t : Tally) (token : Sign × Atom) : Tally :=
  (t.sign token.1).scale (token.2.value σ)

end Tally

namespace Formula

variable {f g l r : Formula} {s : Sign} {σ τ : String → Int}

/-- Reads the atoms and signs of a formula one after the other, `first` before `rest`. -/
def read (σ : String → Int) (f : Formula) (t : Tally) : Tally :=
  f.rest.foldl (Tally.step σ) (t.scale (f.first.value σ))

/-- **The value that the text of a formula is read with**, starting from an empty `Tally`. -/
def reading (σ : String → Int) (f : Formula) : Int := (f.read σ ⟨0, 1⟩).value

theorem read_atom (σ : String → Int) (a : Atom) (t : Tally) :
    (atom a).read σ t = t.scale (a.value σ) := rfl

/-- One part of a `join` is read after the other, without regard for where the first one ends. -/
theorem read_join (σ : String → Int) (s : Sign) (l r : Formula) (t : Tally) :
    (join s l r).read σ t = r.read σ ((l.read σ t).sign s) := by
  simp only [read, rest, first, List.foldl_append, List.foldl_cons, Tally.step]

theorem reading_eq (hfirst : f.first = g.first) (hrest : f.rest = g.rest) (σ : String → Int) :
    f.reading σ = g.reading σ := by
  simp only [reading, read, hfirst, hrest]

/-! ## §2 Grouped formulas -/

/-- A product of atoms: no sign but `times`. -/
def isProduct : Formula → Bool
  | atom _ => true
  | join .times l r => l.isProduct && r.isProduct
  | join _ _ _ => false

/-- **A formula that is put together as its text is read**: behind a minus and on both sides of
`times` stand products only. -/
def isGrouped : Formula → Bool
  | atom _ => true
  | join .plus l r => l.isGrouped && r.isGrouped
  | join .minus l r => l.isGrouped && r.isProduct
  | join .times l r => l.isProduct && r.isProduct

/-- A formula that `isProduct` is read as one factor. -/
theorem read_of_isProduct (h : f.isProduct = true) (σ : String → Int) (t : Tally) :
    f.read σ t = t.scale (f.eval σ) := by
  -- Of the signs only `times` joins factors into a product.
  induction f generalizing t with
  | atom a => rfl
  | join s l r ihl ihr =>
    cases s with
    | times =>
      obtain ⟨hl, hr⟩ := Bool.and_eq_true_iff.mp h
      rw [read_join, ihl hl, Tally.sign, ihr hr, eval, Sign.apply]
      simp only [Tally.scale, mul_assoc]
    | _ => cases h

/-- A formula that `isGrouped` is read as one term. -/
theorem value_read_of_isGrouped (h : f.isGrouped = true) (σ : String → Int) (x : Int) :
    (f.read σ ⟨x, 1⟩).value = x + f.eval σ := by
  -- Induct on the formula for any total before it.
  induction f generalizing x with
  | atom a => simp [read_atom, Tally.scale, Tally.value, eval]
  | join s l r ihl ihr =>
    cases s with
    | plus =>
      obtain ⟨hl, hr⟩ := Bool.and_eq_true_iff.mp h
      rw [read_join, Tally.sign, ihl hl, ihr hr, eval, Sign.apply, add_assoc]
    | minus =>
      obtain ⟨hl, hr⟩ := Bool.and_eq_true_iff.mp h
      rw [read_join, Tally.sign, ihl hl, read_of_isProduct hr, eval, Sign.apply]
      simp only [Tally.scale, Tally.value]
      ring
    | times =>
      obtain ⟨hl, hr⟩ := Bool.and_eq_true_iff.mp h
      rw [read_join, Tally.sign, read_of_isProduct hl, read_of_isProduct hr, eval, Sign.apply]
      simp only [Tally.scale, Tally.value, one_mul]

/-- **A grouped formula has the value that its text is read with**: its `eval` is its `reading`. -/
theorem eval_eq_reading (h : f.isGrouped = true) (σ : String → Int) : f.eval σ = f.reading σ := by
  rw [reading, value_read_of_isGrouped h, zero_add]

/-! ## §3 Symbols that tell a formula from its text

In a formula without constants and repeated symbols the parts can be given values one by one. With
all symbols zero a part disappears; the others are chosen such that the reader ends up with a known
tally. -/

/-- The symbols of a formula, from left to right. -/
def names : Formula → List String
  | atom (.constant _) => []
  | atom (.symbol name) => [name]
  | join _ l r => l.names ++ r.names

/-- A formula without a `constant`. -/
def isSymbolic : Formula → Bool
  | atom (.constant _) => false
  | atom (.symbol _) => true
  | join _ l r => l.isSymbolic && r.isSymbolic

/-- **All atoms are symbols, none of them twice.** -/
structure Distinct (f : Formula) : Prop where
  symbolic : f.isSymbolic = true
  nodup    : f.names.Nodup

theorem Distinct.left (h : (join s l r).Distinct) : l.Distinct :=
  ⟨(Bool.and_eq_true_iff.mp h.symbolic).1, (List.nodup_append.mp h.nodup).1⟩

theorem Distinct.right (h : (join s l r).Distinct) : r.Distinct :=
  ⟨(Bool.and_eq_true_iff.mp h.symbolic).2, (List.nodup_append.mp h.nodup).2.1⟩

theorem eval_congr (h : ∀ name ∈ f.names, σ name = τ name) : f.eval σ = f.eval τ := by
  induction f with
  | atom a =>
    cases a with
    | constant c => rfl
    | symbol name => exact h name List.mem_cons_self
  | join s l r ihl ihr =>
    rw [eval, eval, ihl fun name hname => h name (List.mem_append_left _ hname),
      ihr fun name hname => h name (List.mem_append_right _ hname)]

theorem read_congr (h : ∀ name ∈ f.names, σ name = τ name) (t : Tally) :
    f.read σ t = f.read τ t := by
  induction f generalizing t with
  | atom a =>
    have hvalue : a.value σ = a.value τ := eval_congr (f := atom a) h
    rw [read_atom, read_atom, hvalue]
  | join s l r ihl ihr =>
    rw [read_join, read_join, ihl fun name hname => h name (List.mem_append_left _ hname),
      ihr fun name hname => h name (List.mem_append_right _ hname)]

/-- The two parts of a formula with `Distinct` symbols can be given values independently. -/
theorem Distinct.exists_both (h : (join s l r).Distinct) (σ τ : String → Int) :
    ∃ υ, l.read υ = l.read σ ∧ l.eval υ = l.eval σ ∧ r.read υ = r.read τ ∧
      r.eval υ = r.eval τ := by
  -- Give each symbol the value that the part it stands in asks for.
  have hleft : ∀ name ∈ l.names, (if name ∈ l.names then σ name else τ name) = σ name :=
    fun name hname => if_pos hname
  have hright : ∀ name ∈ r.names, (if name ∈ l.names then σ name else τ name) = τ name := by
    intro name hname
    have happart := (List.nodup_append.mp h.nodup).2.2
    exact if_neg fun hboth => happart name hboth name hname rfl
  exact ⟨fun name => if name ∈ l.names then σ name else τ name, funext (read_congr hleft),
    eval_congr hleft, funext (read_congr hright), eval_congr hright⟩

/-- A symbolic formula in which all symbols are zero has the value zero. -/
theorem eval_zero (h : f.isSymbolic = true) : f.eval (fun _ => 0) = 0 := by
  induction f with
  | atom a =>
    cases a with
    | constant c => cases h
    | symbol name => rfl
  | join s l r ihl ihr =>
    obtain ⟨hl, hr⟩ := Bool.and_eq_true_iff.mp h
    rw [eval, ihl hl, ihr hr]
    cases s <;> rfl

/-- A part in which all symbols are zero leaves the `total` of the complete terms and nothing else.
-/
theorem read_zero (h : f.isSymbolic = true) (t : Tally) : f.read (fun _ => 0) t = ⟨t.total, 0⟩ := by
  induction f generalizing t with
  | atom a =>
    cases a with
    | constant c => cases h
    | symbol name => simp [read_atom, Tally.scale, Atom.value]
  | join s l r ihl ihr =>
    obtain ⟨hl, hr⟩ := Bool.and_eq_true_iff.mp h
    rw [read_join, ihl hl, ihr hr]
    cases s <;> simp [Tally.sign, Tally.value]

/-- With the right part left out, only the terms that the left part completes are left. -/
theorem Distinct.exists_left (h : (join s l r).Distinct) (σ : String → Int) :
    ∃ υ, (∀ t, (join s l r).read υ t = ⟨((l.read σ t).sign s).total, 0⟩) ∧
      (join s l r).eval υ = s.apply (l.eval σ) 0 := by
  obtain ⟨υ, hlread, hleval, hrread, hreval⟩ := h.exists_both σ fun _ => 0
  refine ⟨υ, fun t => ?_, ?_⟩
  · rw [read_join, hlread, hrread, read_zero h.right.symbolic]
  · rw [eval, hleval, hreval, eval_zero h.right.symbolic]

/-- With the left part left out, the right part is read as if nothing but the sign stood before. -/
theorem Distinct.exists_right (h : (join s l r).Distinct) (τ : String → Int) :
    ∃ υ, (∀ q, (join s l r).read υ ⟨0, q⟩ = r.read τ ((⟨0, 0⟩ : Tally).sign s)) ∧
      (join s l r).eval υ = s.apply 0 (r.eval τ) := by
  obtain ⟨υ, hlread, hleval, hrread, hreval⟩ := h.exists_both (fun _ => 0) τ
  refine ⟨υ, fun q => ?_, ?_⟩
  · rw [read_join, hlread, hrread, read_zero h.left.symbolic]
  · rw [eval, hleval, hreval, eval_zero h.left.symbolic]

/-- A reader passes over a product, or completes a term of the `Tally` and leaves it at that. -/
def Passes (σ : String → Int) (f : Formula) : Prop :=
  ∀ t, f.read σ t = if f.isProduct then t else ⟨t.value, 0⟩

theorem Passes.value (h : f.Passes σ) (t : Tally) : (f.read σ t).value = t.value := by
  rw [h]
  split
  · rfl
  · exact add_zero _

/-- Some symbols make the reader of a formula pass. -/
theorem Distinct.exists_passes (h : f.Distinct) :
    ∃ σ, f.Passes σ ∧ (f.eval σ = 0 ∨ f.eval σ = 1) := by
  induction f with
  | atom a =>
    cases a with
    | constant c => cases h.symbolic
    | symbol name =>
      refine ⟨fun _ => 1, fun t => ?_, .inr rfl⟩
      simp [read_atom, Tally.scale, Atom.value, isProduct]
  | join s l r ihl ihr =>
    obtain ⟨σ, hread, heval⟩ := ihl h.left
    by_cases hfactors : s = .times ∧ l.isProduct = true
    · -- Both parts are factors of one product, and passed one after the other.
      obtain ⟨rfl, hl⟩ := hfactors
      obtain ⟨τ, hread', heval'⟩ := ihr h.right
      obtain ⟨υ, hlread, hleval, hrread, hreval⟩ := h.exists_both σ τ
      refine ⟨υ, fun t => ?_, ?_⟩
      · rw [read_join, hlread, hrread, hread t, if_pos hl, Tally.sign, hread' t, isProduct, hl,
          Bool.true_and]
      · rw [eval, hleval, hreval, Sign.apply]
        rcases heval with hx | hx <;> rcases heval' with hy | hy <;> simp [hx, hy]
    · -- The left part completes a term, on its own or by the sign behind it.
      obtain ⟨υ, hread', heval'⟩ := h.exists_left σ
      have hproduct : (join s l r).isProduct = false := by
        cases s with
        | times => simp_all [isProduct]
        | _ => rfl
      refine ⟨υ, fun t => ?_, ?_⟩
      · have htotal : ((l.read σ t).sign s).total = t.value := by
          cases s with
          | times => rw [hread t, if_neg fun hl => hfactors ⟨rfl, hl⟩, Tally.sign]
          | _ => exact hread.value t
        rw [hread', htotal, hproduct]
        rfl
      · rw [heval']
        cases s with
        | plus => simpa [Sign.apply] using heval
        | minus => simpa [Sign.apply] using heval
        | times => simp [Sign.apply]

/-- Some symbols give the text of a formula that is no product one value `x`, whatever factor stands
before it. -/
theorem Distinct.exists_steady (h : f.Distinct) (hproduct : f.isProduct = false) :
    ∃ σ x, x ≠ 0 ∧ (∀ q, (f.read σ ⟨0, q⟩).value = x) ∧ (f.eval σ = 0 ∨ f.eval σ = x) := by
  induction f with
  | atom a => cases hproduct
  | join s l r ihl ihr =>
    obtain ⟨τ, hpasses, hpassed⟩ := h.right.exists_passes
    cases hl : l.isProduct with
    | true =>
      -- The left part is left out, and with it everything that depends on what stands before.
      cases s with
      | times =>
        obtain ⟨τ, x, hx, hsteady, -⟩ := ihr h.right (by simpa [isProduct, hl] using hproduct)
        obtain ⟨υ, hread, heval⟩ := h.exists_right τ
        refine ⟨υ, x, hx, fun q => ?_, .inl ?_⟩
        · rw [hread, Tally.sign, hsteady]
        · rw [heval, Sign.apply, zero_mul]
      | plus =>
        obtain ⟨υ, hread, heval⟩ := h.exists_right τ
        refine ⟨υ, 1, by decide, fun q => ?_, ?_⟩
        · rw [hread, hpasses.value]
          rfl
        · rw [heval, Sign.apply, zero_add]
          exact hpassed
      | minus =>
        obtain ⟨υ, hread, heval⟩ := h.exists_right τ
        refine ⟨υ, -1, by decide, fun q => ?_, ?_⟩
        · rw [hread, hpasses.value]
          rfl
        · rw [heval, Sign.apply, zero_sub]
          rcases hpassed with hz | hz <;> simp [hz]
    | false =>
      -- The left part is steady on its own; the right part passes it on or is left out.
      obtain ⟨σ, x, hx, hsteady, hvalue⟩ := ihl h.left hl
      cases s with
      | times =>
        obtain ⟨υ, hlread, hleval, hrread, hreval⟩ := h.exists_both σ τ
        refine ⟨υ, x, hx, fun q => ?_, ?_⟩
        · rw [read_join, hlread, hrread, Tally.sign, hpasses.value, hsteady]
        · rw [eval, hleval, hreval, Sign.apply]
          rcases hvalue with hy | hy <;> rcases hpassed with hz | hz <;> simp [hy, hz]
      | plus | minus =>
        obtain ⟨υ, hread, heval⟩ := h.exists_left σ
        refine ⟨υ, x, hx, fun q => ?_, ?_⟩
        · rw [hread, Tally.sign, hsteady]
          exact add_zero _
        · rw [heval]
          simpa [Sign.apply] using hvalue

/-- **A formula that is not grouped has another value than its text for some symbols**: `eval` and
`reading` differ. -/
theorem Distinct.exists_eval_ne_reading (h : f.Distinct) (hgrouped : f.isGrouped = false) :
    ∃ σ, f.eval σ ≠ f.reading σ := by
  induction f with
  | atom a => cases hgrouped
  | join s l r ihl ihr =>
    -- One part is left out at a time, so that the other one shows.
    cases s with
    | plus =>
      cases hl : l.isGrouped with
      | false =>
        obtain ⟨σ, hne⟩ := ihl h.left hl
        obtain ⟨υ, hread, heval⟩ := h.exists_left σ
        refine ⟨υ, ?_⟩
        rw [heval, Sign.apply, reading, hread, Tally.value, add_zero, add_zero]
        exact hne
      | true =>
        obtain ⟨τ, hne⟩ := ihr h.right (by simpa [isGrouped, hl] using hgrouped)
        obtain ⟨υ, hread, heval⟩ := h.exists_right τ
        refine ⟨υ, ?_⟩
        rw [heval, Sign.apply, zero_add, reading, hread]
        exact hne
    | minus =>
      cases hl : l.isGrouped with
      | false =>
        obtain ⟨σ, hne⟩ := ihl h.left hl
        obtain ⟨υ, hread, heval⟩ := h.exists_left σ
        refine ⟨υ, ?_⟩
        rw [heval, Sign.apply, reading, hread, Tally.value, sub_zero, add_zero]
        exact hne
      | true =>
        -- The sign before the right part reaches its first term only.
        obtain ⟨τ, x, hx, hsteady, hvalue⟩ :=
          h.right.exists_steady (by simpa [isGrouped, hl] using hgrouped)
        obtain ⟨υ, hread, heval⟩ := h.exists_right τ
        refine ⟨υ, ?_⟩
        have hreading : (join .minus l r).reading υ = x := by
          rw [reading, hread]
          exact hsteady (-1)
        rw [hreading, heval, Sign.apply]
        omega
    | times =>
      cases hl : l.isProduct with
      | false =>
        -- The first term of the left part is complete before the factor comes, which misses it.
        obtain ⟨σ, hpasses, -⟩ := h.left.exists_passes
        obtain ⟨υ, hread, heval⟩ := h.exists_left σ
        refine ⟨υ, ?_⟩
        have hreading : (join .times l r).reading υ = 1 := by
          rw [reading, hread, hpasses, hl]
          rfl
        rw [hreading, heval, Sign.apply, mul_zero]
        decide
      | true =>
        -- The factor before the right part reaches its first term only.
        obtain ⟨τ, x, hx, hsteady, -⟩ :=
          h.right.exists_steady (by simpa [isGrouped, hl] using hgrouped)
        obtain ⟨υ, hread, heval⟩ := h.exists_right τ
        refine ⟨υ, ?_⟩
        have hreading : (join .times l r).reading υ = x := by
          rw [reading, hread]
          exact hsteady 0
        rw [hreading, heval, Sign.apply, zero_mul]
        exact hx.symm

end Formula

/-! ## §4 Operands with one text -/

theorem Instruction.meaning?_congr {r₁ r₂ : Valuation} {i : Instruction}
    (h : ∀ x ∈ i.operands, r₁.eval x = r₂.eval x) : i.meaning? r₁ = i.meaning? r₂ := by
  cases i with
  | cast result operand => rw [meaning?, meaning?, h operand (by simp [operands])]
  | binary result op lhs rhs =>
    rw [meaning?, meaning?, h lhs (by simp [operands]), h rhs (by simp [operands])]
  | _ => rfl

theorem Instruction.isPhi_of_meaning? {r : Valuation} {i : Instruction} {z : Int}
    (h : i.meaning? r = some z) : i.isPhi = false := by
  cases i with
  | phi => cases h
  | _ => rfl

namespace LoopBody

variable {lp : LoopBody} {a b : Operand} {f g : Formula}

open Classical in
/-- The values that follow from given symbols, each computed from those that stand in `Feeds` to it.
-/
noncomputable def solution (hfeeds : WellFounded lp.Feeds) (σ : String → Int) : ValueId → Int :=
  hfeeds.fix fun v known => ((lp.definition v).bind (·.meaning?
    ⟨fun u => if h : lp.Feeds u v then known u h else 0, σ, fun _ => 0⟩)).getD 0

/-- **Definitions that do not go in circles can be respected**, for any symbols: there is a
valuation that `Respects` them. -/
theorem exists_respects (hfeeds : WellFounded lp.Feeds) (σ : String → Int) :
    ∃ r : Valuation, r.Respects lp ∧ r.symbol = σ := by
  refine ⟨⟨solution hfeeds σ, σ, fun _ => 0⟩, fun v i z hdef hmeaning => ?_, rfl⟩
  have hphi := Instruction.isPhi_of_meaning? hmeaning
  have hz : z = (i.meaning? ⟨solution hfeeds σ, σ, fun _ => 0⟩).getD 0 := by
    rw [hmeaning, Option.getD_some]
  change solution hfeeds σ v = z
  rw [solution, hfeeds.fix_eq, hdef, Option.bind_some, hz]
  refine congrArg (Option.getD · 0) (Instruction.meaning?_congr fun x hx => ?_)
  -- Every value that the definition uses feeds the one it defines.
  cases x with
  | value u =>
    have huse : i.uses u = true := List.any_eq_true.mpr ⟨.value u, hx, beq_self_eq_true _⟩
    exact dif_pos ⟨i, hdef, hphi, huse⟩
  | _ => rfl

/-- Operands that `render` alike have formulas with one `reading`. -/
theorem reading_eq_of_render_eq (ha : lp.formula? a = some f) (hb : lp.formula? b = some g)
    (hf : f.isPlain = true) (hg : g.isPlain = true) (htext : lp.render a = lp.render b)
    (σ : String → Int) : f.reading σ = g.reading σ := by
  have hspelling : f.spelling = g.spelling := by
    rw [← renderAt_eq_spelling ha, ← renderAt_eq_spelling hb]
    exact congrArg String.toList htext
  obtain ⟨hfirst, hrest⟩ := Formula.row_eq_of_spelling_eq hf hg hspelling
  exact Formula.reading_eq hfirst hrest σ

/-- **Operands with one text**, for operands that come to constants and plain names through unnamed
sums, differences and products. If both formulas are put together as the text is read (`isGrouped`),
the operands have one value in every valuation that `Respects` the definitions. An operand whose
symbols are all different (`Distinct`) has one value with another that is put together so exactly if
it is put together so itself. -/
theorem equal_texts_equal_values (lp : LoopBody) {a b : Operand} {f g : Formula}
    (ha : lp.formula? a = some f) (hb : lp.formula? b = some g)
    (hf : f.isPlain = true) (hg : g.isPlain = true) (htext : lp.render a = lp.render b)
    (hgrouped : f.isGrouped = true) :
    (g.isGrouped = true → ∀ r : Valuation, r.Respects lp → r.eval a = r.eval b) ∧
    (g.Distinct → WellFounded lp.Feeds →
      ((∀ r : Valuation, r.Respects lp → r.eval a = r.eval b) ↔ g.isGrouped = true)) := by
  -- The first operand is worth what the text of the second is read with.
  have hvalue (r : Valuation) (hr : r.Respects lp) : r.eval a = g.reading r.symbol := by
    rw [eval_eq_formula hr ha, Formula.eval_eq_reading hgrouped,
      reading_eq_of_render_eq ha hb hf hg htext]
  have hsame (hother : g.isGrouped = true) (r : Valuation) (hr : r.Respects lp) :
      r.eval a = r.eval b := by
    rw [hvalue r hr, eval_eq_formula hr hb, Formula.eval_eq_reading hother]
  refine ⟨hsame, fun hdistinct hfeeds => ⟨fun hall => ?_, hsame⟩⟩
  cases hother : g.isGrouped with
  | true => rfl
  | false =>
    -- Otherwise symbols that tell the second from its text tell the two operands apart.
    obtain ⟨σ, hne⟩ := hdistinct.exists_eval_ne_reading hother
    obtain ⟨r, hr, rfl⟩ := exists_respects hfeeds σ
    refine absurd ?_ hne
    rw [← eval_eq_formula hr hb, ← hall r hr, hvalue r hr]

end LoopBody

namespace Loop

/-- In a `straight` loop that computes values in ascending order, none is computed in a circle. -/
theorem wellFounded_feeds_straight {iv : ValueId} {body : List Instruction}
    (hordered : body.all isOrdered = true) : WellFounded (straight iv body).Feeds := by
  refine Subrelation.wf (r := InvImage (· < ·) ValueId.index) ?_ (InvImage.wf _ Nat.lt_wfRel.wf)
  rintro u v ⟨i, hdef, hphi, huse⟩
  obtain ⟨hi, hresult⟩ := mem_of_straight_definition hdef
  exact index_lt_of_isOrdered (List.all_eq_true.mp hordered i hi) hphi hresult huse

/-- A loop that computes `(a+b)+c` as `v1`, `a+(b+c)` as `v3`, `a+b*c` as `v5` and `(a+b)*c` as
`v6`. -/
def offsets : Loop :=
  straight ⟨9⟩
    [.binary ⟨0⟩ .add (.symbol "a") (.symbol "b"),
      .binary ⟨1⟩ .add (.value ⟨0⟩) (.symbol "c"),
      .binary ⟨2⟩ .add (.symbol "b") (.symbol "c"),
      .binary ⟨3⟩ .add (.symbol "a") (.value ⟨2⟩),
      .binary ⟨4⟩ .mul (.symbol "b") (.symbol "c"),
      .binary ⟨5⟩ .add (.symbol "a") (.value ⟨4⟩),
      .binary ⟨6⟩ .mul (.value ⟨0⟩) (.symbol "c")]

/-- Both sums of three have one value; the sum and the product need not. -/
theorem offsets_told_apart :
    (∀ r : Valuation, r.Respects offsets.toLoopBody → r.eval (.value ⟨1⟩) = r.eval (.value ⟨3⟩)) ∧
    ¬ ∀ r : Valuation, r.Respects offsets.toLoopBody →
      r.eval (.value ⟨5⟩) = r.eval (.value ⟨6⟩) := by
  obtain ⟨hsums, -⟩ := offsets.equal_texts_equal_values (a := .value ⟨1⟩) (b := .value ⟨3⟩)
    rfl rfl (by decide) (by decide) (by decide +kernel) rfl
  obtain ⟨-, hproducts⟩ := offsets.equal_texts_equal_values (a := .value ⟨5⟩) (b := .value ⟨6⟩)
    rfl rfl (by decide) (by decide) (by decide +kernel) rfl
  refine ⟨hsums rfl, fun hall => ?_⟩
  have hfeeds : WellFounded offsets.Feeds := wellFounded_feeds_straight (by decide)
  exact absurd ((hproducts ⟨rfl, by decide⟩ hfeeds).mp hall) (by decide)

/-- The values of `offsets` for `a = b = 1` and `c = 2`. -/
def offsetsAt : Valuation where
  value v := [2, 4, 3, 4, 2, 3, 4].getD v.index 0
  symbol name := if name = "c" then 2 else 1
  fraction _ := 0

theorem respects_offsetsAt : offsetsAt.Respects offsets.toLoopBody := by
  intro v i z hdef hz
  obtain ⟨hmem, hresult⟩ := mem_of_straight_definition hdef
  simp only [List.mem_cons, List.not_mem_nil, or_false] at hmem
  rcases hmem with rfl | rfl | rfl | rfl | rfl | rfl | rfl <;> cases hresult <;> cases hz <;> rfl

/-- A sum and a product with one text and different values. -/
theorem sum_and_product_collide :
    (offsets.formula? (.value ⟨5⟩)).any Formula.isPlain = true ∧
    (offsets.formula? (.value ⟨6⟩)).any Formula.isPlain = true ∧
    offsets.render (.value ⟨5⟩) = "a+b*c" ∧ offsets.render (.value ⟨6⟩) = "a+b*c" ∧
    offsetsAt.Respects offsets.toLoopBody ∧
    offsetsAt.eval (.value ⟨5⟩) = 3 ∧ offsetsAt.eval (.value ⟨6⟩) = 4 :=
  ⟨by decide, by decide, by decide +kernel, by decide +kernel, respects_offsetsAt, rfl, rfl⟩

end Loop

end LoopAnalysis
