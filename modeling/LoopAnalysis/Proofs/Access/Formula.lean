import LoopAnalysis.Access.Render
import LoopAnalysis.Proofs.Access.Valuation
import LoopAnalysis.Proofs.Text.Occurrence

/-!
# Formulas behind rendered operands

An operand that is computed from constants and symbols by sums, differences and products stands for
a formula. Its text has the atoms and signs of the formula one after the other and no brackets, so
the text gives back the row of atoms and signs, and nothing of how they were put together.

## Main definitions

- `Formula`: constants and symbols under sums, differences and products;
- `LoopBody.formula?`: the formula that an operand stands for;
- `Formula.first`, `Formula.rest`: its atoms, each but the first behind a sign.

## Main statements

- `LoopBody.renderAt_eq_spelling`, `LoopBody.eval_eq_formula`: an operand has the text and the value
  of its formula;
- `Formula.row_eq_of_spelling_eq`: formulas that are spelled alike have the same atoms and signs.
-/

namespace LoopAnalysis

/-! ## §1 Formulas -/

/-- The operators that a `Formula` is made of. -/
inductive Sign where
  | plus | minus | times
deriving DecidableEq, Repr

namespace Sign

/-- The sign of an operator on integers, if a formula can have it; `shl` and all others have none.
-/
def of? : BinaryOp → Option Sign
  | .add => some .plus
  | .sub => some .minus
  | .mul => some .times
  | _ => none

/-- How it is written. -/
def char : Sign → Char
  | plus => '+'
  | minus => '-'
  | times => '*'

/-- What `+`, `-` and `*` compute. -/
def apply : Sign → Int → Int → Int
  | plus, x, y => x + y
  | minus, x, y => x - y
  | times, x, y => x * y

end Sign

/-- What stands between the signs. -/
inductive Atom where
  | constant (c : Int64)
  | symbol (name : String)
deriving DecidableEq, Repr

namespace Atom

/-- The operand that is the atom. -/
def operand : Atom → Operand
  | constant c => .int c
  | symbol name => .symbol name

def value (σ : String → Int) : Atom → Int
  | constant c => c.toInt
  | symbol name => σ name

def spelling : Atom → List Char
  | constant c => (toString c.toInt).toList
  | symbol name => name.toList

end Atom

/-- Atoms, put together by signs with `join`. -/
inductive Formula where
  | atom (a : Atom)
  | join (s : Sign) (l r : Formula)
deriving DecidableEq, Repr

namespace Formula

/-- The value of a formula for given symbols. -/
def eval (σ : String → Int) : Formula → Int
  | atom a => a.value σ
  | join s l r => s.apply (l.eval σ) (r.eval σ)

/-- A formula as it is written, without brackets. -/
def spelling : Formula → List Char
  | atom a => a.spelling
  | join s l r => l.spelling ++ s.char :: r.spelling

end Formula

namespace LoopBody

variable {lp : LoopBody} {levels : Nat} {x : Operand} {f : Formula}

/-- The formula that an operand stands for, if it comes to constants and symbols within a number of
levels, through unnamed sums, differences and products of integers only. -/
def formulaAt? (lp : LoopBody) : (levels : Nat) → Operand → Option Formula
  | _, .int c => some (.atom (.constant c))
  | _, .symbol name => some (.atom (.symbol name))
  | levels + 1, .value v =>
    match lp.valueName v, lp.definition v with
    | none, some (.binary _ op lhs rhs) => do
      let s ← Sign.of? op
      return .join s (← lp.formulaAt? levels lhs) (← lp.formulaAt? levels rhs)
    | _, _ => none
  | _, _ => none

/-- The formula that an operand stands for within the `exprLevels` that its text unfolds. -/
def formula? (lp : LoopBody) (x : Operand) : Option Formula := lp.formulaAt? exprLevels x

theorem formulaAt?_atom {a : Atom} (h : lp.formulaAt? levels x = some (.atom a)) :
    x = a.operand := by
  unfold formulaAt? at h
  split at h
  · cases h; rfl
  · cases h; rfl
  · split at h
    · simp [bind, Option.bind_eq_some_iff] at h
    · cases h
  · cases h

/-- An operand whose formula is a `join` is an unnamed value, computed from two operands that stand
for the parts. -/
theorem formulaAt?_join {s : Sign} {l r : Formula}
    (h : lp.formulaAt? levels x = some (.join s l r)) :
    ∃ below v result op lhs rhs, levels = below + 1 ∧ x = .value v ∧ lp.valueName v = none ∧
      lp.definition v = some (.binary result op lhs rhs) ∧ Sign.of? op = some s ∧
      lp.formulaAt? below lhs = some l ∧ lp.formulaAt? below rhs = some r := by
  unfold formulaAt? at h
  split at h
  · cases h
  · cases h
  · next below v =>
    -- Only an unnamed value with a definition stands for more than an atom.
    split at h
    · next result op lhs rhs hname hdef =>
      simp only [bind, Option.bind_eq_some_iff, pure, Option.some.injEq] at h
      obtain ⟨s, hs, l, hl, r, hr, hjoin⟩ := h
      cases hjoin
      exact ⟨below, v, result, op, lhs, rhs, rfl, rfl, hname, hdef, hs, hl, hr⟩
    · cases h
  · cases h

/-- **An operand is written as its formula**: `renderAt` gives the `spelling`. -/
theorem renderAt_eq_spelling (h : lp.formulaAt? levels x = some f) :
    (lp.renderAt levels x).toList = f.spelling := by
  -- The formula is as deep as the text is unfolded, so induct on it and let the levels follow.
  induction f generalizing levels x with
  | atom a =>
    rw [formulaAt?_atom h, renderAt.eq_def]
    cases a <;> rfl
  | join s l r ihl ihr =>
    obtain ⟨below, v, result, op, lhs, rhs, rfl, rfl, hname, hdef, hs, hl, hr⟩ := formulaAt?_join h
    have hsign : op.sign.toList = [s.char] := by
      cases op <;> cases hs <;> rfl
    rw [renderAt]
    simp only [hname, hdef, String.toList_append, ihl hl, ihr hr, hsign, Formula.spelling,
      List.append_assoc, List.singleton_append]

/-- **An operand has the value of its formula** in every valuation that `Respects` the definitions.
-/
theorem eval_eq_formula {r : Valuation} (hr : r.Respects lp) (h : lp.formulaAt? levels x = some f) :
    r.eval x = f.eval r.symbol := by
  induction f generalizing levels x with
  | atom a =>
    rw [formulaAt?_atom h]
    cases a <;> rfl
  | join s l m ihl ihm =>
    obtain ⟨below, v, result, op, lhs, rhs, rfl, rfl, -, hdef, hs, hl, hm⟩ := formulaAt?_join h
    -- The sign computes what the operator of the definition means.
    have hmeaning : op.meaning? (r.eval lhs) (r.eval rhs) =
        some (s.apply (r.eval lhs) (r.eval rhs)) := by
      cases op <;> cases hs <;> rfl
    rw [ihl hl, ihm hm] at hmeaning
    exact hr v _ _ hdef (by rw [Instruction.meaning?, ihl hl, ihm hm, hmeaning]; rfl)

end LoopBody

/-! ## §2 Atoms in a text -/

/-- The characters of signs: what `Sign.char` writes. -/
def isOperatorChar (c : Char) : Bool := c == '+' || c == '-' || c == '*'

theorem Sign.isOperatorChar_char (s : Sign) : isOperatorChar s.char = true := by
  cases s <;> rfl

theorem isOperatorChar_of_isDigit {c : Char} (h : c.isDigit = true) : isOperatorChar c = false := by
  rw [isOperatorChar, Bool.or_eq_false_iff, Bool.or_eq_false_iff]
  refine ⟨⟨?_, ?_⟩, ?_⟩ <;>
  · rw [beq_eq_false_iff_ne]
    rintro rfl
    exact absurd h (by decide)

namespace Atom

variable {a b : Atom} {cs ds : List Char}

/-- A name is plain if it has no sign in it and is no row of digits. -/
def isPlain : Atom → Bool
  | constant _ => true
  | symbol name => name.toList.all (!isOperatorChar ·) && name.toList.any (!·.isDigit)

/-- Of a plain atom only the first character can be one of a sign. -/
theorem exists_spelling (h : a.isPlain = true) :
    ∃ c cs, a.spelling = c :: cs ∧ ∀ d ∈ cs, isOperatorChar d = false := by
  have hdigits (n : Nat) : ∀ d ∈ Nat.toDigits 10 n, isOperatorChar d = false := fun d hd =>
    isOperatorChar_of_isDigit (Nat.isDigit_of_mem_toDigits (by decide) (by decide) hd)
  cases a with
  | constant c =>
    rw [spelling]
    -- A number is a row of digits, behind a minus if it is negative.
    cases c.toInt with
    | ofNat n =>
      have htext : (toString (Int.ofNat n)).toList = Nat.toDigits 10 n := Nat.toList_repr
      obtain ⟨d, ds, hds⟩ := List.exists_cons_of_ne_nil (Nat.toDigits_ne_nil (n := n) (b := 10))
      refine ⟨d, ds, htext.trans hds, fun e he => hdigits n e ?_⟩
      rw [hds]
      exact List.mem_cons_of_mem d he
    | negSucc n =>
      have htext : toString (Int.negSucc n) = "-" ++ toString (n + 1) := rfl
      refine ⟨'-', Nat.toDigits 10 (n + 1), ?_, hdigits (n + 1)⟩
      rw [htext, String.toList_append, Nat.toString_eq_repr, Nat.toList_repr]
      rfl
  | symbol name =>
    simp only [isPlain, Bool.and_eq_true, List.all_eq_true, List.any_eq_true,
      Bool.not_eq_true'] at h
    obtain ⟨hall, c, hc, -⟩ := h
    obtain ⟨d, ds, hds⟩ := List.exists_cons_of_ne_nil (List.ne_nil_of_mem hc)
    refine ⟨d, ds, hds, fun e he => hall e ?_⟩
    rw [hds]
    exact List.mem_cons_of_mem d he

/-- An integer is written by `toString` with digits and a minus. -/
theorem isDigit_or_eq_minus {z : Int} {c : Char} (h : c ∈ (toString z).toList) :
    c.isDigit = true ∨ c = '-' := by
  cases z with
  | ofNat n =>
    have hmem : c ∈ n.repr.toList := h
    rw [Nat.toList_repr] at hmem
    exact .inl (Nat.isDigit_of_mem_toDigits (by decide) (by decide) hmem)
  | negSucc n =>
    have htext : toString (Int.negSucc n) = "-" ++ toString (n + 1) := rfl
    rw [htext, String.toList_append, Nat.toString_eq_repr, Nat.toList_repr, List.mem_append] at h
    rcases h with h | h
    · exact .inr (by simpa using h)
    · exact .inl (Nat.isDigit_of_mem_toDigits (by decide) (by decide) h)

/-- A plain name is not written like a `constant`. -/
theorem constant_ne_symbol {c : Int64} {name : String} (h : (symbol name).isPlain = true) :
    (constant c).spelling ≠ (symbol name).spelling := by
  intro heq
  simp only [isPlain, Bool.and_eq_true, List.all_eq_true, List.any_eq_true, Bool.not_eq_true'] at h
  obtain ⟨hall, d, hd, hdigit⟩ := h
  have hmem : d ∈ (toString c.toInt).toList := by
    rw [show (toString c.toInt).toList = name.toList from heq]
    exact hd
  -- A plain name has a character that is neither a digit nor a sign.
  rcases isDigit_or_eq_minus hmem with h | rfl
  · rw [hdigit] at h
    cases h
  · exact absurd (hall '-' hd) (by decide)

/-- Plain atoms are told apart by their `spelling`. -/
theorem eq_of_spelling_eq (ha : a.isPlain = true) (hb : b.isPlain = true)
    (h : a.spelling = b.spelling) : a = b := by
  cases a with
  | constant c =>
    cases b with
    | constant d =>
      rw [Int64.toInt_inj.mp (Text.toString_int_injective (String.toList_injective h))]
    | symbol name => exact absurd h (constant_ne_symbol hb)
  | symbol name =>
    cases b with
    | constant d => exact absurd h.symm (constant_ne_symbol ha)
    | symbol other => rw [String.toList_injective h]

/-- Where a text goes on behind an atom, it goes on with a sign, as `isOperatorChar` says. -/
def Ends (cs : List Char) : Prop := cs.takeWhile (!isOperatorChar ·) = []

/-- The first atom of a text and what follows it can be told from the text. -/
theorem append_spelling_inj (ha : a.isPlain = true) (hb : b.isPlain = true) (hcs : Ends cs)
    (hds : Ends ds) (h : a.spelling ++ cs = b.spelling ++ ds) : a = b ∧ cs = ds := by
  obtain ⟨c, as, has, hplain⟩ := exists_spelling ha
  obtain ⟨d, bs, hbs, hother⟩ := exists_spelling hb
  rw [has, hbs, List.cons_append, List.cons_append, List.cons.injEq] at h
  obtain ⟨rfl, htail⟩ := h
  -- Both atoms are as long as the text stays free of signs.
  have hread := congrArg (List.takeWhile (!isOperatorChar ·)) htail
  rw [List.takeWhile_append_of_pos (by simpa using hplain),
    List.takeWhile_append_of_pos (by simpa using hother), hcs, hds, List.append_nil,
    List.append_nil] at hread
  subst hread
  exact ⟨eq_of_spelling_eq ha hb (has.trans hbs.symm), List.append_cancel_left htail⟩

end Atom

/-! ## §3 Rows of atoms and signs -/

namespace Formula

variable {f g : Formula}

/-- The first atom. -/
def first : Formula → Atom
  | atom a => a
  | join _ l _ => l.first

/-- The other atoms, each with the sign before it. -/
def rest : Formula → List (Sign × Atom)
  | atom _ => []
  | join s l r => l.rest ++ (s, r.first) :: r.rest

/-- All names in the formula are plain. -/
def isPlain (f : Formula) : Bool := f.first.isPlain && f.rest.all (·.2.isPlain)

/-- How a row of signs and atoms is written, each atom behind its sign. -/
def spellRow (row : List (Sign × Atom)) : List Char :=
  row.flatMap fun (s, a) => s.char :: a.spelling

theorem spelling_eq (f : Formula) : f.spelling = f.first.spelling ++ spellRow f.rest := by
  -- The right part begins with its own first atom, behind the sign that joins the two.
  induction f with
  | atom a => simp [spelling, first, rest, spellRow]
  | join s l r ihl ihr =>
    simp only [spelling, first, rest, spellRow, ihl, ihr, List.flatMap_append, List.flatMap_cons,
      List.append_assoc, List.cons_append]

theorem ends_spellRow (row : List (Sign × Atom)) : Atom.Ends (spellRow row) := by
  cases row with
  | nil => rfl
  | cons token row =>
    obtain ⟨s, a⟩ := token
    have hstop : (!isOperatorChar s.char) = false := by rw [s.isOperatorChar_char]; rfl
    simp only [Atom.Ends, spellRow, List.flatMap_cons, List.cons_append]
    exact List.takeWhile_cons_of_neg (by simp [hstop])

/-- Rows of plain atoms are told apart by their `spellRow`. -/
theorem spellRow_inj {row other : List (Sign × Atom)} (hrow : ∀ x ∈ row, x.2.isPlain = true)
    (hother : ∀ x ∈ other, x.2.isPlain = true) (h : spellRow row = spellRow other) :
    row = other := by
  -- Take one sign and one atom off both rows; what is left is spelled alike again.
  induction row generalizing other with
  | nil =>
    cases other with
    | nil => rfl
    | cons token other => cases h
  | cons token row ih =>
    cases other with
    | nil => cases h
    | cons token' other =>
      obtain ⟨s, a⟩ := token
      obtain ⟨t, b⟩ := token'
      rw [List.forall_mem_cons] at hrow hother
      have hcons : s.char :: (a.spelling ++ spellRow row) =
          t.char :: (b.spelling ++ spellRow other) := h
      obtain ⟨hsign, htail⟩ := List.cons.inj hcons
      obtain ⟨rfl, hrest⟩ :=
        Atom.append_spelling_inj hrow.1 hother.1 (ends_spellRow row) (ends_spellRow other) htail
      have hst : s = t := by
        cases s <;> cases t <;> first | rfl | exact absurd hsign (by decide)
      rw [hst, ih hrow.2 hother.2 hrest]

/-- **Formulas that are written alike have the same atoms and signs**: one `first`, and one `rest`.
-/
theorem row_eq_of_spelling_eq (hf : f.isPlain = true) (hg : g.isPlain = true)
    (h : f.spelling = g.spelling) : f.first = g.first ∧ f.rest = g.rest := by
  simp only [isPlain, Bool.and_eq_true, List.all_eq_true] at hf hg
  rw [spelling_eq, spelling_eq] at h
  obtain ⟨hfirst, hrow⟩ :=
    Atom.append_spelling_inj hf.1 hg.1 (ends_spellRow f.rest) (ends_spellRow g.rest) h
  exact ⟨hfirst, spellRow_inj hf.2 hg.2 hrow⟩

end Formula

end LoopAnalysis
