import LoopAnalysis.Proofs.Access.Site
import LoopAnalysis.Proofs.Program.Operand

/-!
# The array behind an access

Which array an access belongs to is decided by the text of an operand, and the text of an operand
by names and definitions. Here the operand behind the text is recovered, and where the text of an
access and the text of its array say the same.

## Main definitions

- `Loop.addressOf?`, `Loop.baseOf?`: the address of an access, and the operand of its array;
- `LoopBody.hasOwnText`: the text of an operand that does not come from its definition;
- `Loop.isSpelledOut`: the text of an address is that of its array and its indices.

## Main statements

- `Loop.exists_address`: every field of an access that its address decides;
- `Loop.base_eq_of_spelledOut`: accesses of one place whose texts are spelled out are of one array.
-/

namespace LoopAnalysis

/-! ## §1 Texts -/

namespace LoopBody

variable {lp : LoopBody} {x : Operand}

/-- An operand whose text is its own: a constant, a symbol or a value with a `valueName`. -/
def hasOwnText (lp : LoopBody) : Operand → Bool
  | .value v => (lp.valueName v).isSome
  | _ => true

/-- Such a text is the same however many levels `renderAt` unfolds. -/
theorem renderAt_of_hasOwnText (h : lp.hasOwnText x = true) (m n : Nat) :
    lp.renderAt m x = lp.renderAt n x := by
  cases x with
  | value v =>
    obtain ⟨name, hname⟩ := Option.isSome_iff_exists.mp h
    rw [renderAt.eq_def, renderAt.eq_def]
    simp only [hname]
  | int | float | symbol => rw [renderAt.eq_def, renderAt.eq_def]

/-- The text of the indices of an element, read by `renderAt` to a number of levels. -/
def indexText (lp : LoopBody) (levels : Nat) (indices : List Operand) : String :=
  String.join (indices.map fun ix => "[" ++ lp.renderAt levels ix ++ "]")

theorem renderAt_elementPtr {v r : ValueId} {base : Operand} {indices : List Operand} {levels : Nat}
    (hname : lp.valueName v = none) (hdef : lp.definition v = some (.elementPtr r base indices)) :
    lp.renderAt (levels + 1) (.value v) =
      lp.renderAt levels base ++ lp.indexText levels indices := by
  rw [renderAt.eq_def]
  simp only [hname, hdef, indexText]

theorem renderAt_cast {v r : ValueId} {operand : Operand} {levels : Nat}
    (hname : lp.valueName v = none) (hdef : lp.definition v = some (.cast r operand)) :
    lp.renderAt (levels + 1) (.value v) = lp.renderAt levels operand := by
  rw [renderAt.eq_def]
  simp only [hname, hdef]

end LoopBody

/-- The address that a load or a store goes to. -/
def Instruction.address? : Instruction → Option Operand
  | .load _ address => some address
  | .store address _ => some address
  | _ => none

namespace Loop

variable {lp : Loop} {s t : AccessSite} {a b : Operand}

/-! ## §2 Addresses -/

/-- What `resolveAddress` finds: an element with its array and indices, or an array of its own. -/
theorem resolveAddress_cases (lp : Loop) (a : Operand) :
    (∃ v r base indices, a = .value v ∧ lp.definition v = some (.elementPtr r base indices) ∧
      lp.resolveAddress a = (base, indices)) ∨
    lp.resolveAddress a = (a, []) := by
  unfold resolveAddress
  split
  · next r base indices hdef =>
    cases a with
    | value v => exact .inl ⟨v, r, base, indices, rfl, hdef, rfl⟩
    | int | float | symbol => cases hdef
  · exact .inr rfl

/-- The address of the instruction at the position of an access. -/
def addressOf? (lp : Loop) (s : AccessSite) : Option Operand :=
  (lp.instructions[s.order]?).bind (·.address?)

/-- The operand that stands for the array of an access: what `resolveAddress` makes of its address.
-/
def baseOf? (lp : Loop) (s : AccessSite) : Option Operand :=
  (lp.addressOf? s).map fun address => (lp.resolveAddress address).1

/-- What the address of an access decides about it. -/
structure Addresses (lp : Loop) (s : AccessSite) (address : Operand) : Prop where
  addressOf     : lp.addressOf? s = some address
  base          : s.base = lp.render (lp.resolveAddress address).1
  baseInvariant : s.baseInvariant = lp.isInvariant (lp.resolveAddress address).1
  indices       : s.indices = (lp.resolveAddress address).2
  rendered      : s.rendered = lp.render address

/-- Every access has an address, which decides its other fields as `Addresses` says. -/
theorem exists_address (hs : s ∈ lp.accesses) : ∃ address, lp.Addresses s address := by
  obtain ⟨i, hi, hsite⟩ := mem_accesses_iff.mp hs
  -- Loads and stores build the access in one way, so one argument serves both.
  have of_site {kind : AccessKind} {address : Operand} {v : Option Operand} {r : Option ValueId}
      (haddress : i.address? = some address) (heq : s = lp.siteOf kind s.order address v r) :
      lp.Addresses s address :=
    ⟨by rw [addressOf?, hi, Option.bind_some, haddress], congrArg (·.base) heq,
      congrArg (·.baseInvariant) heq, congrArg (·.indices) heq, congrArg (·.rendered) heq⟩
  obtain ⟨r, address, rfl, heq⟩ | ⟨address, v, rfl, heq⟩ := siteOf?_cases hsite
  · exact ⟨address, of_site rfl heq⟩
  · exact ⟨address, of_site rfl heq⟩

theorem Addresses.baseOf? (h : lp.Addresses s a) :
    lp.baseOf? s = some (lp.resolveAddress a).1 := by
  rw [Loop.baseOf?, h.addressOf]
  rfl

/-! ## §3 Addresses that are spelled out -/

/-- The text of an address tells its array and its indices: it is not an element under a name of
its own, the text of the array does not depend on how far definitions are unfolded, and the indices
are not fractional. -/
def isSpelledOut (lp : Loop) (address : Operand) : Bool :=
  match lp.definitionOf address with
  | some (.elementPtr _ base indices) =>
    !lp.hasOwnText address && lp.hasOwnText base && indices.all (!·.isFractional)
  | _ => true

/-- The text of an access that `isSpelledOut` is that of its array followed by that of its indices.
-/
theorem rendered_of_spelledOut (h : lp.Addresses s a) (hspelled : lp.isSpelledOut a = true) :
    s.rendered = s.base ++ lp.indexText (exprLevels - 1) s.indices ∧
      s.indices.all (!·.isFractional) = true := by
  rw [h.rendered, h.base, h.indices]
  unfold isSpelledOut at hspelled
  obtain ⟨v, r, base, indices, rfl, hdef, hresolve⟩ | hresolve := resolveAddress_cases lp a
  · rw [hresolve]
    have hdefOf : lp.definitionOf (.value v) = some (.elementPtr r base indices) := hdef
    simp only [hdefOf, Bool.and_eq_true, Bool.not_eq_true'] at hspelled
    obtain ⟨⟨hunnamed, hbase⟩, hindices⟩ := hspelled
    have hname : lp.valueName v = none := by
      simpa [LoopBody.hasOwnText] using hunnamed
    refine ⟨?_, hindices⟩
    rw [LoopBody.render, LoopBody.render, LoopBody.renderAt_of_hasOwnText hbase exprLevels 8]
    exact LoopBody.renderAt_elementPtr hname hdef
  · -- The address is the array, and there are no indices to show.
    rw [hresolve]
    exact ⟨String.append_empty.symm, rfl⟩

/-- **Accesses of one place are of one array** where their texts are spelled out. -/
theorem base_eq_of_spelledOut (hs : lp.Addresses s a) (ht : lp.Addresses t b)
    (ha : lp.isSpelledOut a = true) (hb : lp.isSpelledOut b = true)
    (hsame : s.sameLocation t = true) : s.base = t.base := by
  rw [AccessSite.sameLocation, Bool.and_eq_true, beq_iff_eq] at hsame
  obtain ⟨htext, hindices⟩ := hsame
  -- Indices that compare equal are equal, so the rest of the two texts is the same.
  obtain ⟨hs, hplain⟩ := rendered_of_spelledOut hs ha
  rw [hs, (rendered_of_spelledOut ht hb).1, Operand.eq_of_beq_of_all hindices hplain] at htext
  exact (String.append_left_inj _).mp htext

end Loop

end LoopAnalysis
