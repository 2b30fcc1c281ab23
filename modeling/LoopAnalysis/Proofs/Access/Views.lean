import LoopAnalysis.Access.Site
import LoopAnalysis.Access.Slice
import LoopAnalysis.Proofs.Profile.Nesting
import LoopAnalysis.Proofs.Program.Links
import LoopAnalysis.Proofs.Program.SingleAssignment

/-!
# Loops seen with and without tables

A loop answers from the tables of its function which blocks it has and which values it defines. A
host that offers no tables has these questions answered by a scan of the blocks of the loop. Where
no value is defined twice and all blocks of the loop exist, the answers are the same, and with them
everything that is read off definitions; only the texts differ, since names are lost.

## Main definitions

- `Loop.bare`: a loop with nothing but what every host has to offer;
- `LoopBody.SameDataflow`: two loops that tell the same of their values;
- `IndexTerm.SameButText`: two index terms that differ in their texts at most;
- `Function.SingleDefinition`: no value is the result of two instructions.

## Main statements

- `Loop.classifyIndex_sameButText`: loops of one dataflow have the same index terms, texts apart;
- `Function.containsBlock_eq_scan`, `Function.defines_eq_scan`: the tables against a scan;
- `WellLinked.loop?_scanned`: without tables, the loop at a position is the bare loop;
- `Function.tables_agree_with_scan`: all of it for every loop of a function.
-/

namespace LoopAnalysis

/-! ## §1 Bare loops -/

/-- What every host has to offer of a loop. Membership is found by scanning, and names and places
in the source text are lost. -/
def LoopBody.bare (lp : LoopBody) : LoopBody where
  header := lp.header
  blocks := lp.blocks
  inductionVariable := lp.inductionVariable
  definition := lp.definition
  functionName := lp.functionName

namespace Loop

mutual

/-- A loop of which only what every host has to offer is left, and so of all loops inside it. -/
def bare : Loop → Loop
  | ⟨body, enclosing, subs⟩ => ⟨body.bare, enclosing, bareAll subs⟩

/-- Bare loops, one for each of a list. -/
def bareAll : List Loop → List Loop
  | [] => []
  | lp :: rest => bare lp :: bareAll rest

end

@[simp] theorem toLoopBody_bare (lp : Loop) : lp.bare.toLoopBody = lp.toLoopBody.bare := by
  obtain ⟨body, enclosing, subs⟩ := lp
  rw [bare]

theorem bareAll_eq_map (lps : List Loop) : bareAll lps = lps.map bare := by
  induction lps with
  | nil => rw [bareAll, List.map_nil]
  | cons lp rest ih => rw [bareAll, ih, List.map_cons]

mutual

/-- A `bare` loop has the same loops inside it. -/
theorem nestedIvs_bare : (lp : Loop) → lp.bare.nestedIvs = lp.nestedIvs
  | ⟨_, _, subs⟩ => by rw [bare, nestedIvs, nestedIvs, nestedIvsAll_bareAll subs]

theorem nestedIvsAll_bareAll : (lps : List Loop) → nestedIvsAll (bareAll lps) = nestedIvsAll lps
  | [] => by rw [bareAll]
  | lp :: rest => by
    have hiv : lp.bare.inductionVariable = lp.inductionVariable := by
      rw [toLoopBody_bare]
      rfl
    rw [bareAll, nestedIvsAll, nestedIvsAll, nestedIvs_bare lp, nestedIvsAll_bareAll rest, hiv]

end

end Loop

/-! ## §2 What is read off definitions -/

/-- Two index terms of one kind, with the same coefficient and offset where they have one. -/
inductive IndexTerm.SameButText : IndexTerm → IndexTerm → Prop where
  | affine (coefficient offset : Int64) :
      SameButText (.affine coefficient offset) (.affine coefficient offset)
  | invariant (text text' : String) : SameButText (.invariant text) (.invariant text')
  | swept (text text' : String) : SameButText (.swept text) (.swept text')
  | indirect : SameButText .indirect .indirect
  | unresolved : SameButText .unresolved .unresolved

theorem IndexTerm.SameButText.refl (term : IndexTerm) : term.SameButText term := by
  cases term <;> constructor

namespace LoopBody

/-- Two loops that iterate over the same value and tell the same of all values: which instruction
defines each, and whether it does so inside the loop (`defines`). -/
structure SameDataflow (lp lp' : LoopBody) : Prop where
  inductionVariable : lp.inductionVariable = lp'.inductionVariable
  definition        : lp.definition = lp'.definition
  defines           : lp.defines = lp'.defines

namespace SameDataflow

variable {lp lp' : LoopBody}

theorem isInvariant_eq (h : SameDataflow lp lp') : lp.isInvariant = lp'.isInvariant := by
  funext x
  cases x with
  | value v => simp only [isInvariant, h.defines]
  | _ => rfl

theorem isOuterSymbol_eq (h : SameDataflow lp lp') : lp.isOuterSymbol = lp'.isOuterSymbol := by
  funext x
  simp only [isOuterSymbol, h.isInvariant_eq]

theorem affineWith_eq (h : SameDataflow lp lp') (iv : ValueId) (symbolic : Operand → Bool)
    (levels : Nat) (x : Operand) :
    lp.affineWith iv symbolic levels x = lp'.affineWith iv symbolic levels x := by
  induction levels generalizing x with
  | zero => rfl
  | succ levels ih =>
    -- An expression is followed through definitions alone, whether they stand in the loop or not.
    cases x <;> simp only [affineWith, h.definition, ih]

theorem affineIn_eq (h : SameDataflow lp lp') (x : Operand) (iv : ValueId) :
    lp.affineIn x iv = lp'.affineIn x iv := h.affineWith_eq iv _ _ x

theorem readsMemory_eq (h : SameDataflow lp lp') (levels : Nat) (x : Operand) :
    lp.readsMemory levels x = lp'.readsMemory levels x := by
  induction levels generalizing x with
  | zero => rfl
  | succ levels ih => simp only [readsMemory, h.definition, h.defines, ih]

/-- The search `sliceFrom` goes through the same values in the same order. -/
theorem sliceFrom_eq (h : SameDataflow lp lp') (stack seen : List ValueId) :
    lp.sliceFrom stack seen = lp'.sliceFrom stack seen := by
  have hstep : lp.sliceStep = lp'.sliceStep := by
    funext v
    simp only [sliceStep, h.definition]
  fun_induction lp.sliceFrom stack seen with
  | case1 seen => rw [sliceFrom]
  | case2 seen v rest hskip ih => rw [ih, sliceFrom.eq_2, if_pos (h.defines ▸ hskip)]
  | case3 seen v rest hgrow ih => rw [ih, sliceFrom.eq_2, if_neg (h.defines ▸ hgrow), hstep]

theorem expressionValues_eq (h : SameDataflow lp lp') (x : Operand) :
    lp.expressionValues x = lp'.expressionValues x := h.sliceFrom_eq _ _

/-- What a loop itself tells of an index, by `classifyOwn`. -/
theorem classifyOwn_sameButText (h : SameDataflow lp lp') (index : Operand) :
    Option.Rel IndexTerm.SameButText (lp.classifyOwn index) (lp'.classifyOwn index) := by
  simp only [classifyOwn, h.isInvariant_eq, h.inductionVariable, h.affineIn_eq, h.readsMemory_eq]
  split
  · exact .some (.invariant _ _)
  · -- Nothing but an invariant index is given a text by the loop itself.
    split
    · exact .some (.refl _)
    · split
      · exact .some .indirect
      · exact .none

end SameDataflow

end LoopBody

/-- **Loops of one dataflow have the same index terms**, apart from texts, if the same loops are
inside them. -/
theorem Loop.classifyIndex_sameButText {lp lp' : Loop}
    (h : LoopBody.SameDataflow lp.toLoopBody lp'.toLoopBody)
    (hnested : lp.nestedIvs = lp'.nestedIvs) (index : Operand) :
    (lp.classifyIndex index).SameButText (lp'.classifyIndex index) := by
  have hown := h.classifyOwn_sameButText index
  unfold classifyIndex
  generalize lp.classifyOwn index = own at hown ⊢
  generalize lp'.classifyOwn index = own' at hown ⊢
  cases hown with
  | some hsame => exact hsame
  | none =>
    -- The loops inside decide, and their induction variables are tried in the same way.
    simp only [hnested, h.isOuterSymbol_eq, h.affineWith_eq]
    split
    · exact .swept _ _
    · exact .unresolved

/-! ## §3 Tables of a function -/

namespace Function

variable {f : Function} {entry : LoopEntry} {b : BlockId} {v : ValueId} {i : Instruction}

/-- No value is the result of two of the instructions that are `placed` in a block. -/
def SingleDefinition (f : Function) : Prop := (f.placed.filterMap (·.2.result)).Nodup

instance : Decidable f.SingleDefinition := inferInstanceAs (Decidable (List.Nodup _))

/-- The block that `block?` finds is the one block of the function with that number. -/
theorem block?_eq_some_iff {block : Block} :
    f.block? b = some block ↔ block ∈ f.blocks ∧ block.id = b := by
  constructor
  · intro h
    exact ⟨List.mem_of_find?_eq_some h, by simpa using List.find?_some h⟩
  · rintro ⟨hblock, rfl⟩
    have hids : (f.blocks.filterMap fun c => some c.id).Nodup := by
      rw [List.filterMap_eq_map', List.Nodup, List.pairwise_map]
      exact f.ascending.imp fun hlt heq => Nat.ne_of_lt hlt (congrArg BlockId.index heq)
    simpa [block?] using find?_of_nodup hids hblock rfl

theorem mem_placed_iff :
    (b, i) ∈ f.placed ↔ ∃ block, f.block? b = some block ∧ i ∈ block.instructions := by
  simp only [placed, List.mem_flatMap, List.mem_map, Prod.mk.injEq, block?_eq_some_iff]
  constructor
  · rintro ⟨block, hblock, i, hi, rfl, rfl⟩
    exact ⟨block, ⟨hblock, rfl⟩, hi⟩
  · rintro ⟨block, ⟨hblock, rfl⟩, hi⟩
    exact ⟨block, hblock, i, hi, rfl, rfl⟩

/-- Where no value is defined twice, the definition that `definedAt?` keeps of a value is its only
one. -/
theorem SingleDefinition.definedAt?_eq_some_iff (h : f.SingleDefinition) :
    f.definedAt? v = some (b, i) ↔ (b, i) ∈ f.placed ∧ i.result = some v := by
  constructor
  · intro hfind
    have hplaced := List.mem_reverse.mp (List.mem_of_find?_eq_some hfind)
    exact ⟨hplaced, by simpa using List.find?_some hfind⟩
  · rintro ⟨hplaced, hv⟩
    have hreverse : (f.placed.reverse.filterMap (·.2.result)).Nodup := by
      rw [List.filterMap_reverse, List.nodup_reverse]
      exact h
    exact find?_of_nodup hreverse (List.mem_reverse.mpr hplaced) hv

theorem mem_blocksOf_iff {block : Block} :
    block ∈ f.blocksOf entry ↔ block.id ∈ entry.blocks ∧ f.block? block.id = some block := by
  rw [blocksOf, List.mem_filterMap]
  constructor
  · rintro ⟨b, hb, hblock⟩
    obtain rfl := (block?_eq_some_iff.mp hblock).2
    exact ⟨hb, hblock⟩
  · rintro ⟨hb, hblock⟩
    exact ⟨block.id, hb, hblock⟩

/-- **The list of the blocks of a loop against a scan**: `containsBlock` is the same with both if
all listed blocks exist. -/
theorem containsBlock_eq_scan (hblocks : ∀ b ∈ entry.blocks, (f.block? b).isSome) (b : BlockId) :
    (f.body .indexed entry).containsBlock b = (f.blocksOf entry).any (·.id == b) := by
  rw [Bool.eq_iff_iff]
  simp only [body, List.contains_iff_mem, List.any_eq_true, beq_iff_eq, mem_blocksOf_iff]
  constructor
  · intro hb
    obtain ⟨block, hblock⟩ := Option.isSome_iff_exists.mp (hblocks b hb)
    obtain rfl := (block?_eq_some_iff.mp hblock).2
    exact ⟨block, ⟨hb, hblock⟩, rfl⟩
  · rintro ⟨block, ⟨hb, -⟩, rfl⟩
    exact hb

/-- **The table of definitions against a scan**: `defines` is the same with both if no value is
defined twice. Then the block that the table gives for a value is the only one in which a scan can
find it. -/
theorem defines_eq_scan (hsingle : f.SingleDefinition) (v : ValueId) :
    (f.body .indexed entry).defines v =
      (f.blocksOf entry).any (·.instructions.any (·.result == some v)) := by
  rw [Bool.eq_iff_iff]
  simp only [body, Option.any_eq_true, List.contains_iff_mem, List.any_eq_true, beq_iff_eq,
    mem_blocksOf_iff]
  constructor
  · -- The table knows the block of the definition; the loop lists it, so a scan comes to it.
    rintro ⟨⟨b, i⟩, hat, hb⟩
    obtain ⟨hplaced, hv⟩ := hsingle.definedAt?_eq_some_iff.mp hat
    obtain ⟨block, hblock, hi⟩ := mem_placed_iff.mp hplaced
    obtain rfl := (block?_eq_some_iff.mp hblock).2
    exact ⟨block, ⟨hb, hblock⟩, i, hi, hv⟩
  · -- Only here it matters that no definition elsewhere can take the place of the one found.
    rintro ⟨block, ⟨hb, hblock⟩, i, hi, hv⟩
    have hplaced : (block.id, i) ∈ f.placed := mem_placed_iff.mpr ⟨block, hblock, hi⟩
    exact ⟨(block.id, i), hsingle.definedAt?_eq_some_iff.mpr ⟨hplaced, hv⟩, hb⟩

-- Of a value that is defined in a loop and again behind it, the table keeps the later definition.
example :
    let f := ofBlocks "twice" none
      [⟨⟨1⟩, [.cast ⟨0⟩ (.int 1)], none⟩, ⟨⟨2⟩, [.cast ⟨0⟩ (.int 2)], none⟩] [] []
    let entry : LoopEntry := ⟨⟨1⟩, [⟨1⟩], none, none, [], none⟩
    (f.body .indexed entry).defines ⟨0⟩ = false ∧ (f.body .scanned entry).defines ⟨0⟩ = true := by
  decide

theorem sameDataflow_bare (hsingle : f.SingleDefinition) :
    LoopBody.SameDataflow (f.body .indexed entry) (f.body .indexed entry).bare where
  inductionVariable := rfl
  definition := rfl
  defines := funext (defines_eq_scan hsingle)

end Function

/-! ## §4 Loops of a function under both views -/

section Views

variable {f : Function} {p : Nat} {e : LoopEntry}

/-- A loop is seen by `loopAt` with any number of levels that its nest ends within. -/
theorem EndsWithin.exists_loopAt {view : LoopView} {levels : Nat}
    (h : EndsWithin (NamesChild f.loops) levels p) (hp : p < f.loops.length) :
    ∃ lp, f.loopAt view levels p = some lp := by
  cases levels with
  | zero => exact absurd h not_endsWithin_zero
  | succ levels => exact ⟨_, loopAt_succ (List.getElem?_eq_getElem hp) levels⟩

namespace WellLinked

theorem subLoopCount_scanned (L : WellLinked f.loops) (he : f.loops[p]? = some e) :
    f.subLoopCount .scanned e = f.subLoopCount .indexed e := by
  have hall : ∀ c ∈ e.children, decide (c < f.loops.length) = true := fun c hc =>
    decide_eq_true (L.child_lt (namesChild_of_mem he hc))
  simp only [Function.subLoopCount]
  rw [List.filter_eq_self.mpr hall]

theorem enclosingFrom_scanned (L : WellLinked f.loops) (fuel : Nat) (parent : Option Nat) :
    f.enclosingFrom .scanned fuel parent = f.enclosingFrom .indexed fuel parent := by
  induction fuel generalizing parent with
  | zero => cases parent <;> simp [Function.enclosingFrom]
  | succ fuel ih =>
    cases parent with
    | none => simp [Function.enclosingFrom]
    | some p =>
      cases he : f.loops[p]? with
      | none => simp [Function.enclosingFrom, he]
      | some e => rw [enclosingFrom_some he, enclosingFrom_some he, ih, L.subLoopCount_scanned he]

theorem loopAt_scanned (L : WellLinked f.loops) {levels : Nat} (hp : p < f.loops.length)
    (hlevels : EndsWithin (NamesChild f.loops) levels p) :
    f.loopAt .scanned levels p = (f.loopAt .indexed levels p).map Loop.bare := by
  -- Induct on the levels; each child is seen with one less, as the ways from it are shorter.
  induction levels generalizing p with
  | zero => exact absurd hlevels not_endsWithin_zero
  | succ levels ih =>
    have he := List.getElem?_eq_getElem hp
    have hsubs : f.subLoopsOf .scanned levels f.loops[p] =
        Loop.bareAll (f.subLoopsOf .indexed levels f.loops[p]) := by
      rw [Loop.bareAll_eq_map, Function.subLoopsOf, List.map_map]
      apply subLoopsOf_eq_map (by decide)
      intro c hc
      -- Every link leads to a loop, so that neither view has a gap where the other has a loop.
      have hchild := namesChild_of_mem he hc
      have hbelow := hlevels.next hchild
      obtain ⟨sub, hsub⟩ : ∃ sub, f.loopAt .indexed levels c = some sub :=
        hbelow.exists_loopAt (L.child_lt hchild)
      simp only [ih (L.child_lt hchild) hbelow, hsub, Function.comp_apply, Option.map_some,
        Option.getD_some]
    rw [loopAt_succ he, loopAt_succ he, hsubs, L.enclosingFrom_scanned, Option.map_some, Loop.bare]
    rfl

/-- **Without tables, the loop at a position is the `bare` loop.** -/
theorem loop?_scanned (L : WellLinked f.loops) (hp : p < f.loops.length) :
    f.loop? .scanned p = (f.loop? .indexed p).map Loop.bare :=
  L.loopAt_scanned hp (L.endsWithin_children hp)

end WellLinked

/-- **Tables and scans tell the same of a loop.** Let no value of a function be the result of two
instructions (`SingleDefinition`), let its links be in order (`WellLinked`), and let all blocks
listed for a loop exist. Then no walk from the loop meets a broken link, the loop is there with
tables and without, and of each block and value the tables say what a scan of the blocks of the loop
finds. So the same operands are invariant, with the same affine forms and the same slices, and every
index has the same term, apart from its text (`SameButText`). -/
theorem Function.tables_agree_with_scan (hsingle : f.SingleDefinition) (hlinks : WellLinked f.loops)
    (he : f.loops[p]? = some e) (hblocks : ∀ b ∈ e.blocks, (f.block? b).isSome) :
    f.brokenAncestor p = none ∧ f.brokenBelow p = none ∧
    ∃ lp, f.loop? .indexed p = some lp ∧ f.loop? .scanned p = some lp.bare ∧
      (∀ b, lp.containsBlock b = lp.blocks.any (·.id == b)) ∧
      (∀ v, lp.defines v = lp.instructions.any (·.result == some v)) ∧
      (∀ x, lp.isInvariant x = lp.bare.isInvariant x) ∧
      (∀ x iv, lp.affineIn x iv = lp.bare.affineIn x iv) ∧
      (∀ x, lp.expressionValues x = lp.bare.expressionValues x) ∧
      ∀ x, (lp.classifyIndex x).SameButText (lp.bare.classifyIndex x) := by
  have hp : p < f.loops.length := (List.getElem?_eq_some_iff.mp he).1
  obtain ⟨lp, hlp, hbody, -⟩ := loop?_of_getElem? .indexed he
  have hbare : f.loop? .scanned p = some lp.bare := by
    rw [hlinks.loop?_scanned hp, hlp, Option.map_some]
  have hflow : LoopBody.SameDataflow lp.toLoopBody lp.bare.toLoopBody := by
    rw [Loop.toLoopBody_bare, hbody]
    exact sameDataflow_bare hsingle
  have hcontains : ∀ b, lp.containsBlock b = lp.blocks.any (·.id == b) := by
    rw [hbody]
    exact containsBlock_eq_scan hblocks
  have hdefines : ∀ v, lp.defines v = lp.instructions.any (·.result == some v) := by
    intro v
    rw [LoopBody.instructions, List.any_flatMap, hbody]
    exact defines_eq_scan hsingle v
  exact ⟨hlinks.brokenAncestor_eq_none, hlinks.brokenBelow_eq_none hp, lp, hlp, hbare, hcontains,
    hdefines, congrFun hflow.isInvariant_eq, hflow.affineIn_eq, hflow.expressionValues_eq,
    Loop.classifyIndex_sameButText hflow lp.nestedIvs_bare.symm⟩

end Views

/-- A loop recorded before the one around it. -/
def innerFirst : List LoopEntry :=
  [⟨⟨2⟩, [⟨2⟩, ⟨3⟩], some ⟨3⟩, some 1, [], none⟩,
    ⟨⟨1⟩, [⟨1⟩, ⟨2⟩, ⟨3⟩, ⟨4⟩], some ⟨0⟩, none, [0], none⟩]

theorem wellLinked_innerFirst : WellLinked innerFirst := by
  apply WellLinked.of_rank fun p => 1 - p
  · -- The inner loop comes first, so ranks fall from position to position.
    intro c p hparent
    match c with
    | 0 =>
      cases hparent
      decide
    | 1 => cases hparent
    | c + 2 => cases hparent
  · rintro p c ⟨cs, hcs, hc⟩
    match p with
    | 0 =>
      cases hcs
      cases hc
    | 1 =>
      cases hcs
      obtain rfl := List.mem_singleton.mp hc
      decide
    | p + 2 => cases hcs

namespace Function

/-- Copies row `i + 1` of one matrix to row `i` of another, for each `i`. -/
def movesRows : Function :=
  .ofBlocks "movesRows" none
    [ ⟨⟨0⟩, [.jump ⟨1⟩], none⟩,
      ⟨⟨1⟩, [.phi ⟨0⟩ [(.int 0, ⟨0⟩), (.value ⟨1⟩, ⟨4⟩)],
        .compare ⟨2⟩ .lt (.value ⟨0⟩) (.symbol "n"), .branch (.value ⟨2⟩) ⟨2⟩ ⟨5⟩], none⟩,
      ⟨⟨2⟩, [.phi ⟨3⟩ [(.int 0, ⟨1⟩), (.value ⟨4⟩, ⟨3⟩)],
        .compare ⟨5⟩ .lt (.value ⟨3⟩) (.symbol "n"), .branch (.value ⟨5⟩) ⟨3⟩ ⟨4⟩], none⟩,
      ⟨⟨3⟩, [.binary ⟨6⟩ .add (.value ⟨0⟩) (.int 1),
        .elementPtr ⟨7⟩ (.symbol "A") [.value ⟨6⟩, .value ⟨3⟩], .load ⟨8⟩ (.value ⟨7⟩),
        .elementPtr ⟨9⟩ (.symbol "B") [.value ⟨0⟩, .value ⟨3⟩], .store (.value ⟨9⟩) (.value ⟨8⟩),
        .binary ⟨4⟩ .add (.value ⟨3⟩) (.int 1), .jump ⟨2⟩], none⟩,
      ⟨⟨4⟩, [.binary ⟨1⟩ .add (.value ⟨0⟩) (.int 1), .jump ⟨1⟩], none⟩,
      ⟨⟨5⟩, [.ret none], none⟩ ]
    innerFirst [(⟨0⟩, "i"), (⟨3⟩, "j")]

/-- The theorem at its outer loop: without tables the row index is found to move by one, and the
column index to be swept, as with them; the name in the text of the latter is lost. -/
theorem movesRows_agrees :
    movesRows.SingleDefinition ∧ WellLinked movesRows.loops ∧
    ∃ lp, movesRows.loop? .indexed 1 = some lp ∧ movesRows.loop? .scanned 1 = some lp.bare ∧
      lp.classifyIndex (.value ⟨6⟩) = .affine 1 1 ∧
      lp.bare.classifyIndex (.value ⟨6⟩) = .affine 1 1 ∧
      lp.classifyIndex (.value ⟨3⟩) = .swept "j" ∧
      ∃ text, lp.bare.classifyIndex (.value ⟨3⟩) = .swept text := by
  have hsingle : movesRows.SingleDefinition := by decide
  obtain ⟨-, -, lp, hlp, hbare, -, -, -, -, -, hterms⟩ :=
    tables_agree_with_scan (p := 1) hsingle wellLinked_innerFirst rfl (by decide)
  have hrow : (movesRows.loop? .indexed 1).map (·.classifyIndex (.value ⟨6⟩)) =
      some (.affine 1 1) := by decide
  have hcolumn : (movesRows.loop? .indexed 1).map (·.classifyIndex (.value ⟨3⟩)) =
      some (.swept "j") := by decide
  rw [hlp, Option.map_some, Option.some.injEq] at hrow hcolumn
  have hbareRow := hterms (.value ⟨6⟩)
  have hbareColumn := hterms (.value ⟨3⟩)
  rw [hrow] at hbareRow
  rw [hcolumn] at hbareColumn
  refine ⟨hsingle, wellLinked_innerFirst, lp, hlp, hbare, hrow, ?_, hcolumn, ?_⟩
  · generalize lp.bare.classifyIndex (.value ⟨6⟩) = term at hbareRow
    cases hbareRow
    rfl
  · generalize lp.bare.classifyIndex (.value ⟨3⟩) = term at hbareColumn
    cases hbareColumn
    exact ⟨_, rfl⟩

end Function

end LoopAnalysis
