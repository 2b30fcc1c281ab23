import LoopAnalysis.Program.Instruction

/-!
# Functions

A function is a set of blocks, each under its own number, a forest of loops, and names for some of
its values. Loops refer to each other by their position in the list of loops.
-/

namespace LoopAnalysis

/-- A loop as a function records it: `parent` and `children` are positions in its list of loops. -/
structure LoopEntry where
  header            : BlockId
  blocks            : List BlockId
  inductionVariable : Option ValueId
  parent            : Option Nat
  children          : List Nat
  line              : Option Nat
deriving Repr, Inhabited

/-! ## §1 Blocks in ascending order -/

/-- Puts a block in its place among blocks of ascending number, replacing one of the same number. -/
def Block.insert (b : Block) : List Block → List Block
  | [] => [b]
  | c :: cs =>
    if b.id.index < c.id.index then b :: c :: cs
    else if b.id.index = c.id.index then b :: cs
    else c :: Block.insert b cs

/-- Blocks in strictly ascending order of their numbers. -/
def Block.Ascending (bs : List Block) : Prop := bs.Pairwise (fun a b => a.id.index < b.id.index)

/-- What `Block.insert` gives has the new block and blocks that were there. -/
theorem Block.mem_insert {b c : Block} {bs : List Block} (h : c ∈ Block.insert b bs) :
    c = b ∨ c ∈ bs := by
  induction bs with
  | nil => simpa [Block.insert] using h
  | cons d ds ih =>
    unfold Block.insert at h
    split at h
    · simpa using h
    · split at h
      · rcases List.mem_cons.mp h with h | h
        · exact .inl h
        · exact .inr (List.mem_cons_of_mem _ h)
      · rcases List.mem_cons.mp h with h | h
        · exact .inr (h ▸ List.mem_cons_self)
        · exact (ih h).imp_right (List.mem_cons_of_mem _)

/-- Into blocks in `Block.Ascending` order, `Block.insert` puts another without breaking it. -/
theorem Block.ascending_insert {b : Block} {bs : List Block} (h : Block.Ascending bs) :
    Block.Ascending (Block.insert b bs) := by
  induction bs with
  | nil => simp [Block.insert, Block.Ascending]
  | cons c cs ih =>
    unfold Block.Ascending at h
    obtain ⟨hc, hcs⟩ := List.pairwise_cons.mp h
    unfold Block.insert
    split
    · next hlt =>
      refine List.pairwise_cons.mpr ⟨?_, h⟩
      intro d hd
      rcases List.mem_cons.mp hd with rfl | hd
      · exact hlt
      · exact Nat.lt_trans hlt (hc d hd)
    · split
      · next heq =>
        exact List.pairwise_cons.mpr ⟨fun d hd => heq ▸ hc d hd, hcs⟩
      · next hlt hne =>
        -- The block goes further down, and all that is put behind `c` has a larger number.
        refine List.pairwise_cons.mpr ⟨?_, ih hcs⟩
        intro d hd
        rcases Block.mem_insert hd with rfl | hd
        · omega
        · exact hc d hd

/-- Blocks put in order one by one with `Block.insert`; of two with one number the later stays. -/
def Block.arrange (bs : List Block) : List Block := bs.foldl (fun acc b => b.insert acc) []

/-- Whatever the order of the blocks, `Block.arrange` leaves them in `Block.Ascending` order. -/
theorem Block.ascending_arrange (bs : List Block) : Block.Ascending (Block.arrange bs) := by
  have go : ∀ (bs acc : List Block), Block.Ascending acc →
      Block.Ascending (bs.foldl (fun acc b => b.insert acc) acc) := by
    -- Each insertion keeps the order, so the induction is over the blocks that are left to insert.
    intro bs
    induction bs with
    | nil => exact fun _ h => h
    | cons b bs ih => exact fun acc h => ih _ (Block.ascending_insert h)
  exact go bs [] List.Pairwise.nil

/-! ## §2 Functions -/

/-- A function of the program, whose blocks stand in `Block.Ascending` order. -/
structure Function where
  name      : String
  file      : Option String
  blocks    : List Block
  loops     : List LoopEntry
  names     : List (ValueId × String)
  ascending : Block.Ascending blocks

namespace Function

/-- A function from blocks in any order, put in order by `Block.arrange`. -/
def ofBlocks (name : String) (file : Option String) (blocks : List Block)
    (loops : List LoopEntry) (names : List (ValueId × String)) : Function :=
  { name, file, loops, names, blocks := Block.arrange blocks
    ascending := Block.ascending_arrange blocks }

/-- The block with a number. -/
def block? (f : Function) (id : BlockId) : Option Block := f.blocks.find? (·.id == id)

/-- Every instruction with the block it stands in, in ascending order of `blocks`. -/
def placed (f : Function) : List (BlockId × Instruction) :=
  f.blocks.flatMap fun b => b.instructions.map (b.id, ·)

/-- Where a value is defined; the last definition among those `placed` counts. -/
def definedAt? (f : Function) (v : ValueId) : Option (BlockId × Instruction) :=
  f.placed.reverse.find? (·.2.result == some v)

/-- The instruction that defines a value, at the place of `definedAt?`. -/
def definition? (f : Function) (v : ValueId) : Option Instruction := (f.definedAt? v).map (·.2)

/-- The name of a value; the last one in `names` counts. -/
def valueName? (f : Function) (v : ValueId) : Option String :=
  (f.names.reverse.find? (·.1 == v)).map (·.2)

/-- The positions of the loops without a `parent`. -/
def topLevel (f : Function) : List Nat :=
  (f.loops.zipIdx.filter (·.1.parent.isNone)).map (·.2)

/-- The listed blocks of a loop that `block?` finds, in the order of the list. -/
def blocksOf (f : Function) (entry : LoopEntry) : List Block := entry.blocks.filterMap f.block?

/-- The source `line` of a loop: its own, or else that of its header. -/
def lineOf (f : Function) (entry : LoopEntry) : Option Nat :=
  entry.line <|> (f.block? entry.header).bind (·.line)

/-- Where a loop stands in the source text: the file of the function and the line of `lineOf`. -/
def locationOf (f : Function) (entry : LoopEntry) : Option SourceLocation :=
  (f.lineOf entry).map (⟨f.file, ·⟩)

end Function

end LoopAnalysis
