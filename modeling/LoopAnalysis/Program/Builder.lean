import LoopAnalysis.Program.Function

/-!
# Building functions

Functions grow block by block. `Builder.openLoop` and `Builder.closeLoop` lay out the blocks of
`for (iv = 0; iv < bound; ++iv)` and keep the loop forest consistent. Every step is a total
function on the builder's state; a step on a block that does not exist leaves the blocks alone.
-/

namespace LoopAnalysis

/-- The blocks and values of a counted loop. -/
structure CountedLoop where
  index     : Nat
  preheader : BlockId
  header    : BlockId
  body      : BlockId
  latch     : BlockId
  exit      : BlockId
  iv        : ValueId
deriving Repr, Inhabited

/-- A `Function` under construction. -/
structure Builder where
  name      : String
  file      : Option String
  blocks    : List Block
  loops     : List LoopEntry
  /-- The loops that are still open, innermost first. -/
  openLoops : List Nat
  names     : List (ValueId × String)
  nextValue : Nat
  nextBlock : Nat
  current   : BlockId

namespace Builder

/-! ## §1 Blocks, lines and names -/

/-- A function with an empty entry block, where the first instructions go. -/
def start (name : String) : Builder :=
  { name, file := none, blocks := [{ id := ⟨0⟩ }], loops := [], openLoops := [], names := []
    nextValue := 0, nextBlock := 1, current := ⟨0⟩ }

/-- Records the source file. -/
def setFile (b : Builder) (file : String) : Builder := { b with file := some file }

/-- Adds an empty block. -/
def createBlock (b : Builder) : BlockId × Builder :=
  let id : BlockId := ⟨b.nextBlock⟩
  (id, { b with blocks := b.blocks ++ [{ id }], nextBlock := b.nextBlock + 1 })

/-- Chooses the block that further instructions go to, the `current` one. -/
def moveTo (b : Builder) (block : BlockId) : Builder := { b with current := block }

/-- Changes the block with a number, if `blocks` has one. -/
def modifyBlock (b : Builder) (id : BlockId) (change : Block → Block) : Builder :=
  { b with blocks := b.blocks.map fun block => if block.id = id then change block else block }

/-- Records the source line of the `current` block. -/
def setLine (b : Builder) (line : Nat) : Builder :=
  b.modifyBlock b.current fun block => { block with line := some line }

/-- Names a value; of two names for one, `Function.valueName?` takes the later. -/
def nameValue (b : Builder) (v : ValueId) (name : String) : Builder :=
  { b with names := b.names ++ [(v, name)] }

/-- Reserves the next value; an empty name leaves it unnamed, any other goes to `nameValue`. -/
def fresh (b : Builder) (name : String) : ValueId × Builder :=
  let v : ValueId := ⟨b.nextValue⟩
  let b := { b with nextValue := b.nextValue + 1 }
  (v, if name.isEmpty then b else b.nameValue v name)

/-! ## §2 Instructions -/

/-- Adds an instruction at the end of the `current` block. -/
def push (b : Builder) (i : Instruction) : Builder :=
  b.modifyBlock b.current fun block => { block with instructions := block.instructions ++ [i] }

/-- Adds an instruction that defines a `fresh` value without a name. -/
def define (b : Builder) (make : ValueId → Instruction) : ValueId × Builder :=
  let (v, b) := b.fresh ""
  (v, b.push (make v))

/-- Whether a block exists and its last instruction satisfies `isTerminator`. -/
def isTerminated (b : Builder) (id : BlockId) : Bool :=
  ((b.blocks.find? (·.id == id)).bind (·.instructions.getLast?)).any (·.isTerminator)

/-- Loads an element of an array, by an `elementPtr` and a `load` of it. -/
def loadElement (b : Builder) (base : Operand) (indices : List Operand) : ValueId × Builder :=
  let (address, b) := b.define (.elementPtr · base indices)
  b.define (.load · (.value address))

/-- Stores into an element of an array, by an `elementPtr` and a `store` to it. -/
def storeElement (b : Builder) (base : Operand) (indices : List Operand) (v : Operand) : Builder :=
  let (address, b) := b.define (.elementPtr · base indices)
  b.push (.store (.value address) v)

/-! ## §3 Loops -/

/-- Changes the entry at a position of `loops`. -/
def modifyLoop (b : Builder) (index : Nat) (change : LoopEntry → LoopEntry) : Builder :=
  { b with loops := b.loops.modify index change }

/-- Records a loop inside the innermost of `openLoops` and opens it. -/
def enterLoop (b : Builder) (header body latch : BlockId) (iv : ValueId) : Builder :=
  let parent := b.openLoops.head?
  let index := b.loops.length
  let entry : LoopEntry :=
    { header, blocks := [header, body, latch], inductionVariable := some iv, parent
      children := [], line := none }
  let b := { b with loops := b.loops ++ [entry], openLoops := index :: b.openLoops }
  match parent with
  | some p => b.modifyLoop p fun e => { e with children := e.children ++ [index] }
  | none => b

/-- Opens `for (iv = 0; iv < bound; ++iv)` inside the innermost open loop, by `enterLoop`, and moves
to its body. -/
def openLoop (b : Builder) (ivName : String) (bound : Operand) : CountedLoop × Builder :=
  let preheader := b.current
  let index := b.loops.length
  let (header, b) := b.createBlock
  let (body, b) := b.createBlock
  let (latch, b) := b.createBlock
  let (exit, b) := b.createBlock
  let (iv, b) := b.fresh ivName
  let (next, b) := b.fresh (ivName ++ ".next")
  let b := b.push (.jump header)
  let b := (b.moveTo header).push (.phi iv [(.int 0, preheader), (.value next, latch)])
  let (inRange, b) := b.define (.compare · .lt (.value iv) bound)
  let b := b.push (.branch (.value inRange) body exit)
  let b := (b.moveTo latch).push (.binary next .add (.value iv) (.int 1))
  let b := b.push (.jump header)
  let b := b.enterLoop header body latch iv
  ({ index, preheader, header, body, latch, exit, iv }, b.moveTo body)

/-- Adds a value that a loop carries from one iteration to the next, starting at `init`: a phi
behind those that its header has. -/
def carry (b : Builder) (lp : CountedLoop) (name : String) (init : Operand) : ValueId × Builder :=
  let (v, b) := b.fresh name
  let phi : Instruction := .phi v [(init, lp.preheader)]
  (v, b.modifyBlock lp.header fun block =>
    { block with
      instructions := block.instructions.takeWhile (·.isPhi) ++ phi ::
        block.instructions.dropWhile (·.isPhi) })

/-- Adds an edge from a latch to the phi of one value. -/
def addIncoming (carried : ValueId) (op : Operand) (latch : BlockId) : Instruction → Instruction
  | .phi r incoming => .phi r (if r = carried then incoming ++ [(op, latch)] else incoming)
  | i => i

/-- Sets the operand that a carried value takes in the next iteration, by `addIncoming` from the
latch. -/
def updateCarried (b : Builder) (lp : CountedLoop) (carried : ValueId) (op : Operand) : Builder :=
  b.modifyBlock lp.header fun block =>
    { block with instructions := block.instructions.map (addIncoming carried op lp.latch) }

/-- Records the source line of a loop. -/
def setLoopLine (b : Builder) (lp : CountedLoop) (line : Nat) : Builder :=
  b.modifyLoop lp.index fun e => { e with line := some line }

/-- The loops that stay open when a loop is closed: those opened before it. -/
def stillOpen (index : Nat) (openLoops : List Nat) : List Nat :=
  match openLoops.dropWhile (· != index) with
  | [] => openLoops
  | _ :: outer => outer

/-- Ends the `current` block at the latch, makes every block created since the loop was opened part
of it, and goes on at the exit. -/
def closeLoop (b : Builder) (lp : CountedLoop) : Builder :=
  let b := if b.isTerminated b.current then b else b.push (.jump lp.latch)
  let inner := (List.range' (lp.exit.index + 1) (b.nextBlock - (lp.exit.index + 1))).map BlockId.mk
  let b := b.modifyLoop lp.index fun e =>
    { e with blocks := [lp.header, lp.body] ++ inner ++ [lp.latch] }
  { b with openLoops := stillOpen lp.index b.openLoops, current := lp.exit }

/-- The finished function, its blocks put in order by `Function.ofBlocks`. -/
def build (b : Builder) : Function := Function.ofBlocks b.name b.file b.blocks b.loops b.names

end Builder

end LoopAnalysis
