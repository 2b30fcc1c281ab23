import LoopAnalysis.Program.Instruction

/-!
# Loops

A loop as the analyses see it, on its own and within its nest. `LoopBody` is what one loop offers:
its blocks, what it defines, and how values are defined and named around it. `Loop` adds the
loops around it and the loops inside it. Nothing here depends on how a loop was found, so a
statement about every `Loop` is a statement about every program that can offer one.
-/

namespace LoopAnalysis

/-! ## §1 One loop -/

/-- A single loop, as far as the analyses can ask about it. -/
structure LoopBody where
  header            : BlockId
  blocks            : List Block
  inductionVariable : Option ValueId
  /-- The instruction that defines a value, inside or outside the loop. -/
  definition        : ValueId → Option Instruction
  functionName      : String
  location          : Option SourceLocation := none
  valueName         : ValueId → Option String := fun _ => none
  containsBlock     : BlockId → Bool := fun b => blocks.any (·.id == b)
  /-- Whether a value is defined inside the loop. -/
  defines           : ValueId → Bool := fun v =>
    blocks.any (·.instructions.any (·.result == some v))

namespace LoopBody

/-- The instructions of the loop in body order, block by block of `blocks`. -/
def instructions (lp : LoopBody) : List Instruction := lp.blocks.flatMap (·.instructions)

/-- An operand that has one value during a run of the loop: anything but a value that the loop
`defines`. -/
def isInvariant (lp : LoopBody) : Operand → Bool
  | .value v => !lp.defines v
  | _ => true

/-- The `instructions` of the loop that use a value. -/
def usersOf (lp : LoopBody) (v : ValueId) : List Instruction := lp.instructions.filter (·.uses v)

/-- The `definition` of the value that an operand refers to. -/
def definitionOf (lp : LoopBody) (op : Operand) : Option Instruction := op.value?.bind lp.definition

/-- The operand that a header phi receives along the first edge from a block that `containsBlock`
accepts. -/
def backEdge (lp : LoopBody) (incoming : List (Operand × BlockId)) : Option Operand :=
  (incoming.find? fun (_, b) => lp.containsBlock b).map (·.1)

end LoopBody

/-! ## §2 A loop in its nest -/

/-- What a loop knows of a loop around it. -/
structure EnclosingLoop where
  header            : BlockId
  inductionVariable : Option ValueId
  /-- How many loops stand directly in it. -/
  subLoopCount      : Nat
deriving Repr

/-- A loop with the loops around it in `enclosing`, from the inside out, and those directly inside
it in `subLoops`. -/
structure Loop extends LoopBody where
  enclosing : List EnclosingLoop
  subLoops  : List Loop

namespace Loop

/-- One more than the number of loops in `enclosing`, so one for an outermost loop. -/
def depth (lp : Loop) : Nat := lp.enclosing.length + 1

mutual

/-- The induction variables of every loop inside a loop, by `nestedIvsAll` of its `subLoops`; a loop
stands before those it contains. -/
def nestedIvs : Loop → List ValueId
  | ⟨_, _, subs⟩ => nestedIvsAll subs

/-- The induction variables of loops and, by `nestedIvs`, of every loop inside them. -/
def nestedIvsAll : List Loop → List ValueId
  | [] => []
  | lp :: rest => lp.inductionVariable.toList ++ nestedIvs lp ++ nestedIvsAll rest

end

/-- How many levels below a loop form a chain in which each loop contains exactly one. -/
def perfectBelow : Loop → Nat
  | ⟨_, _, [sub]⟩ => perfectBelow sub + 1
  | _ => 0

/-- The innermost loop of the chain that `perfectBelow` counts, if the chain ends in a loop that
contains none. -/
def perfectLeaf : Loop → Option Loop
  | ⟨body, enclosing, []⟩ => some ⟨body, enclosing, []⟩
  | ⟨_, _, [sub]⟩ => perfectLeaf sub
  | _ => none

end Loop

end LoopAnalysis
