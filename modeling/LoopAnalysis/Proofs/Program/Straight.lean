import LoopAnalysis.Program.Loop

/-!
# Small loops

The simplest loops: one block that is its own header, with every value defined in it, and variations
of them. They are what a statement about loops is tried on.

## Main definitions

- `Loop.straight`, `Loop.ofBlocks`: the loop of a list of instructions, and of a list of blocks;
- `Loop.hoisting`: a loop with definitions before it.
-/

namespace LoopAnalysis.Loop

/-- The loop that runs `body` with `iv` as its induction variable. It is its own header, `bb1`, and
stands in no other loop. -/
def straight (iv : ValueId) (body : List Instruction) : Loop where
  header := ⟨1⟩
  blocks := [⟨⟨1⟩, body, none⟩]
  inductionVariable := some iv
  definition v := body.find? (·.result == some v)
  functionName := "straight"
  enclosing := []
  subLoops := []

/-- The loop of `blocks`, of which the first, `bb1`, is the header. -/
def ofBlocks (iv : ValueId) (blocks : List Block) : Loop where
  header := ⟨1⟩
  blocks := blocks
  inductionVariable := some iv
  definition v := (blocks.flatMap (·.instructions)).find? (·.result == some v)
  functionName := "blocks"
  enclosing := []
  subLoops := []

/-- The loop `lp`, which now also sees the definitions of the instructions `before` it. -/
def hoisting (before : List Instruction) (lp : Loop) : Loop :=
  { lp with definition := fun v => (before.find? (·.result == some v)).or (lp.definition v) }

variable {iv v : ValueId} {body : List Instruction} {i : Instruction}

@[simp] theorem straight_instructions : (straight iv body).instructions = body := by
  simp [straight, LoopBody.instructions]

/-- A definition is an instruction of the body with that result. -/
theorem mem_of_straight_definition (h : (straight iv body).definition v = some i) :
    i ∈ body ∧ i.result = some v :=
  -- The lookup is a `find?` over the body.
  ⟨List.mem_of_find?_eq_some h, by simpa using List.find?_some h⟩

/-- A `straight` loop defines the results of its instructions and no other values. -/
theorem straight_defines_eq_false_iff :
    (straight iv body).defines v = false ↔ ∀ i ∈ body, i.result ≠ some v := by
  simp [straight]

end LoopAnalysis.Loop
