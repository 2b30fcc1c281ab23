import LoopAnalysis.Pattern.Links
import LoopAnalysis.Program.Codec

/-!
# Questions about a loop

Single questions about a loop of a function, answered as documents. They are put to a loop whose
scene is known; a question that has to follow a broken link beyond that has no answer.
-/

namespace LoopAnalysis

open Json

/-- A question about a `Loop`. -/
inductive LoopQuery where
  | depth
  | invariant (op : Operand)
  | defines (v : ValueId)
  | contains (b : BlockId)
  | users (v : ValueId)
  | definition (v : ValueId)
  | name (v : ValueId)
  | affine (op : Operand) (iv : ValueId)
  | classify (op : Operand)
  | render (op : Operand)
  | flows (op : Operand) (v : ValueId)
  | expression (op : Operand)
  | nestOffset (op : Operand)
  | ownIv (op : Operand)
  | subLoops
  | parent
  | location
  | blocks
  | leaf
  | operand (op : Operand)
  | flags
  | instructions

/-- Writes an `IndexTerm`. -/
def IndexTerm.toJson : IndexTerm → Json
  | .affine c o => .obj [("Affine", .arr [ofWord c, ofWord o])]
  | .invariant text => .obj [("Invariant", .str text)]
  | .swept text => .obj [("Swept", .str text)]
  | .indirect => .str "Indirect"
  | .unresolved => .str "Opaque"

/-- An `Instruction` seen from outside. -/
def Instruction.outline (i : Instruction) : Json :=
  .obj [("mnemonic", .str i.mnemonic), ("result", ofOption ValueId.toJson i.result),
    ("operands", .arr (i.operands.map Operand.toJson)), ("memory", .bool i.isMemoryAccess),
    ("call", .bool i.isCall), ("effects", .bool i.hasSideEffects)]

namespace LoopQuery

/-- The broken link that a question about the loop at a position would have to follow, beyond those
that its scene follows. -/
def brokenLink? (f : Function) (p : Nat) (lp : Loop) : LoopQuery → Option BrokenLink
  | subLoops => f.brokenChild p
  | classify op => if (lp.classifyOwn op).isSome then none else f.brokenBelow p
  | _ => none

/-- The answer to a question about a loop with every link in order. -/
def answer (lp : Loop) : LoopQuery → Json
  | depth => ofNat lp.depth
  | invariant op => .bool (lp.isInvariant op)
  | defines v => .bool (lp.defines v)
  | contains b => .bool (lp.containsBlock b)
  | users v => ofTexts ((lp.usersOf v).map (·.mnemonic))
  | definition v => ofOption Instruction.toJson (lp.definition v)
  | name v => ofOption .str (lp.valueName v)
  | affine op iv =>
    ofOption (fun a => .arr [ofWord a.coefficient, ofWord a.offset]) (lp.affineIn op iv)
  | classify op => (lp.classifyIndex op).toJson
  | render op => .str (lp.render op)
  | flows op v => .bool (lp.flowsFrom op v)
  | expression op =>
    .arr (((lp.expressionValues op).map (·.index)).mergeSort.map ofNat)
  | nestOffset op =>
    ofOption (fun (level, offset) => .arr [ofNat level, ofWord offset])
      ((Scene.of lp).nestOffset? op)
  | ownIv op => .bool ((Scene.of lp).isOwnIv op)
  | subLoops => .arr (lp.subLoops.map (·.header.toJson))
  | parent => ofOption (·.header.toJson) lp.enclosing.head?
  | location => ofOption SourceLocation.toJson lp.location
  | blocks => .arr (lp.blocks.map (·.id.toJson))
  | leaf => ofOption (·.header.toJson) lp.perfectLeaf
  | operand op =>
    .obj [("value", ofOption ValueId.toJson op.value?), ("int", ofOption ofWord op.int?),
      ("constant", .bool op.isConstant)]
  | flags =>
    let scene := Scene.of lp
    .obj [("calls", .bool scene.hasCalls), ("effects", .bool scene.hasSideEffectCalls),
      ("mul_const", .bool scene.multipliesByConstant)]
  | instructions => .arr (lp.instructions.map Instruction.outline)

/-- The answer to a question about the loop at a position of a function. Only a loop seen through
the tables of its function, that is under the `indexed` view, follows broken links. -/
def ask (f : Function) (view : LoopView) (p : Nat) (lp : Loop) (q : LoopQuery) :
    Except BrokenLink Json :=
  match if view = .indexed then q.brokenLink? f p lp else none with
  | some link => .error link
  | none => .ok (q.answer lp)

end LoopQuery

end LoopAnalysis
