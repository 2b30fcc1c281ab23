import LoopAnalysis.Program.Function
import LoopAnalysis.Json.Decode

/-!
# Program text as documents

Operands and instructions are written as records that map the name of the form to its contents.
-/

namespace LoopAnalysis

open Json

/-! ## §1 Names -/

/-- The written names of the operators. -/
def BinaryOp.names : List (String × BinaryOp) :=
  [("Add", .add), ("FAdd", .fadd), ("Sub", .sub), ("FSub", .fsub), ("Mul", .mul), ("FMul", .fmul),
   ("Div", .div), ("FDiv", .fdiv), ("Rem", .rem), ("Shl", .shl), ("And", .and), ("Or", .or),
   ("Xor", .xor)]

/-- The written name of an operator, from `BinaryOp.names`. -/
def BinaryOp.name (op : BinaryOp) : String := ((names.find? (·.2 == op)).map (·.1)).getD ""

/-- The written names of the comparisons. -/
def Predicate.names : List (String × Predicate) :=
  [("Eq", .eq), ("Ne", .ne), ("Lt", .lt), ("Le", .le), ("Gt", .gt), ("Ge", .ge)]

/-- The written name of a comparison, from `Predicate.names`. -/
def Predicate.name (p : Predicate) : String := ((names.find? (·.2 == p)).map (·.1)).getD ""

/-! ## §2 Reading -/

/-- Reads the number of a value. -/
def ValueId.ofJson? (j : Json) : Option ValueId := (nat? 32 j).map ValueId.mk

/-- Reads the number of a block. -/
def BlockId.ofJson? (j : Json) : Option BlockId := (nat? 32 j).map BlockId.mk

/-- Reads an operand, tagged `Value`, `Int`, `Float` or `Symbol`. -/
def Operand.ofJson? (j : Json) : Option Operand := do
  match ← tagged? j with
  | ("Value", c) => return .value (← ValueId.ofJson? c)
  | ("Int", c) => return .int (← word? c)
  | ("Float", c) => return .float (← number? c)
  | ("Symbol", c) => return .symbol (← text? c)
  | _ => none

/-- Reads an instruction, whose tag is the name of its form. -/
def Instruction.ofJson? (j : Json) : Option Instruction := do
  match ← tagged? j with
  | ("Phi", c) =>
    let r ← namedRecord? ["result", "incoming"] c
    return .phi (← r.required "result" ValueId.ofJson?)
      (← r.required "incoming" (list? (pair? Operand.ofJson? BlockId.ofJson?)))
  | ("Binary", c) =>
    let r ← namedRecord? ["result", "op", "lhs", "rhs"] c
    return .binary (← r.required "result" ValueId.ofJson?)
      (← r.required "op" (choice? BinaryOp.names))
      (← r.required "lhs" Operand.ofJson?) (← r.required "rhs" Operand.ofJson?)
  | ("Compare", c) =>
    let r ← namedRecord? ["result", "predicate", "lhs", "rhs"] c
    return .compare (← r.required "result" ValueId.ofJson?)
      (← r.required "predicate" (choice? Predicate.names))
      (← r.required "lhs" Operand.ofJson?) (← r.required "rhs" Operand.ofJson?)
  | ("Select", c) =>
    let r ← namedRecord? ["result", "condition", "on_true", "on_false"] c
    return .select (← r.required "result" ValueId.ofJson?)
      (← r.required "condition" Operand.ofJson?)
      (← r.required "on_true" Operand.ofJson?) (← r.required "on_false" Operand.ofJson?)
  | ("Cast", c) =>
    let r ← namedRecord? ["result", "operand"] c
    return .cast (← r.required "result" ValueId.ofJson?) (← r.required "operand" Operand.ofJson?)
  | ("ElementPtr", c) =>
    let r ← namedRecord? ["result", "base", "indices"] c
    return .elementPtr (← r.required "result" ValueId.ofJson?) (← r.required "base" Operand.ofJson?)
      (← r.required "indices" (list? Operand.ofJson?))
  | ("Load", c) =>
    let r ← namedRecord? ["result", "address"] c
    return .load (← r.required "result" ValueId.ofJson?) (← r.required "address" Operand.ofJson?)
  | ("Store", c) =>
    let r ← namedRecord? ["address", "value"] c
    return .store (← r.required "address" Operand.ofJson?) (← r.required "value" Operand.ofJson?)
  | ("Call", c) =>
    let r ← namedRecord? ["result", "callee", "args", "pure_function"] c
    return .call (← r.optional "result" ValueId.ofJson?) (← r.optional "callee" text?)
      (← r.required "args" (list? Operand.ofJson?)) (← r.required "pure_function" flag?)
  | ("Branch", c) =>
    let r ← namedRecord? ["condition", "then_block", "else_block"] c
    return .branch (← r.required "condition" Operand.ofJson?)
      (← r.required "then_block" BlockId.ofJson?) (← r.required "else_block" BlockId.ofJson?)
  | ("Jump", c) =>
    let r ← namedRecord? ["target"] c
    return .jump (← r.required "target" BlockId.ofJson?)
  | ("Return", c) =>
    let r ← namedRecord? ["value"] c
    return .ret (← r.optional "value" Operand.ofJson?)
  | _ => none

/-- Reads a block; it may come without a `line`. -/
def Block.ofJson? (j : Json) : Option Block := do
  let r ← record? ["id", "instructions", "line"] j
  return { id := ← r.required "id" BlockId.ofJson?
           instructions := ← r.required "instructions" (list? Instruction.ofJson?)
           line := ← r.defaulted "line" (option? (nat? 32)) none }

/-- Reads the entry of a loop. -/
def LoopEntry.ofJson? (j : Json) : Option LoopEntry := do
  let r ← record? ["header", "blocks", "iv", "parent", "children", "line"] j
  return { header := ← r.required "header" BlockId.ofJson?
           blocks := ← r.required "blocks" (list? BlockId.ofJson?)
           inductionVariable := ← r.optional "iv" ValueId.ofJson?
           parent := ← r.optional "parent" (nat? 64)
           children := ← r.required "children" (list? (nat? 64))
           line := ← r.optional "line" (nat? 32) }

/-- Reads a function; its blocks may stand in any order, since `Function.ofBlocks` arranges them. -/
def Function.ofJson? (j : Json) : Option Function := do
  let r ← record? ["name", "file", "blocks", "loops", "names"] j
  return Function.ofBlocks (← r.required "name" text?) (← r.optional "file" text?)
    (← r.required "blocks" (list? Block.ofJson?)) (← r.required "loops" (list? LoopEntry.ofJson?))
    (← r.required "names" (list? (pair? ValueId.ofJson? text?)))

/-! ## §3 Writing -/

/-- Writes the number of a value. -/
def ValueId.toJson (v : ValueId) : Json := .int v.index

/-- Writes the number of a block. -/
def BlockId.toJson (b : BlockId) : Json := .int b.index

/-- Writes an operand under the tag by which `Operand.ofJson?` reads it. -/
def Operand.toJson : Operand → Json
  | .value v => .obj [("Value", v.toJson)]
  | .int c => .obj [("Int", ofWord c)]
  | .float x => .obj [("Float", .float x)]
  | .symbol name => .obj [("Symbol", .str name)]

/-- Writes an instruction under the tag by which `Instruction.ofJson?` reads it. -/
def Instruction.toJson : Instruction → Json
  | .phi r incoming =>
    .obj [("Phi", .obj [("result", r.toJson),
      ("incoming", .arr (incoming.map fun (op, b) => .arr [op.toJson, b.toJson]))])]
  | .binary r op lhs rhs =>
    .obj [("Binary", .obj [("result", r.toJson), ("op", .str op.name), ("lhs", lhs.toJson),
      ("rhs", rhs.toJson)])]
  | .compare r p lhs rhs =>
    .obj [("Compare", .obj [("result", r.toJson), ("predicate", .str p.name), ("lhs", lhs.toJson),
      ("rhs", rhs.toJson)])]
  | .select r c onTrue onFalse =>
    .obj [("Select", .obj [("result", r.toJson), ("condition", c.toJson),
      ("on_true", onTrue.toJson), ("on_false", onFalse.toJson)])]
  | .cast r op => .obj [("Cast", .obj [("result", r.toJson), ("operand", op.toJson)])]
  | .elementPtr r base indices =>
    .obj [("ElementPtr", .obj [("result", r.toJson), ("base", base.toJson),
      ("indices", .arr (indices.map Operand.toJson))])]
  | .load r address => .obj [("Load", .obj [("result", r.toJson), ("address", address.toJson)])]
  | .store address v => .obj [("Store", .obj [("address", address.toJson), ("value", v.toJson)])]
  | .call r callee args isPure =>
    .obj [("Call", .obj [("result", ofOption ValueId.toJson r), ("callee", ofOption .str callee),
      ("args", .arr (args.map Operand.toJson)), ("pure_function", .bool isPure)])]
  | .branch c thenBlock elseBlock =>
    .obj [("Branch", .obj [("condition", c.toJson), ("then_block", thenBlock.toJson),
      ("else_block", elseBlock.toJson)])]
  | .jump target => .obj [("Jump", .obj [("target", target.toJson)])]
  | .ret v => .obj [("Return", .obj [("value", ofOption Operand.toJson v)])]

/-- Writes a block. -/
def Block.toJson (b : Block) : Json :=
  .obj [("id", b.id.toJson), ("instructions", .arr (b.instructions.map Instruction.toJson)),
    ("line", ofOption ofNat b.line)]

/-- Writes a place in the source text. -/
def SourceLocation.toJson (l : SourceLocation) : Json :=
  .obj [("file", ofOption .str l.file), ("line", ofNat l.line)]

end LoopAnalysis
