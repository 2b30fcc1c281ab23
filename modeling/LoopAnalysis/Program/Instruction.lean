/-!
# Instructions

The program text that the analyses look at: values in single-assignment form, operands, and the
instructions of a basic block.
-/

namespace LoopAnalysis

/-! ## §1 Identifiers and operands -/

/-- A value of the program. -/
structure ValueId where
  index : Nat
deriving DecidableEq, Repr, Inhabited

/-- A basic block of the program. -/
structure BlockId where
  index : Nat
deriving DecidableEq, Repr, Inhabited

/-- A value without a name is shown by its number. -/
def ValueId.text (v : ValueId) : String := "%" ++ toString v.index

/-- A block is shown by its number. -/
def BlockId.text (b : BlockId) : String := "bb" ++ toString b.index

/-- What an instruction works on. Two operands are compared as the program would compare them, so
a fractional constant that is not a number differs from itself. -/
inductive Operand where
  | value (v : ValueId)
  | int (c : Int64)
  | float (x : Float)
  | symbol (name : String)
deriving BEq, Repr, Inhabited

namespace Operand

/-- The value that a `value` operand refers to. -/
def value? : Operand → Option ValueId
  | .value v => some v
  | _ => none

/-- The constant that an `int` operand is. -/
def int? : Operand → Option Int64
  | .int c => some c
  | _ => none

/-- A number written in the program, by `int` or `float`. -/
def isConstant : Operand → Bool
  | .int _ => true
  | .float _ => true
  | _ => false

/-- Whether `value?` of an operand is a given value. -/
def isValue (op : Operand) (v : ValueId) : Bool := op.value? == some v

end Operand

/-! ## §2 Operators -/

/-- Operators on two operands; those with `f` work on fractional numbers. -/
inductive BinaryOp where
  | add | fadd | sub | fsub | mul | fmul | div | fdiv | rem | shl | and | or | xor
deriving DecidableEq, Repr

namespace BinaryOp

/-- All operators. -/
def all : List BinaryOp :=
  [.add, .fadd, .sub, .fsub, .mul, .fmul, .div, .fdiv, .rem, .shl, .and, .or, .xor]

/-- Addition of either kind, `add` or `fadd`. -/
def isAdd (op : BinaryOp) : Bool := op == .add || op == .fadd

/-- Subtraction of either kind, `sub` or `fsub`. -/
def isSub (op : BinaryOp) : Bool := op == .sub || op == .fsub

/-- Multiplication of either kind, `mul` or `fmul`. -/
def isMul (op : BinaryOp) : Bool := op == .mul || op == .fmul

/-- An operator on single bits: `and`, `or` or `xor`. -/
def isBitwise (op : BinaryOp) : Bool := op == .and || op == .or || op == .xor

/-- Any operator for which `isBitwise` fails. -/
def isArithmetic (op : BinaryOp) : Bool := !op.isBitwise

/-- The name of the operator in program text. -/
def mnemonic : BinaryOp → String
  | .add => "add" | .fadd => "fadd" | .sub => "sub" | .fsub => "fsub" | .mul => "mul"
  | .fmul => "fmul" | .div => "div" | .fdiv => "fdiv" | .rem => "rem" | .shl => "shl"
  | .and => "and" | .or => "or" | .xor => "xor"

/-- The sign of the operator in a rendered expression. -/
def sign : BinaryOp → String
  | .add | .fadd => "+"
  | .sub | .fsub => "-"
  | .mul | .fmul => "*"
  | .div | .fdiv => "/"
  | .rem => "%"
  | .shl => "<<"
  | .and => "&"
  | .or => "|"
  | .xor => "^"

end BinaryOp

/-- Comparisons. -/
inductive Predicate where
  | eq | ne | lt | le | gt | ge
deriving DecidableEq, Repr

namespace Predicate

/-- All comparisons. -/
def all : List Predicate := [.eq, .ne, .lt, .le, .gt, .ge]

/-- The left side is the larger one: `gt` or `ge`. -/
def isGreater (p : Predicate) : Bool := p == .gt || p == .ge

/-- The left side is the smaller one: `lt` or `le`. -/
def isLess (p : Predicate) : Bool := p == .lt || p == .le

end Predicate

/-! ## §3 Instructions and blocks -/

/-- An instruction of a basic block. -/
inductive Instruction where
  /-- A value that depends on the block control came from. -/
  | phi (result : ValueId) (incoming : List (Operand × BlockId))
  | binary (result : ValueId) (op : BinaryOp) (lhs rhs : Operand)
  | compare (result : ValueId) (predicate : Predicate) (lhs rhs : Operand)
  | select (result : ValueId) (condition onTrue onFalse : Operand)
  | cast (result : ValueId) (operand : Operand)
  /-- The address of an element of an array. -/
  | elementPtr (result : ValueId) (base : Operand) (indices : List Operand)
  | load (result : ValueId) (address : Operand)
  | store (address value : Operand)
  | call (result : Option ValueId) (callee : Option String) (args : List Operand) (isPure : Bool)
  | branch (condition : Operand) (thenBlock elseBlock : BlockId)
  | jump (target : BlockId)
  | ret (value : Option Operand)
deriving BEq, Repr, Inhabited

namespace Instruction

/-- The value an instruction defines. -/
def result : Instruction → Option ValueId
  | phi r _ | binary r _ _ _ | compare r _ _ _ | select r _ _ _ | cast r _ | elementPtr r _ _
  | load r _ => some r
  | call r _ _ _ => r
  | store _ _ | branch _ _ _ | jump _ | ret _ => none

/-- The operands in the order in which they are written. -/
def operands : Instruction → List Operand
  | phi _ incoming => incoming.map (·.1)
  | binary _ _ lhs rhs => [lhs, rhs]
  | compare _ _ lhs rhs => [lhs, rhs]
  | select _ condition onTrue onFalse => [condition, onTrue, onFalse]
  | cast _ operand => [operand]
  | elementPtr _ base indices => base :: indices
  | load _ address => [address]
  | store address value => [address, value]
  | call _ _ args _ => args
  | branch condition _ _ => [condition]
  | jump _ => []
  | ret value => value.toList

/-- Whether a value is among the `operands`. -/
def uses (i : Instruction) (v : ValueId) : Bool := i.operands.any (·.isValue v)

/-- A `load` or a `store`. -/
def isMemoryAccess : Instruction → Bool
  | load _ _ => true
  | store _ _ => true
  | _ => false

/-- A call. -/
def isCall : Instruction → Bool
  | call _ _ _ _ => true
  | _ => false

/-- A phi. -/
def isPhi : Instruction → Bool
  | phi _ _ => true
  | _ => false

/-- A store. -/
def isStore : Instruction → Bool
  | store _ _ => true
  | _ => false

/-- An instruction that ends a block: `branch`, `jump` or `ret`. -/
def isTerminator : Instruction → Bool
  | branch _ _ _ => true
  | jump _ => true
  | ret _ => true
  | _ => false

/-- A `store`, or a `call` of a function that is not known to be pure. -/
def hasSideEffects : Instruction → Bool
  | store _ _ => true
  | call _ _ _ isPure => !isPure
  | _ => false

/-- The name of the instruction in program text. -/
def mnemonic : Instruction → String
  | phi _ _ => "phi"
  | binary _ op _ _ => op.mnemonic
  | compare _ _ _ _ => "cmp"
  | select _ _ _ _ => "select"
  | cast _ _ => "cast"
  | elementPtr _ _ _ => "elementptr"
  | load _ _ => "load"
  | store _ _ => "store"
  | call _ _ _ _ => "call"
  | branch _ _ _ => "br"
  | jump _ => "jmp"
  | ret _ => "ret"

end Instruction

/-- A basic block with the source line it comes from. -/
structure Block where
  id           : BlockId
  instructions : List Instruction := []
  line         : Option Nat := none
deriving BEq, Repr, Inhabited

/-- The blocks that control may go to from the end of a block, by a last `branch` or `jump`. -/
def Block.successors (b : Block) : List BlockId :=
  match b.instructions.getLast? with
  | some (.branch _ thenBlock elseBlock) => [thenBlock, elseBlock]
  | some (.jump target) => [target]
  | _ => []

/-- A place in the source text. -/
structure SourceLocation where
  file : Option String
  line : Nat
deriving DecidableEq, Repr

end LoopAnalysis
