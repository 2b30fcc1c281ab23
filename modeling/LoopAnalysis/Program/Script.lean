import LoopAnalysis.Program.Builder

/-!
# Building scripts

A building script is a list of builder calls. Calls on a loop name it by its ordinal among the
loops the script has opened so far.
-/

namespace LoopAnalysis

/-- One call of the `Builder`. -/
inductive BuildStep where
  | file (name : String)
  | block
  | moveTo (block : BlockId)
  | line (line : Nat)
  | fresh (name : String)
  | nameValue (v : ValueId) (name : String)
  | phi (v : ValueId) (incoming : List (Operand × BlockId))
  | binary (op : BinaryOp) (lhs rhs : Operand)
  | binaryInto (v : ValueId) (op : BinaryOp) (lhs rhs : Operand)
  | compare (p : Predicate) (lhs rhs : Operand)
  | select (condition onTrue onFalse : Operand)
  | cast (operand : Operand)
  | elementPtr (base : Operand) (indices : List Operand)
  | load (address : Operand)
  | loadElement (base : Operand) (indices : List Operand)
  | store (address value : Operand)
  | storeElement (base : Operand) (indices : List Operand) (value : Operand)
  | call (callee : String) (args : List Operand) (isPure : Bool)
  | branch (condition : Operand) (thenBlock elseBlock : BlockId)
  | jump (target : BlockId)
  | ret (value : Option Operand)
  | openLoop (ivName : String) (bound : Operand)
  | carry (ordinal : Nat) (name : String) (init : Operand)
  | update (ordinal : Nat) (carried : ValueId) (op : Operand)
  | loopLine (ordinal : Nat) (line : Nat)
  | close (ordinal : Nat)
deriving Repr

/-- What a builder call hands back. -/
inductive StepResult where
  | nothing
  | block (id : BlockId)
  | value (v : ValueId)
  | loop (lp : CountedLoop)
deriving Repr

/-- A `Builder` with the counted loops opened so far. -/
structure BuildState where
  builder : Builder
  opened  : List CountedLoop := []

namespace BuildStep

/-- A call that hands back `nothing`. -/
def quiet (s : BuildState) (b : Builder) : StepResult × BuildState :=
  (.nothing, { s with builder := b })

/-- A call that hands back a `value`. -/
def giving (s : BuildState) (r : ValueId × Builder) : StepResult × BuildState :=
  (.value r.1, { s with builder := r.2 })

/-- Performs one call; `none` when it names a loop that is not among those `opened`. -/
def run (s : BuildState) : BuildStep → Option (StepResult × BuildState)
  | file name => some (quiet s (s.builder.setFile name))
  | block =>
    let (id, b) := s.builder.createBlock
    some (.block id, { s with builder := b })
  | moveTo id => some (quiet s (s.builder.moveTo id))
  | line n => some (quiet s (s.builder.setLine n))
  | fresh name => some (giving s (s.builder.fresh name))
  | nameValue v name => some (quiet s (s.builder.nameValue v name))
  | phi v incoming => some (quiet s (s.builder.push (.phi v incoming)))
  | binary op lhs rhs => some (giving s (s.builder.define (.binary · op lhs rhs)))
  | binaryInto v op lhs rhs => some (quiet s (s.builder.push (.binary v op lhs rhs)))
  | compare p lhs rhs => some (giving s (s.builder.define (.compare · p lhs rhs)))
  | select c onTrue onFalse => some (giving s (s.builder.define (.select · c onTrue onFalse)))
  | cast op => some (giving s (s.builder.define (.cast · op)))
  | elementPtr base indices => some (giving s (s.builder.define (.elementPtr · base indices)))
  | load address => some (giving s (s.builder.define (.load · address)))
  | loadElement base indices => some (giving s (s.builder.loadElement base indices))
  | store address v => some (quiet s (s.builder.push (.store address v)))
  | storeElement base indices v => some (quiet s (s.builder.storeElement base indices v))
  | call callee args isPure =>
    some (giving s (s.builder.define fun v => .call (some v) (some callee) args isPure))
  | branch c thenBlock elseBlock => some (quiet s (s.builder.push (.branch c thenBlock elseBlock)))
  | jump target => some (quiet s (s.builder.push (.jump target)))
  | ret v => some (quiet s (s.builder.push (.ret v)))
  | openLoop ivName bound =>
    let (lp, b) := s.builder.openLoop ivName bound
    some (.loop lp, { builder := b, opened := s.opened ++ [lp] })
  | carry ordinal name init =>
    s.opened[ordinal]?.map fun lp => giving s (s.builder.carry lp name init)
  | update ordinal v op =>
    s.opened[ordinal]?.map fun lp => quiet s (s.builder.updateCarried lp v op)
  | loopLine ordinal n => s.opened[ordinal]?.map fun lp => quiet s (s.builder.setLoopLine lp n)
  | close ordinal => s.opened[ordinal]?.map fun lp => quiet s (s.builder.closeLoop lp)

/-- Performs calls in order with `run` and notes, after each, what it handed back and where the next
instruction would go. -/
def runAll : BuildState → List BuildStep → Option (List (StepResult × BlockId) × BuildState)
  | s, [] => some ([], s)
  | s, step :: steps => do
    let (r, s) ← step.run s
    let (rest, final) ← runAll s steps
    return ((r, s.builder.current) :: rest, final)

end BuildStep

end LoopAnalysis
