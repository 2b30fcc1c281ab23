import LoopAnalysis.Access.Site
import LoopAnalysis.Json.Decode
import LoopAnalysis.Json.Printer

/-!
# Describing a loop to others

A short record of a loop that is sent along with a question about it.
-/

namespace LoopAnalysis

/-- How many instructions of each sort a loop has. -/
structure InstructionMix where
  loads      : Nat := 0
  stores     : Nat := 0
  arithmetic : Nat := 0
  compares   : Nat := 0
  calls      : Nat := 0
  branches   : Nat := 0
  phis       : Nat := 0
deriving Repr

namespace InstructionMix

/-- Counts one instruction. Casts, addresses, jumps and returns are not counted. -/
def count (mix : InstructionMix) : Instruction → InstructionMix
  | .load _ _ => { mix with loads := mix.loads + 1 }
  | .store _ _ => { mix with stores := mix.stores + 1 }
  | .binary _ _ _ _ => { mix with arithmetic := mix.arithmetic + 1 }
  | .select _ _ _ _ => { mix with arithmetic := mix.arithmetic + 1 }
  | .compare _ _ _ _ => { mix with compares := mix.compares + 1 }
  | .call _ _ _ _ => { mix with calls := mix.calls + 1 }
  | .branch _ _ _ => { mix with branches := mix.branches + 1 }
  | .phi _ _ => { mix with phis := mix.phis + 1 }
  | _ => mix

/-- The mix of a loop. -/
def of (lp : LoopBody) : InstructionMix := lp.instructions.foldl count {}

/-- Writes a mix. -/
def toJson (mix : InstructionMix) : Json :=
  .obj [("loads", .int mix.loads), ("stores", .int mix.stores), ("arithmetic", .int mix.arithmetic),
    ("compares", .int mix.compares), ("calls", .int mix.calls), ("branches", .int mix.branches),
    ("phis", .int mix.phis)]

end InstructionMix

/-- A loop as it is described to others; texts are empty where nothing is known. -/
structure LoopContext where
  function          : String := ""
  file              : String := ""
  line              : Option Nat := none
  depth             : Nat := 0
  subLoops          : Nat := 0
  inductionVariable : String := ""
  instructionMix    : InstructionMix := {}
  arrays            : List String := []
  accesses          : List String := []
  callees           : List String := []
deriving Repr

namespace LoopContext

/-- The names of the functions that a loop calls, as far as its `call` instructions name them. -/
def calleesOf (lp : LoopBody) : List String :=
  lp.instructions.filterMap fun
    | .call _ callee _ _ => callee
    | _ => none

/-- The description of a loop. -/
def of (lp : Loop) : LoopContext :=
  let sites := lp.accesses
  { function := lp.functionName
    file := (lp.location.bind (·.file)).getD ""
    line := lp.location.map (·.line)
    depth := lp.depth
    subLoops := lp.subLoops.length
    inductionVariable := (lp.inductionVariable.bind lp.valueName).getD ""
    instructionMix := .of lp.toLoopBody
    arrays := Text.sortedSet (sites.map (·.base))
    accesses := sites.map (·.rendered)
    callees := Text.sortedSet (calleesOf lp.toLoopBody) }

/-- Writes a description. -/
def toJson (c : LoopContext) : Json :=
  .obj [("function", .str c.function), ("file", .str c.file),
    ("line", Json.ofOption Json.ofNat c.line), ("depth", .int c.depth),
    ("sub_loops", .int c.subLoops), ("induction_variable", .str c.inductionVariable),
    ("instruction_mix", c.instructionMix.toJson),
    ("arrays", Json.ofTexts c.arrays), ("accesses", Json.ofTexts c.accesses),
    ("callees", Json.ofTexts c.callees)]

/-- The description of a loop as `compact` text. -/
def describe (lp : Loop) : String := (of lp).toJson.compact

end LoopContext

end LoopAnalysis
