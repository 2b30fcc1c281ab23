import LoopAnalysis.Pattern.Kind
import LoopAnalysis.Access.Recurrence

/-!
# Evidence for a pattern
-/

namespace LoopAnalysis

/-- The variable of a reduction and its operator. -/
structure ReductionInfo where
  variableName : String
  operator     : ReductionOperator
deriving DecidableEq, Repr

/-- The neighbourhood that a stencil reads. -/
structure StencilShape where
  array      : String
  points     : Nat
  radius     : Nat
  /-- How many levels of the nest the neighbours spread over. -/
  dimensions : Nat
deriving DecidableEq, Repr

/-- Why a loop is taken to have a pattern, with what `Suggestion.suggest` needs to know of it. -/
structure PatternEvidence where
  summary   : String
  facts     : List String := []
  reduction : Option ReductionInfo := none
  /-- How many levels a `collapse` clause may cover. -/
  collapse  : Option Nat := none
  stencil   : Option StencilShape := none
deriving DecidableEq, Repr

/-- The `PatternKind` of a loop with the evidence for it. -/
structure PatternClassification where
  kind     : PatternKind
  evidence : PatternEvidence
deriving DecidableEq, Repr

/-- A loop of no known pattern, labelled `PatternKind.unknown`. -/
def PatternClassification.unknown (reason : String) : PatternClassification :=
  ⟨.unknown, { summary := reason }⟩

/-- Why a pattern cannot even be looked for: the structure that a `Recognition` lacks. -/
inductive MissingStructure where
  | inductionVariable
  | tripleNest
  | loopNest
  | twoLevelNest (purpose : String)
deriving DecidableEq, Repr

/-- What is missing, in words. -/
def MissingStructure.text : MissingStructure → String
  | .inductionVariable => "loop has no induction variable"
  | .tripleNest => "matrix multiply needs three perfectly nested loops"
  | .loopNest => "image filters need a loop nest"
  | .twoLevelNest purpose => purpose ++ " needs exactly one nested level"

end LoopAnalysis
