import LoopAnalysis.Pattern.Recognizer

/-!
# Policies

The order in which recognizers are tried. The first that finds evidence gives the loop its label;
a recognizer that lacks a structure counts as one that finds nothing.
-/

namespace LoopAnalysis

/-- The order in which patterns are tried, under a version number. -/
structure PatternPolicy where
  version : Nat
  order   : List PatternKind
deriving DecidableEq, Repr

namespace PatternPolicy

/-- The most specific patterns first. -/
def standardOrder : List PatternKind :=
  [.matrixMultiply, .convolution2D, .imageProcessing, .stencil, .matrixAddition, .matrixScaling,
   .frobeniusNorm, .complexReduction, .prefixSum, .reduction, .filter, .embarrassinglyParallel,
   .vectorizable, .map, .simpleParallel]

/-- The policy in use when none is given, with the `standardOrder`. -/
def standard : PatternPolicy := ⟨1, standardOrder⟩

/-- The first kind that occurs a second time. -/
def firstRepeated : List PatternKind → List PatternKind → Option PatternKind
  | _, [] => none
  | seen, k :: ks => if seen.contains k then some k else firstRepeated (k :: seen) ks

/-- The kind that a policy lists twice by `firstRepeated`, which makes it invalid. -/
def repeated? (p : PatternPolicy) : Option PatternKind := firstRepeated [] p.order

end PatternPolicy

/-- The recognizers at hand, at most one for each kind. -/
structure RecognizerSet where
  recognizers : List Recognizer

namespace RecognizerSet

/-- All recognizers, those of `Recognizer.standard`. -/
def standard : RecognizerSet := ⟨Recognizer.standard⟩

/-- The recognizers of `Recognizer.standard` with one of the given kinds. -/
def ofKinds (kinds : List PatternKind) : RecognizerSet :=
  ⟨Recognizer.standard.filter fun r => kinds.contains r.kind⟩

/-- The recognizer of a kind. -/
def get? (set : RecognizerSet) (kind : PatternKind) : Option Recognizer :=
  set.recognizers.find? (·.kind == kind)

/-- The kinds at hand. -/
def kinds (set : RecognizerSet) : List PatternKind := set.recognizers.map (·.kind)

end RecognizerSet

/-- Recognizers in the order of a `PatternPolicy`. -/
structure Matcher where
  policy      : PatternPolicy
  recognizers : List Recognizer

namespace Matcher

/-- The recognizers of a set in the order of a policy; kinds without one are passed over, and so is
`unknown`. -/
def ofSet (policy : PatternPolicy) (set : RecognizerSet) : Matcher :=
  ⟨policy, (policy.order.filter (· != .unknown)).filterMap set.get?⟩

/-- All recognizers in the order of a policy, by `ofSet`. -/
def ofPolicy (policy : PatternPolicy) : Matcher := ofSet policy .standard

/-- The kinds in the order in which they are tried. -/
def order (m : Matcher) : List PatternKind := m.recognizers.map (·.kind)

/-- The evidence that a recognizer finds; one that throws a `MissingStructure` finds none. -/
def evidence? (s : Scene) (r : Recognizer) : Option PatternEvidence :=
  match r.recognize s with
  | .ok found => found
  | .error _ => none

/-- The label of a loop: that of the first recognizer with `evidence?`. -/
def classify (m : Matcher) (s : Scene) : PatternClassification :=
  (m.recognizers.findSome? fun r => (evidence? s r).map (⟨r.kind, ·⟩)).getD
    (.unknown "No recognizer matched this loop")

end Matcher

end LoopAnalysis
