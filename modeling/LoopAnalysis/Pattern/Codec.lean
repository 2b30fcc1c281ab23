import LoopAnalysis.Pattern.Policy
import LoopAnalysis.Profile.Codec

/-!
# Patterns as documents
-/

namespace LoopAnalysis

open Json

/-- Reads a kind by its `PatternKind.label`. -/
def PatternKind.ofJson? : Json → Option PatternKind :=
  choice? (PatternKind.all.map fun k => (k.label, k))

/-- Writes the label of a kind. -/
def PatternKind.toJson (k : PatternKind) : Json := .str k.label

/-- Reads a reduction. -/
def ReductionInfo.ofJson? (j : Json) : Option ReductionInfo := do
  let r ← record? ["variable", "operator"] j
  return ⟨← r.required "variable" text?, ← r.required "operator" (choice? ReductionOperator.names)⟩

/-- Writes a reduction. -/
def ReductionInfo.toJson (r : ReductionInfo) : Json :=
  .obj [("variable", .str r.variableName), ("operator", .str r.operator.name)]

/-- Reads a stencil shape. -/
def StencilShape.ofJson? (j : Json) : Option StencilShape := do
  let r ← record? ["array", "points", "radius", "dimensions"] j
  return { array := ← r.required "array" text?
           points := ← r.required "points" (nat? 64)
           radius := ← r.required "radius" (nat? 64)
           dimensions := ← r.required "dimensions" (nat? 64) }

/-- Writes a stencil shape. -/
def StencilShape.toJson (s : StencilShape) : Json :=
  .obj [("array", .str s.array), ("points", ofNat s.points), ("radius", ofNat s.radius),
    ("dimensions", ofNat s.dimensions)]

/-- Reads evidence. -/
def PatternEvidence.ofJson? (j : Json) : Option PatternEvidence := do
  let r ← record? ["summary", "facts", "reduction", "collapse", "stencil"] j
  return { summary := ← r.required "summary" text?
           facts := ← r.defaulted "facts" (list? text?) []
           reduction := ← r.defaulted "reduction" (option? ReductionInfo.ofJson?) none
           collapse := ← r.defaulted "collapse" (option? (nat? 64)) none
           stencil := ← r.defaulted "stencil" (option? StencilShape.ofJson?) none }

/-- Writes evidence as `PatternEvidence.ofJson?` reads it; parts that are absent or empty are left
out. -/
def PatternEvidence.toJson (e : PatternEvidence) : Json :=
  .obj ([("summary", .str e.summary)] ++
    (if e.facts.isEmpty then [] else [("facts", ofTexts e.facts)]) ++
    entryOf "reduction" ReductionInfo.toJson e.reduction ++
    entryOf "collapse" ofNat e.collapse ++
    entryOf "stencil" StencilShape.toJson e.stencil)

/-- Reads a classification. -/
def PatternClassification.ofJson? (j : Json) : Option PatternClassification := do
  let r ← record? ["kind", "evidence"] j
  return ⟨← r.required "kind" PatternKind.ofJson?, ← r.required "evidence" PatternEvidence.ofJson?⟩

/-- Writes a classification. -/
def PatternClassification.toJson (c : PatternClassification) : Json :=
  .obj [("kind", c.kind.toJson), ("evidence", c.evidence.toJson)]

/-- Reads a policy; parts that are left out are those of the `standard` policy. -/
def PatternPolicy.ofJson? (j : Json) : Option PatternPolicy := do
  let r ← record? ["version", "order"] j
  return ⟨← r.defaulted "version" (nat? 32) standard.version,
    ← r.defaulted "order" (list? PatternKind.ofJson?) standard.order⟩

/-- Writes a policy. -/
def PatternPolicy.toJson (p : PatternPolicy) : Json :=
  .obj [("version", ofNat p.version), ("order", .arr (p.order.map PatternKind.toJson))]

end LoopAnalysis
