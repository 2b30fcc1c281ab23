import LoopAnalysis.Inspect.Query
import LoopAnalysis.Pattern.Codec
import LoopAnalysis.Profile.Context

/-!
# Everything about a loop

One document with all that the analyses find out about a loop: its place, accesses, accumulators,
profiles, and the answer of every recognizer.
-/

namespace LoopAnalysis

open Json

/-- Writes the failure of a `Recognizer`. -/
def MissingStructure.toJson (m : MissingStructure) : Json :=
  .obj [("error", .str "StructuralIncomplete"),
    ("message", .str ("structural prerequisite missing: " ++ m.text))]

/-- Writes an `Accumulator`. -/
def Accumulator.toJson (a : Accumulator) : Json :=
  .obj [("variable", .str a.variableName), ("operator", .str a.operator.name),
    ("addend", a.addend.toJson), ("update", a.update.toJson), ("sole_use", .bool a.soleUse),
    ("storage", .str (match a.storage with | .register => "register" | .memory => "memory"))]

/-- Writes a `CarriedScalar`. -/
def CarriedScalar.toJson (s : CarriedScalar) : Json :=
  .obj [("phi", s.phi.toJson), ("name", .str s.name), ("update", ofOption Operand.toJson s.update),
    ("accumulator", ofOption Accumulator.toJson s.accumulator)]

/-- Writes an `AccessSite`, whose pattern depends on the bases that are `written`. -/
def AccessSite.toJson (written : List String) (s : AccessSite) : Json :=
  .obj [("write", .bool s.isWrite), ("order", ofNat s.order), ("base", .str s.base),
    ("base_invariant", .bool s.baseInvariant), ("indices", .arr (s.indices.map Operand.toJson)),
    ("terms", .arr (s.terms.map IndexTerm.toJson)), ("rendered", .str s.rendered),
    ("value", ofOption Operand.toJson s.value), ("result", ofOption ValueId.toJson s.result),
    ("uniform", .bool s.isUniform), ("pattern", .str (s.pattern written).text)]

/-- Writes a `NestPosition` with all that is computed from it. -/
def NestPosition.inspect (p : NestPosition) : Json :=
  .obj [("info", p.toJson), ("nest_ivs", .arr (p.nestIvs.map (ofOption ValueId.toJson))),
    ("innermost", .bool p.isInnermost), ("chain", ofNat p.perfectChainLength),
    ("two_level", .bool p.isTwoLevelNest), ("nested", .bool p.isNested)]

/-- Writes what `Recognizer.recognize` answers. -/
def recognitionToJson : Recognition → Json
  | .ok found => ofOption PatternEvidence.toJson found
  | .error missing => missing.toJson

/-- Everything about the loop at a position, computed from its `Scene`. -/
def Loop.inspect (position : Nat) (lp : Loop) : Json :=
  let scene := Scene.of lp
  let written := writtenBases scene.sites
  .obj [("loop", ofNat position), ("header", lp.header.toJson), ("nesting", scene.nesting.inspect),
    ("sites", .arr (scene.sites.map (AccessSite.toJson written))),
    ("scalars", .arr (lp.carriedScalars.map CarriedScalar.toJson)),
    ("memory_accumulators", .arr ((lp.memoryAccumulators scene.sites).map fun (order, acc) =>
      .arr [ofNat order, acc.toJson])),
    ("sub_ivs", .arr (lp.nestedIvs.map ValueId.toJson)),
    ("context", .str (LoopContext.describe lp)),
    ("memory", scene.memory.toJson), ("dependency", scene.dependence.toJson),
    ("accumulator", ofOption CarriedDependence.toJson scene.dependence.accumulator?),
    ("vectorization", scene.vectorization.toJson),
    ("stencil", ofOption StencilShape.toJson scene.stencilShape?),
    ("distinct_bases", ofNat scene.distinctBases),
    ("latch_increment", ofOption ValueId.toJson scene.latchIncrement?),
    ("battery", .obj (Recognizer.standard.map fun r =>
      (r.kind.label, recognitionToJson (r.recognize scene)))),
    ("kind", ((Matcher.ofPolicy .standard).classify scene).kind.toJson)]

end LoopAnalysis
