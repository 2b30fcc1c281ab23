import LoopAnalysis.Pattern.Codec
import LoopAnalysis.Json.Parser

/-!
# Signatures

The labels that external classifiers use for patterns. A built-in list can be extended; the last
entry for a name counts.
-/

namespace LoopAnalysis

open Json

/-- A label and the `PatternKind` it stands for. -/
structure Signature where
  name        : String
  pattern     : PatternKind
  description : String := ""
deriving DecidableEq, Repr

namespace Signature

/-- Reads a signature. -/
def ofJson? (j : Json) : Option Signature := do
  let r ← record? ["name", "pattern", "description"] j
  return { name := ← r.required "name" text?
           pattern := ← r.required "pattern" PatternKind.ofJson?
           description := ← r.defaulted "description" text? "" }

/-- Writes a signature. -/
def toJson (s : Signature) : Json :=
  .obj [("name", .str s.name), ("pattern", s.pattern.toJson), ("description", .str s.description)]

end Signature

/-- Why a list of signatures is refused by `Signatures.parse` or `SignatureStore.load`. -/
inductive SignatureError where
  | unparsable
  | emptyName (pattern : PatternKind)
  | unreadableFile (path : String)
deriving DecidableEq, Repr

/-- The refusal in words. -/
def SignatureError.message : SignatureError → String
  | .unparsable => "Failed to parse pattern signatures"
  | .emptyName pattern => "Pattern signature for " ++ pattern.label ++ " has an empty name"
  | .unreadableFile path => "Failed to read signature file: " ++ path

/-- A list of signatures. -/
structure Signatures where
  entries : List Signature
deriving DecidableEq, Repr

namespace Signatures

/-- The labels that are known without further ado. -/
def builtin : Signatures := ⟨[
  ⟨"embarrassingly_parallel_verified", .embarrassinglyParallel, "Independent iterations confirmed"⟩,
  ⟨"vectorizable_simd", .vectorizable, "SIMD-friendly contiguous body"⟩,
  ⟨"reduction_safe", .reduction, "Privatizable accumulator"⟩,
  ⟨"stencil_pattern", .stencil, "Neighbourhood read of one array"⟩,
  ⟨"gather_scatter", .map, "Indirect elementwise access"⟩,
  ⟨"matrix_operation", .matrixMultiply, "Dense linear algebra kernel"⟩,
  ⟨"scan_pattern", .prefixSum, "Running prefix"⟩,
  ⟨"risky_dependencies", .unknown, "Dependencies the classifier could not clear"⟩,
  ⟨"unsafe_parallel", .unknown, "Classifier advises against parallelization"⟩]⟩

/-- Reads a list of signatures; each has to have a `name`. -/
def parse (text : String) : Except SignatureError Signatures :=
  match (Json.parse text).bind (list? Signature.ofJson?) with
  | none => .error .unparsable
  | some entries =>
    match entries.find? fun s => (Text.trim s.name).isEmpty with
    | some s => .error (.emptyName s.pattern)
    | none => .ok ⟨entries⟩

/-- The entries of `s` followed by those of `extra`. -/
def extended (s extra : Signatures) : Signatures := ⟨s.entries ++ extra.entries⟩

/-- How many entries there are. -/
def size (s : Signatures) : Nat := s.entries.length

/-- The pattern that a label stands for: by the last entry of that name, or by
`PatternKind.ofLabel?`. Case and surrounding blanks do not matter. -/
def lookup (s : Signatures) (label : String) : Option PatternKind :=
  let name := Text.lower (Text.trim label)
  match s.entries.reverse.find? fun e => Text.sameLetters e.name name with
  | some e => some e.pattern
  | none => PatternKind.ofLabel? name

end Signatures

/-- The `Signatures` that a whole run shares, set at most once. -/
structure SignatureStore where
  loaded : Option Signatures := none

namespace SignatureStore

/-- Extends the `builtin` list, unless a list is already in use; says whether it did. The content is
`none` when the file at the path cannot be read. -/
def load (store : SignatureStore) (path : String) (content : Option String) :
    Except SignatureError (Bool × SignatureStore) :=
  match store.loaded with
  | some _ => .ok (false, store)
  | none =>
    match content with
    | none => .error (.unreadableFile path)
    | some text => do
      let extra ← Signatures.parse text
      return (true, ⟨some (Signatures.builtin.extended extra)⟩)

/-- The list in use, `builtin` unless another was loaded; from the first use on it stays as it is.
-/
def current (store : SignatureStore) : Signatures × SignatureStore :=
  let s := store.loaded.getD .builtin
  (s, ⟨some s⟩)

end SignatureStore

end LoopAnalysis
