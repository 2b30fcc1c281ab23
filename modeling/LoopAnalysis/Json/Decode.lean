import LoopAnalysis.Json.Basic

/-!
# Decoding documents

Readers from documents to typed values. A record may be written by name or, with its fields in
order, as a list; a choice without contents is its name, or a record that maps the name to `null`.
The fields of a choice are always written by name.
-/

namespace LoopAnalysis.Json

/-! ## §1 Scalars, lists and pairs -/

/-- A natural number below `2 ^ bits`. -/
def nat? (bits : Nat) : Json → Option Nat
  | .int i => if 0 ≤ i ∧ i < Nat.pow 2 bits then some i.toNat else none
  | _ => none

/-- A signed 64-bit word. -/
def word? : Json → Option Int64
  | .int i =>
    if -9223372036854775808 ≤ i ∧ i ≤ 9223372036854775807 then some (Int64.ofInt i) else none
  | _ => none

/-- The double nearest to an integer of at most 64 bits. -/
def floatOfInt (i : Int) : Float :=
  if 0 ≤ i then i.toNat.toUInt64.toFloat else -((-i).toNat.toUInt64.toFloat)

/-- A number; an integer counts as one, by `floatOfInt`. -/
def number? : Json → Option Float
  | .int i => some (floatOfInt i)
  | .float x => some x
  | _ => none

/-- The value `null`, or one that `read` accepts. -/
def option? {α : Type} (read : Json → Option α) : Json → Option (Option α)
  | .null => some none
  | j => (read j).map some

/-- A list of values that `read` accepts. -/
def list? {α : Type} (read : Json → Option α) : Json → Option (List α)
  | .arr items => items.mapM read
  | _ => none

/-- A list of exactly two values. -/
def pair? {α β : Type} (first : Json → Option α) (second : Json → Option β) : Json → Option (α × β)
  | .arr [a, b] => do return (← first a, ← second b)
  | _ => none

/-! ## §2 Choices -/

/-- A choice without contents, by its entry in `names`. -/
def choice? {α : Type} (names : List (String × α)) : Json → Option α
  | .str s => (names.find? (·.1 == s)).map (·.2)
  | .obj [(key, .null)] => (names.find? (·.1 == key)).map (·.2)
  | _ => none

/-- A choice with contents: its name and the contents. -/
def tagged? : Json → Option (String × Json)
  | .obj [(key, contents)] => some (key, contents)
  | _ => none

/-! ## §3 Records -/

/-- A field of a record: its name and other names it is known by. -/
structure Field where
  name : String
  aliases : List String := []

instance : Coe String Field := ⟨fun name => ⟨name, []⟩⟩

/-- Whether a field answers to a key. -/
def Field.answersTo (f : Field) (key : String) : Bool := f.name == key || f.aliases.contains key

/-- The fields found in a document; `listed` says that they were given in order and not by name. -/
structure Record where
  values : List (String × Json)
  listed : Bool

/-- The values of the declared fields by name. Keys that no field `answersTo` are passed over, and
two entries for one field are refused. -/
def collect (fields : List Field) : List (String × Json) → List (String × Json) →
    Option (List (String × Json))
  | [], found => some found
  | (key, value) :: rest, found =>
    match fields.find? (·.answersTo key) with
    | none => collect fields rest found
    | some f =>
      if found.any (·.1 == f.name) then none else collect fields rest (found ++ [(f.name, value)])

/-- The fields of a record written by name. -/
def namedRecord? (fields : List Field) : Json → Option Record
  | .obj entries => (collect fields entries []).map (⟨·, false⟩)
  | _ => none

/-- The fields of a record, by name as `namedRecord?` reads them, or in order. -/
def record? (fields : List Field) : Json → Option Record
  | .obj entries => namedRecord? fields (.obj entries)
  | .arr items =>
    if items.length ≤ fields.length then some ⟨(fields.map (·.name)).zip items, true⟩ else none
  | _ => none

namespace Record

/-- The value given for a field. -/
def get? (r : Record) (name : String) : Option Json :=
  (r.values.find? (·.1 == name)).map (·.2)

/-- A field that has to be there, read by `read`. -/
def required {α : Type} (r : Record) (name : String) (read : Json → Option α) : Option α :=
  (r.get? name).bind read

/-- A field with the value `absent` when it is left out. -/
def defaulted {α : Type} (r : Record) (name : String) (read : Json → Option α) (absent : α) :
    Option α :=
  match r.get? name with
  | some j => read j
  | none => some absent

/-- A field that may be `null`, and may be left out of a record written by name. -/
def optional {α : Type} (r : Record) (name : String) (read : Json → Option α) : Option (Option α) :=
  match r.get? name with
  | some j => option? read j
  | none => if r.listed then none else some none

end Record

/-! ## §4 Writing -/

/-- The value that `write` gives, or `null` for an absent one. -/
def ofOption {α : Type} (write : α → Json) : Option α → Json
  | none => .null
  | some a => write a

/-- The entry under `name` that is left out when its value is absent. -/
def entryOf {α : Type} (name : String) (write : α → Json) : Option α → List (String × Json)
  | none => []
  | some a => [(name, write a)]

/-- A natural number. -/
def ofNat (n : Nat) : Json := .int n

/-- A signed word. -/
def ofWord (w : Int64) : Json := .int w.toInt

/-- A list of texts. -/
def ofTexts (ss : List String) : Json := .arr (ss.map .str)

end LoopAnalysis.Json
