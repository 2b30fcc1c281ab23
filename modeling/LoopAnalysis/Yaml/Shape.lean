import LoopAnalysis.Yaml.Basic
import LoopAnalysis.Yaml.Plain

/-!
# Documents under a shape

What a plain scalar means depends on what is expected in its place, so a node becomes a typed
document only under a shape.
-/

namespace LoopAnalysis.Yaml

/-- What is expected in a place of a `Document`. -/
inductive Shape where
  | flag
  | whole
  | number
  | text
  /-- One of several names. -/
  | choice
  | option (s : Shape)
  | list (s : Shape)
  | record (fields : List (String × Shape))

/-! ## §1 Scalars -/

/-- The identifier of a standard tag. -/
def standardTag (name : String) : String := "tag:yaml.org,2002:" ++ name

/-- The text of a scalar. -/
def text? : Yaml → Option String
  | .scalar _ _ text => some text
  | _ => none

/-- The text of a scalar that may denote something other than a text: a plain one, or a literal one
under the `standardTag` for what is expected. -/
def denoting? (expected : String) : Yaml → Option String
  | .scalar .plain _ text => some text
  | .scalar .literal (some tag) text => if tag == standardTag expected then some text else none
  | _ => none

/-- The name that a tag of the document's own gives. -/
def localName? (tag : String) : Option String :=
  match tag.toList with
  | ['!'] => some "!"
  | '!' :: name => some (String.ofList name)
  | _ => none

/-- The name that a scalar chooses: the `localName?` of its tag, with nothing after it, or its text.
-/
def choice? : Yaml → Option String
  | .scalar style tag text =>
    match tag.bind localName? with
    | some name => if style = .plain && isNullText text then some name else none
    | none => some text
  | _ => none

/-- Whether a node says that there is no value, by `isNullText`; the tag for absent values tolerates
no other. -/
def absence? : Yaml → Option Bool
  | .scalar .plain none text => some (isNullText text)
  | .scalar .plain (some tag) text =>
    if tag != standardTag "null" then some false
    else if nullSpellings.contains text then some true
    else none
  | _ => some false

/-! ## §2 Documents -/

mutual

/-- What a node of a document denotes where a `Shape` is expected. Entries that a record does not
know are passed over; a record or list that is left empty has no entries. -/
def Document.read (d : Document) : Shape → Yaml → Option Json
  | .flag, y => do
    let text ← denoting? "bool" (← d.resolve y)
    let (_, b) ← flagSpellings.find? (·.1 == text)
    return .bool b
  | .whole, y => do return .int (← whole? (← denoting? "int" (← d.resolve y)))
  | .number, y => do return .float (← number? (← denoting? "float" (← d.resolve y)))
  | .text, y => do return .str (← text? (← d.resolve y))
  | .choice, y => do return .str (← choice? (← d.resolve y))
  | .option s, y => do
    if ← absence? (← d.resolve y) then return .null
    d.read s y
  | .list s, y => do
    match ← d.resolve y with
    | .seq items => return .arr (← items.mapM (d.read s))
    | y => if y.isAbsent then return .arr [] else none
  | .record fields, y => do
    match ← d.resolve y with
    | .map entries =>
      let found ← entries.mapM fun (key, value) => do
        d.readEntry fields (← text? (← d.resolve key)) value
      return .obj (found.filterMap id)
    | y => if y.isAbsent then return .obj [] else none

/-- The entry of a record under `key`, if the record knows it. -/
def Document.readEntry (d : Document) :
    List (String × Shape) → String → Yaml → Option (Option (String × Json))
  | [], _, _ => some none
  | (name, s) :: rest, key, y =>
    if name == key then (d.read s y).map fun j => some (name, j) else d.readEntry rest key y

end

end LoopAnalysis.Yaml
