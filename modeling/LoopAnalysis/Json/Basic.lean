/-!
# Documents

The value of a document: nested lists and records over scalars. A record keeps its entries in the
order in which they were written.
-/

namespace LoopAnalysis

/-- A document. Integers and fractional numbers are kept apart, and `unreadable` marks a part that
is well formed but denotes nothing: a number beyond the range of a double, or text with half of a
surrogate pair. -/
inductive Json where
  | null
  | bool (b : Bool)
  | int (i : Int)
  | float (x : Float)
  | str (s : String)
  | arr (items : List Json)
  | obj (entries : List (String × Json))
  | unreadable
deriving Inhabited

namespace Json

/-- The entry of a record under `key`; the last one wins. -/
def get? (j : Json) (key : String) : Option Json :=
  match j with
  | .obj entries => (entries.reverse.find? (·.1 == key)).map (·.2)
  | _ => none

/-- The entry that `get?` finds under `key`, where `null` counts as absent. -/
def present? (j : Json) (key : String) : Option Json :=
  match j.get? key with
  | some .null => none
  | other => other

/-- The items of a list. -/
def items? : Json → Option (List Json)
  | .arr items => some items
  | _ => none

/-- A scalar text. -/
def text? : Json → Option String
  | .str s => some s
  | _ => none

/-- A truth value. -/
def flag? : Json → Option Bool
  | .bool b => some b
  | _ => none

/-- Replaces the entry under `key` where it stands, or adds one at the end. -/
def putEntry (key : String) (value : Json) : List (String × Json) → List (String × Json)
  | [] => [(key, value)]
  | (k, v) :: rest => if k == key then (k, value) :: rest else (k, v) :: putEntry key value rest

/-- How far lists and records may be nested inside each other. -/
def depthLimit : Nat := 127

mutual

/-- The document as a plain value: every part must be readable, lists and records may be nested at
most `room` deep, and of two entries under one key the later one holds. -/
def settle : (room : Nat) → Json → Option Json
  | _, .null => some .null
  | _, .bool b => some (.bool b)
  | _, .int i => some (.int i)
  | _, .float x => some (.float x)
  | _, .str s => some (.str s)
  | _, .unreadable => none
  | 0, .arr _ => none
  | 0, .obj _ => none
  | room + 1, .arr items => (settleItems room items).map .arr
  | room + 1, .obj entries => (settleEntries room entries []).map .obj

/-- The items of a list, each put through `settle`. -/
def settleItems : (room : Nat) → List Json → Option (List Json)
  | _, [] => some []
  | room, j :: js => do
    let v ← settle room j
    let vs ← settleItems room js
    return v :: vs

/-- The entries of a record, put through `settle` and added by `putEntry` to those already `done`.
-/
def settleEntries : (room : Nat) → List (String × Json) → List (String × Json) →
    Option (List (String × Json))
  | _, [], done => some done
  | room, (key, j) :: rest, done => do
    let v ← settle room j
    settleEntries room rest (putEntry key v done)

end

end Json

end LoopAnalysis
