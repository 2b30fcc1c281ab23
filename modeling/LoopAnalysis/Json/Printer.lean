import LoopAnalysis.Json.Basic
import LoopAnalysis.Text.Basic
import LoopAnalysis.Decimal.Layout

/-!
# Writing documents

Two layouts: compact, and indented by two spaces per level. Only the quote, the backslash and the
control characters below `U+0020` are escaped. A number that is not finite is written `null`.
-/

namespace LoopAnalysis.Json

/-- The lower-case hexadecimal digit of a number below sixteen. -/
def hexDigit (n : Nat) : Char := if n < 10 then Char.ofNat (48 + n) else Char.ofNat (87 + n)

/-- A character as it stands inside quotes. -/
def escapeChar (c : Char) : List Char :=
  match c with
  | '"' => ['\\', '"']
  | '\\' => ['\\', '\\']
  | '\n' => ['\\', 'n']
  | '\r' => ['\\', 'r']
  | '\t' => ['\\', 't']
  | c =>
    if c.toNat == 8 then ['\\', 'b']
    else if c.toNat == 12 then ['\\', 'f']
    else if c.toNat < 32 then
      ['\\', 'u', '0', '0', hexDigit (c.toNat / 16), hexDigit (c.toNat % 16)]
    else [c]

/-- Quoted text, with every character as `escapeChar` writes it. -/
def quote (s : String) : String := String.ofList ('"' :: s.toList.flatMap escapeChar ++ ['"'])

/-- The text of a number with a fraction, in the layout `Decimal.document`. -/
def floatText (x : Float) : String :=
  if x.isFinite then Decimal.document.write x else "null"

mutual

/-- One line without blanks. -/
def compact : Json → String
  | .null => "null"
  | .bool b => if b then "true" else "false"
  | .int i => toString i
  | .float x => floatText x
  | .str s => quote s
  | .arr items => "[" ++ Text.join "," (compactItems items) ++ "]"
  | .obj entries => "\x7b" ++ Text.join "," (compactEntries entries) ++ "\x7d"
  | .unreadable => "null"

/-- The `compact` texts of the items of a list. -/
def compactItems : List Json → List String
  | [] => []
  | j :: js => compact j :: compactItems js

/-- The `compact` texts of the entries of a record. -/
def compactEntries : List (String × Json) → List String
  | [] => []
  | (key, j) :: rest => (quote key ++ ":" ++ compact j) :: compactEntries rest

end

/-- A line break followed by two spaces for each level. -/
def newline (level : Nat) : String := "\n" ++ String.ofList (List.replicate (2 * level) ' ')

mutual

/-- Indented text of a value that starts at the nesting level `level`. -/
def pretty (level : Nat) : Json → String
  | .arr [] => "[]"
  | .arr items =>
    "[" ++ Text.join "," (prettyItems (level + 1) items) ++ newline level ++ "]"
  | .obj [] => "\x7b\x7d"
  | .obj entries =>
    "\x7b" ++ Text.join "," (prettyEntries (level + 1) entries) ++ newline level ++ "\x7d"
  | scalar => compact scalar

/-- The `pretty` texts of the items of a list, each on a line of its own. -/
def prettyItems (level : Nat) : List Json → List String
  | [] => []
  | j :: js => (newline level ++ pretty level j) :: prettyItems level js

/-- The `pretty` texts of the entries of a record, each on a line of its own. -/
def prettyEntries (level : Nat) : List (String × Json) → List String
  | [] => []
  | (key, j) :: rest =>
    (newline level ++ quote key ++ ": " ++ pretty level j) :: prettyEntries level rest

end

end LoopAnalysis.Json
