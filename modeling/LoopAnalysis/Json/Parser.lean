import LoopAnalysis.Json.Number

/-!
# Reading documents

A recursive reader for the JSON grammar. It takes and returns the characters still to be read.
The fuel bounds the depth of the recursion; twice the length of the text always suffices, because
of two nested calls at least one takes a character.
-/

namespace LoopAnalysis.Json

/-! ## §1 Blanks and text -/

/-- The blanks of the grammar. -/
def isGap (c : Char) : Bool := c == ' ' || c == '\t' || c == '\n' || c == '\r'

/-- Drops leading characters for which `isGap` holds. -/
def skipGaps (cs : List Char) : List Char := cs.dropWhile isGap

/-- A piece of quoted text: a character, or a code unit given by its number. -/
inductive Piece where
  | char (c : Char)
  | unit (n : Nat)

/-- The value of a hexadecimal digit. -/
def hexDigit? (c : Char) : Option Nat :=
  if '0' ≤ c && c ≤ '9' then some (c.toNat - 48)
  else if 'a' ≤ c && c ≤ 'f' then some (c.toNat - 87)
  else if 'A' ≤ c && c ≤ 'F' then some (c.toNat - 55)
  else none

/-- The character of a one-letter escape. -/
def escape? (c : Char) : Option Char :=
  match c with
  | '"' => some '"'
  | '\\' => some '\\'
  | '/' => some '/'
  | 'b' => some (Char.ofNat 8)
  | 'f' => some (Char.ofNat 12)
  | 'n' => some '\n'
  | 'r' => some '\r'
  | 't' => some '\t'
  | _ => none

/-- Reads quoted text after the opening quote, as a list of `Piece`s. -/
def readPieces : List Char → Option (List Piece × List Char)
  | [] => none
  | '"' :: rest => some ([], rest)
  | '\\' :: 'u' :: a :: b :: c :: d :: rest => do
    let n ← (do
      let a ← hexDigit? a
      let b ← hexDigit? b
      let c ← hexDigit? c
      let d ← hexDigit? d
      return ((a * 16 + b) * 16 + c) * 16 + d)
    let (pieces, tail) ← readPieces rest
    return (.unit n :: pieces, tail)
  | '\\' :: c :: rest => do
    let e ← escape? c
    let (pieces, tail) ← readPieces rest
    return (.char e :: pieces, tail)
  | c :: rest =>
    if c.toNat < 32 || c == '\\' then none
    else do
      let (pieces, tail) ← readPieces rest
      return (.char c :: pieces, tail)

/-- The text of a list of pieces. Two `unit`s of a surrogate pair join to one character; half a pair
has no text. -/
def assemble : List Piece → Option (List Char)
  | [] => some []
  | .char c :: rest => (assemble rest).map (c :: ·)
  | .unit high :: rest =>
    if 0xD800 ≤ high && high ≤ 0xDBFF then
      match rest with
      | .unit low :: rest =>
        if 0xDC00 ≤ low && low ≤ 0xDFFF then
          (assemble rest).map (Char.ofNat (0x10000 + (high - 0xD800) * 0x400 + (low - 0xDC00)) :: ·)
        else none
      | _ => none
    else if 0xDC00 ≤ high && high ≤ 0xDFFF then none
    else (assemble rest).map (Char.ofNat high :: ·)

/-! ## §2 Values -/

/-- A record of its entries, or `unreadable` when one of the keys has no text. -/
def ofEntries (entries : List (Option String × Json)) : Json :=
  match entries.mapM fun (key, value) => key.map (·, value) with
  | some entries => .obj entries
  | none => .unreadable

mutual

/-- Reads one value. -/
def readValue : (fuel : Nat) → List Char → Option (Json × List Char)
  | 0, _ => none
  | fuel + 1, cs =>
    match skipGaps cs with
    | 'n' :: 'u' :: 'l' :: 'l' :: rest => some (.null, rest)
    | 't' :: 'r' :: 'u' :: 'e' :: rest => some (.bool true, rest)
    | 'f' :: 'a' :: 'l' :: 's' :: 'e' :: rest => some (.bool false, rest)
    | '"' :: rest => do
      let (pieces, rest) ← readPieces rest
      match assemble pieces with
      | some text => return (.str (String.ofList text), rest)
      | none => return (.unreadable, rest)
    | '[' :: rest =>
      match skipGaps rest with
      | ']' :: rest => some (.arr [], rest)
      | rest => do
        let (items, rest) ← readItems fuel rest
        return (.arr items, rest)
    | '{' :: rest =>
      match skipGaps rest with
      | '}' :: rest => some (.obj [], rest)
      | rest => do
        let (entries, rest) ← readEntries fuel rest
        return (ofEntries entries, rest)
    | cs => readNumber cs

/-- Reads the items of a list up to and including its closing bracket, each by `readValue`. -/
def readItems : (fuel : Nat) → List Char → Option (List Json × List Char)
  | 0, _ => none
  | fuel + 1, cs => do
    let (item, rest) ← readValue fuel cs
    match skipGaps rest with
    | ',' :: rest => do
      let (items, rest) ← readItems fuel rest
      return (item :: items, rest)
    | ']' :: rest => return ([item], rest)
    | _ => none

/-- Reads the entries of a record up to and including its closing brace, each value by `readValue`.
-/
def readEntries : (fuel : Nat) → List Char → Option (List (Option String × Json) × List Char)
  | 0, _ => none
  | fuel + 1, cs =>
    match skipGaps cs with
    | '"' :: rest => do
      let (pieces, rest) ← readPieces rest
      let key := (assemble pieces).map String.ofList
      match skipGaps rest with
      | ':' :: rest => do
        let (value, rest) ← readValue fuel rest
        match skipGaps rest with
        | ',' :: rest => do
          let (entries, rest) ← readEntries fuel rest
          return ((key, value) :: entries, rest)
        | '}' :: rest => return ([(key, value)], rest)
        | _ => none
      | _ => none
    | _ => none

end

/-- Reads a whole text as one document, with nothing but blanks behind what `readValue` takes. -/
def parse (s : String) : Option Json := do
  let cs := s.toList
  let (value, rest) ← readValue (2 * cs.length + 2) cs
  if (skipGaps rest).isEmpty then some value else none

/-- Reads a whole text as a plain value, which `settle` makes of the document. -/
def parseValue (s : String) : Option Json := (parse s).bind (settle depthLimit)

end LoopAnalysis.Json
