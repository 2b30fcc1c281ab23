import LoopAnalysis.Yaml.Cursor
import LoopAnalysis.Yaml.Plain
import LoopAnalysis.Text.Basic
import LoopAnalysis.Decimal.Layout

/-!
# Writing YAML

Documents laid out by indentation, two spaces for each level; the dashes of a list stand in the
column of its key. A text is written without quotes where it reads back as a text.
-/

namespace LoopAnalysis.Yaml

/-! ## §1 Texts -/

/-- Whether a plain text denotes an integer of at most 128 bits, that is a `whole?` one or the
negative of a `magnitude?`. -/
def isInteger (text : String) : Bool :=
  (whole? text).any (· < Nat.pow 2 128) ||
    match text.toList with
    | '-' :: rest => (magnitude? rest).any (· ≤ Nat.pow 2 127)
    | _ => false

/-- Whether a plain text would be read as something other than a text. -/
def isMistakable (text : String) : Bool :=
  isNullText text || flagSpellings.any (·.1 == text) || isInteger text || (number? text).isSome ||
    hasLeadingZero (match text.toList with
      | '-' :: rest => rest
      | cs => dropPlus cs)

/-- The characters that are written as they are. -/
def isPrintable (c : Char) : Bool :=
  let n := c.toNat
  n == 10 || (0x20 ≤ n && n ≤ 0x7E) || (0xA0 ≤ n && n ≤ 0xD7FF) ||
    (0xE000 ≤ n && n ≤ 0xFFFD && n != 0xFEFF) || 0x10000 ≤ n

/-- Whether a sign that starts or ends something occurs in a text: at its start, as a colon at the
end of a word, or as a comment. -/
def hasSigns (cs : List Char) : Bool :=
  let opening :=
    match cs with
    | [] => false
    | c :: rest =>
      "#,[]\x7b\x7d&*!|>'\"%@".toList.contains c || c == '\x60' ||
        ((c == '?' || c == ':' || c == '-') && wordEnds rest)
  let marker := "---".toList.isPrefixOf cs || "...".toList.isPrefixOf cs
  let colon := (cs.zip (cs.tail.map some ++ [none])).any fun (c, next) =>
    c == ':' && next.all fun d => isBlank d || isBreak d
  let comment := (cs.zip cs.tail).any fun (c, next) => next == '#' && (isBlank c || isBreak c)
  opening || marker || colon || comment

/-- Whether a text may stand without quotes: it is not `isMistakable` and has no signs. -/
def isPlainText (text : String) : Bool :=
  let cs := text.toList
  !isMistakable text && !hasSigns cs && cs.all (fun c => isPrintable c && !isBreak c) &&
    cs.head? != some ' ' && cs.getLast? != some ' '

/-- The spaces in front of `column`. -/
def spaces (column : Nat) : String := String.ofList (List.replicate column ' ')

/-- A text whose lines start in `column`, from a place at the start of a line or within one. Empty
lines stay empty; the end of the text is the start of a line if `closed` says so. -/
def indentLines (column : Nat) (closed : Bool) : (atStart : Bool) → List Char → List Char
  | atStart, [] => if atStart && closed then List.replicate column ' ' else []
  | atStart, c :: cs =>
    if isBreak c then c :: indentLines column closed true cs
    else
      (if atStart then List.replicate column ' ' else []) ++
        c :: indentLines column closed false cs

/-- A text in single quotes, where a quote is written twice. After a line break it goes on in
`column`. -/
def singleQuoted (column : Nat) (cs : List Char) : String :=
  let doubled := cs.flatMap fun c => if c == '\'' then ['\'', '\''] else [c]
  "'" ++ String.ofList (indentLines column true false doubled) ++ "'"

/-- The upper-case hexadecimal digit of a number below sixteen. -/
def upperHex (n : Nat) : Char := if n < 10 then Char.ofNat (48 + n) else Char.ofNat (55 + n)

/-- The number `n` in `width` hexadecimal digits. -/
def hexDigits (width n : Nat) : List Char :=
  ((List.range width).map fun i => upperHex (n / Nat.pow 16 i % 16)).reverse

/-- The letters of the characters with an escape of their own. -/
def escapeLetters : List (Nat × Char) :=
  [(0, '0'), (7, 'a'), (8, 'b'), (9, 't'), (10, 'n'), (11, 'v'), (12, 'f'), (13, 'r'), (27, 'e'),
   (34, '"'), (92, '\\'), (0x85, 'N'), (0xA0, '_'), (0x2028, 'L'), (0x2029, 'P')]

/-- A character between double quotes, if need be by one of the `escapeLetters` or its number. -/
def doubleQuotedChar (c : Char) : List Char :=
  let n := c.toNat
  if isPrintable c && !isBreak c && c != '"' && c != '\\' then [c]
  else
    match escapeLetters.find? (·.1 == n) with
    | some (_, letter) => ['\\', letter]
    | none =>
      if n ≤ 0xFF then '\\' :: 'x' :: hexDigits 2 n
      else if n ≤ 0xFFFF then '\\' :: 'u' :: hexDigits 4 n
      else '\\' :: 'U' :: hexDigits 8 n

/-- A text in double quotes, each character by `doubleQuotedChar`. -/
def doubleQuoted (text : String) : String :=
  String.ofList ('"' :: text.toList.flatMap doubleQuotedChar ++ ['"'])

/-- Whether a character with `first` comes right before one with `second`. -/
def hasAdjacent (first second : Char → Bool) (cs : List Char) : Bool :=
  (cs.zip cs.tail).any fun (c, next) => first c && second next

/-- Whether the lines of a text can be told apart from blanks around them. -/
def isLineText (cs : List Char) : Bool := cs.all isPrintable && !hasAdjacent (· == ' ') isBreak cs

/-- Whether a text may stand in single quotes: an `isLineText` in which no further line starts with
a blank. -/
def isSingleText (cs : List Char) : Bool := isLineText cs && !hasAdjacent isBreak (· == ' ') cs

/-- Whether a text with line breaks may be written as a `literalBlock`. -/
def isBlockText (cs : List Char) : Bool := isLineText cs && cs.getLast? != some ' '

/-- The signs of a literal block: its indentation where the text starts with a blank, and what
becomes of the line ends after it. -/
def blockSigns (cs : List Char) : String :=
  (if cs.head?.any (fun c => c == ' ' || isBreak c) then "2" else "") ++
    match cs.reverse with
    | [] => "-"
    | [c] => if isBreak c then "+" else "-"
    | c :: d :: _ => if !isBreak c then "-" else if isBreak d then "+" else ""

/-- A literal block with its lines in `column`, after its `blockSigns`. -/
def literalBlock (column : Nat) (cs : List Char) : String :=
  "|" ++ blockSigns cs ++ "\n" ++ String.ofList (indentLines column false true cs)

/-- A text, whose further lines start in `column`: a `literalBlock`, or the plainest of the three
forms within a line that it may have. -/
def writeText (column : Nat) (text : String) : String :=
  let cs := text.toList
  if cs.contains '\n' then
    if isBlockText cs then literalBlock column cs else doubleQuoted text
  else if isPlainText text then text
  else if isSingleText cs then singleQuoted column cs
  else doubleQuoted text

/-! ## §2 Documents -/

/-- The text of a number with a fraction, in the layout `Decimal.document`. -/
def writeFloat (x : Float) : String := Decimal.document.write x

/-- Ends the line, unless a literal block has just ended it. -/
def endLine (text : String) : String :=
  if text.toList.getLast?.any isBreak then text else text ++ "\n"

mutual

/-- A value that follows a key in `column`, to the end of its last line. -/
def writeValue (column : Nat) : Json → String
  | .null => " null\n"
  | .bool b => if b then " true\n" else " false\n"
  | .int i => " " ++ toString i ++ "\n"
  | .float x => " " ++ writeFloat x ++ "\n"
  | .str s => endLine (" " ++ writeText (column + 2) s)
  | .arr [] => " []\n"
  | .arr (item :: items) => "\n" ++ spaces column ++ writeItems column (item :: items)
  | .obj [] => " \x7b\x7d\n"
  | .obj (entry :: entries) =>
    "\n" ++ spaces (column + 2) ++ writeEntries (column + 2) (entry :: entries)
  | .unreadable => " null\n"

/-- A value that follows a dash in `column`. -/
def writeItem (column : Nat) : Json → String
  | .obj (entry :: entries) => " " ++ writeEntries (column + 2) (entry :: entries)
  | .arr (item :: items) => " " ++ writeItems (column + 2) (item :: items)
  | j => writeValue column j

/-- The items of a list whose dashes stand in `column`, from the first dash on. -/
def writeItems (column : Nat) : List Json → String
  | [] => ""
  | [j] => "-" ++ writeItem column j
  | j :: js => "-" ++ writeItem column j ++ spaces column ++ writeItems column js

/-- The entries of a record whose keys stand in `column`, from the first key on. -/
def writeEntries (column : Nat) : List (String × Json) → String
  | [] => ""
  | [(key, j)] => writeText column key ++ ":" ++ writeValue column j
  | (key, j) :: rest =>
    writeText column key ++ ":" ++ writeValue column j ++ spaces column ++ writeEntries column rest

end

/-- A document as YAML. -/
def write (j : Json) : String :=
  match j with
  | .obj (entry :: entries) => writeEntries 0 (entry :: entries)
  | .arr (item :: items) => writeItems 0 (item :: items)
  | j => String.ofList ((writeValue 0 j).toList.drop 1)

end LoopAnalysis.Yaml
