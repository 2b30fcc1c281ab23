/-!
# Walking through a text

The classes of characters that the layout of YAML rests on, and a cursor that knows its place in
the text. Common line ends are written alike before a text is read, so that one character ends a
line.
-/

namespace LoopAnalysis.Yaml

/-! ## §1 Characters -/

/-- The blanks within a line. -/
def isBlank (c : Char) : Bool := c == ' ' || c == '\t'

/-- The characters that end a line, once all kinds of line end are written alike. -/
def isBreak (c : Char) : Bool := c == '\n' || c.toNat == 0x2028 || c.toNat == 0x2029

/-- The mark of the byte order. -/
def isOrderMark (c : Char) : Bool := c.toNat == 0xFEFF

/-- Writes all common line ends alike. -/
def unifyBreaks : List Char → List Char
  | '\r' :: '\n' :: rest => '\n' :: unifyBreaks rest
  | c :: rest => (if c == '\r' || c.toNat == 0x85 then '\n' else c) :: unifyBreaks rest
  | [] => []

/-- The characters that a text may hold. -/
def isReadable (c : Char) : Bool :=
  let n := c.toNat
  n == 9 || n == 10 || n == 13 || (0x20 ≤ n && n ≤ 0x7E) || n == 0x85 || (0xA0 ≤ n && n ≤ 0xD7FF) ||
    (0xE000 ≤ n && n ≤ 0xFFFD) || 0x10000 ≤ n

/-- The characters of names: letters and digits, the underscore and the dash. -/
def isNameChar (c : Char) : Bool := c.isAlphanum || c == '_' || c == '-'

/-- A character with `isBlank` or `isBreak`, or the end of the text, comes next. -/
def wordEnds (cs : List Char) : Bool :=
  match cs with
  | [] => true
  | c :: _ => isBlank c || isBreak c

/-! ## §2 Positions -/

/-- A place in a text, all counted from zero. -/
structure Position where
  /-- How many characters come before. -/
  index  : Nat := 0
  line   : Nat := 0
  column : Nat := 0
deriving Repr

/-- The place after the character `c`. -/
def Position.past (p : Position) (c : Char) : Position :=
  if isBreak c then ⟨p.index + 1, p.line + 1, 0⟩ else ⟨p.index + 1, p.line, p.column + 1⟩

/-! ## §3 Cursors -/

/-- What is still to be read, and its `Position`. -/
structure Cursor where
  rest     : List Char
  position : Position := {}

namespace Cursor

/-- The column of the next character. -/
def column (cur : Cursor) : Nat := cur.position.column

/-- The next character. -/
def head? (cur : Cursor) : Option Char := cur.rest.head?

/-- The cursor after the next character. -/
def advance (cur : Cursor) : Cursor :=
  match cur.rest with
  | [] => cur
  | c :: cs => ⟨cs, cur.position.past c⟩

/-- The cursor after a number of characters, reached by `advance`. -/
def skip (cur : Cursor) : Nat → Cursor
  | 0 => cur
  | n + 1 => cur.advance.skip n

/-- The cursor after the characters with `property` that come next. -/
def skipWhile (property : Char → Bool) (cur : Cursor) : Cursor :=
  cur.skip (cur.rest.takeWhile property).length

/-- The characters with `property` that come next, and the cursor after them. -/
def takeWhile (property : Char → Bool) (cur : Cursor) : List Char × Cursor :=
  (cur.rest.takeWhile property, cur.skipWhile property)

/-- The cursor at the end of the line, when only blanks and a comment stand before it. -/
def skipRemark? (cur : Cursor) : Option Cursor :=
  let cur := cur.skipWhile isBlank
  let cur := if cur.head? == some '#' then cur.skipWhile (!isBreak ·) else cur
  if cur.head?.all isBreak then some cur else none

/-- A line that consists of `mark`, perhaps with something after it, starts here. -/
def atLine (cur : Cursor) (mark : String) : Bool :=
  cur.column == 0 && mark.toList.isPrefixOf cur.rest && wordEnds (cur.rest.drop mark.length)

/-- A line that separates documents, `---` or `...`, starts here. -/
def atMarker (cur : Cursor) : Bool := cur.atLine "---" || cur.atLine "..."

end Cursor

end LoopAnalysis.Yaml
