import LoopAnalysis.Json.Number
import LoopAnalysis.Yaml.Scalar

/-!
# Reading block scalars

Scalars of whole lines, after a bar or an angle bracket. A literal one keeps its line breaks; a
folded one joins lines that do not start with a blank.
-/

namespace LoopAnalysis.Yaml

/-! ## §1 Headers -/

/-- What becomes of the line ends after a block scalar. -/
inductive Chomping where
  | strip
  | clip
  | keep
deriving DecidableEq, Repr

/-- The `Chomping` that a sign stands for. -/
def Chomping.ofSign? (c : Char) : Option Chomping :=
  if c == '-' then some .strip else if c == '+' then some .keep else none

/-- What the header of a block scalar says. -/
structure BlockHeader where
  chomping : Chomping := .clip
  /-- How much further the scalar is indented than what it belongs to. -/
  increment : Option Nat := none

/-- Reads the signs of a `BlockHeader`: one for the line ends and a digit for the indentation, in
either order, and either of them may be missing. -/
def readHeader (cur : Cursor) : Option (BlockHeader × Cursor) :=
  let digit? (cur : Cursor) : Option Nat := cur.head?.bind Json.digit?
  let sign? (cur : Cursor) : Option Chomping := cur.head?.bind Chomping.ofSign?
  match sign? cur, digit? cur with
  | some chomping, _ =>
    match digit? cur.advance with
    | none => some ({ chomping }, cur.advance)
    | some 0 => none
    | some n => some (⟨chomping, some n⟩, cur.skip 2)
  | none, some 0 => none
  | none, some n =>
    match sign? cur.advance with
    | none => some ({ increment := some n }, cur.advance)
    | some chomping => some (⟨chomping, some n⟩, cur.skip 2)
  | none, none => some ({}, cur)

/-! ## §2 Lines -/

/-- Takes the empty lines and the indentation before a line: the line breaks, the widest indentation
seen, and the cursor at the line. The indentation goes up to `limit`, if that is known, and has no
tabs. -/
def takeIndentation (limit : Option Nat) (widest : Nat) : List Char → Position →
    Option (List Char × Nat × Cursor)
  | [], place => some ([], max widest place.column, ⟨[], place⟩)
  | c :: cs, place =>
    let indented := limit.all (place.column < ·)
    if indented && c == ' ' then takeIndentation limit widest cs (place.past c)
    else if indented && c == '\t' then none
    else if isBreak c then
      (takeIndentation limit (max widest place.column) cs (place.past c)).map
        fun (breaks, widest, cur) => (c :: breaks, widest, cur)
    else some ([], max widest place.column, ⟨c :: cs, place⟩)

/-- A block scalar that is being read: its text so far, the end of its last line, the empty lines
after that, and whether the last line started with a blank. -/
structure BlockLines where
  text       : List Char := []
  lineEnd    : List Char := []
  emptyLines : List Char := []
  afterBlank : Bool := false
  after      : Cursor

/-- What stands between the last line and the next, which starts with a blank if `blank` says so. -/
def BlockLines.joint (b : BlockLines) (folded blank : Bool) : List Char :=
  if folded && b.lineEnd == ['\n'] && !b.afterBlank && !blank then
    if b.emptyLines.isEmpty then [' '] else b.emptyLines
  else b.lineEnd ++ b.emptyLines

/-- Reads the lines that start in the column `indent`. -/
def readLines (folded : Bool) (indent : Nat) : (fuel : Nat) → BlockLines → Option BlockLines
  | 0, _ => none
  | fuel + 1, b => do
    if b.after.column != indent || b.after.rest.isEmpty then return b
    let blank := b.after.head?.any isBlank
    let (line, cur) := b.after.takeWhile (!isBreak ·)
    let next := cur.advance
    let (emptyLines, _, after) ← takeIndentation (some indent) 0 next.rest next.position
    readLines folded indent fuel
      { text := b.text ++ b.joint folded blank ++ line
        lineEnd := cur.head?.toList
        emptyLines, afterBlank := blank, after }

/-- Reads a block scalar after its sign. It is indented as far as its `BlockHeader` says, or else as
far as its first line, and at least to `floor`. -/
def readBlock (folded : Bool) (floor : Nat) (cur : Cursor) : Option ScalarText := do
  let (header, cur) ← readHeader cur
  let start := (← cur.skipRemark?).advance
  let given := header.increment.map (floor - 1 + ·)
  let (emptyLines, widest, after) ← takeIndentation given 0 start.rest start.position
  let indent := given.getD (max (max widest floor) 1)
  let b ← readLines folded indent (after.rest.length + 1) { emptyLines, after }
  let text :=
    match header.chomping with
    | .strip => b.text
    | .clip => b.text ++ b.lineEnd
    | .keep => b.text ++ b.lineEnd ++ b.emptyLines
  return ⟨text, b.after, true⟩

end LoopAnalysis.Yaml
