import LoopAnalysis.Yaml.Block
import LoopAnalysis.Yaml.Tag

/-!
# Tokens

A text becomes a list of tokens, in which the indentation of lists and mappings is made explicit.

A key is found out to be one only at its colon. So wherever a key may start, the place is kept in
mind as a pending key, one at a time for the block and for each open bracket; the colon then puts
what opens the key in front of the tokens read since. A key stands on one line and has no more than
`keyReach` characters.

## Main definitions

- `Token`: the tokens;
- `Lexer`: what is read so far, and what the next token depends on;
- `tokenize`: the tokens of a text.
-/

namespace LoopAnalysis.Yaml

/-! ## §1 Tokens -/

/-- How a scalar is written. -/
inductive ScalarStyle where
  | plain
  | quoted
  | literal
  | folded
deriving DecidableEq, Repr

/-- A part of a text. -/
inductive Token where
  | directive (d : Directive)
  /-- The line `---`. -/
  | startMark
  /-- The line `...`. -/
  | endMark
  /-- A list laid out by indentation starts. -/
  | openItems
  /-- A mapping laid out by indentation starts. -/
  | openEntries
  /-- A list or mapping laid out by indentation ends. -/
  | dedent
  | openBracket
  | closeBracket
  | openBrace
  | closeBrace
  | comma
  | dash
  /-- A key starts. -/
  | key
  | colon
  | alias (name : String)
  | anchor (name : String)
  | tag (t : Tag)
  | scalar (style : ScalarStyle) (text : String)
deriving DecidableEq, Repr

/-! ## §2 States -/

/-- A place where a `key` may have started. -/
structure PendingKey where
  start    : Position
  /-- Nothing but a key can stand there. -/
  required : Bool
  /-- How many tokens come before it. -/
  before   : Nat

/-- How far a key may be from its `colon`, in characters. -/
def keyReach : Nat := 1024

/-- What is read so far, and what the next `Token` depends on. -/
structure Lexer where
  cursor  : Cursor
  /-- The tokens so far, the latest first. -/
  tokens  : List Token := []
  /-- The columns of the open lists and mappings laid out by indentation, the innermost first. -/
  columns : List Nat := []
  /-- The pending key of the innermost bracket, or of the block. -/
  pending : Option PendingKey := none
  /-- The pending keys outside of each open bracket, the innermost first. -/
  outer   : List (Option PendingKey) := []
  /-- A key may start at the cursor. -/
  fresh   : Bool := true

namespace Lexer

/-- The `cursor` is inside of brackets. -/
def inFlow (lx : Lexer) : Bool := !lx.outer.isEmpty

/-- The first column that belongs to the innermost list or mapping and is not its own. -/
def floor (lx : Lexer) : Nat := (lx.columns.head?.map (· + 1)).getD 0

/-- Adds the token `t`, which was read up to `cursor`. -/
def push (lx : Lexer) (t : Token) (cursor : Cursor) : Lexer :=
  { lx with tokens := t :: lx.tokens, cursor }

/-- Puts the token `t` after the first `before` ones. -/
def insert (lx : Lexer) (before : Nat) (t : Token) : Lexer :=
  { lx with tokens := lx.tokens.insertIdx (lx.tokens.length - before) t }

/-- Opens a list or mapping in `column`, after the first `before` tokens, unless one is open there
already. -/
def openAt (lx : Lexer) (column before : Nat) (t : Token) : Lexer :=
  if lx.inFlow || lx.columns.head?.any (column ≤ ·) then lx
  else { lx.insert before t with columns := column :: lx.columns }

/-- Opens a list or mapping at the `cursor`, by `openAt`. -/
def openHere (lx : Lexer) (t : Token) : Lexer := lx.openAt lx.cursor.column lx.tokens.length t

/-- Closes the lists and mappings whose columns have `property`. -/
def close (lx : Lexer) (property : Nat → Bool) : Lexer :=
  if lx.inFlow then lx
  else
    { lx with
      tokens := (lx.columns.takeWhile property).map (fun _ => Token.dedent) ++ lx.tokens
      columns := lx.columns.dropWhile property }

/-- Gives up the `pending` key, which must not be a required one. -/
def forget (lx : Lexer) : Option Lexer :=
  if lx.pending.any (·.required) then none else some { lx with pending := none }

/-- Keeps the cursor in mind as the start of a `PendingKey`, if one may start there; after that none
may. -/
def remember (lx : Lexer) : Option Lexer :=
  if lx.fresh then do
    let required := !lx.inFlow && lx.columns.head? == some lx.cursor.column
    let lx ← lx.forget
    return { lx with
      pending := some ⟨lx.cursor.position, required, lx.tokens.length⟩
      fresh := false }
  else some lx

/-- Whether a pending key is more than `keyReach` characters before the cursor, or on an earlier
line. -/
def isStale (lx : Lexer) (key : PendingKey) : Bool :=
  key.start.line < lx.cursor.position.line || key.start.index + keyReach < lx.cursor.position.index

/-- Gives up the pending keys for which `isStale` holds. -/
def forgetStale (lx : Lexer) : Option Lexer :=
  let stale := (lx.pending :: lx.outer).filterMap id |>.filter lx.isStale
  let fresh (key : Option PendingKey) : Option PendingKey := key.filter (!lx.isStale ·)
  if stale.any (·.required) then none
  else some { lx with pending := fresh lx.pending, outer := lx.outer.map fresh }

/-- Skips blanks, line breaks and comments; says whether a key may start after them. Tabs are no
indentation, so where a key may start they are left where they are, except in brackets. A mark of
the byte order may start a line, and takes up its first column. -/
def skipGap (flow : Bool) : (fresh comment : Bool) → List Char → Position → Cursor × Bool
  | fresh, _, [], place => (⟨[], place⟩, fresh)
  | fresh, comment, c :: cs, place =>
    if isBreak c then skipGap flow (fresh || !flow) false cs (place.past c)
    else if place.column == 0 && isOrderMark c then skipGap flow fresh false cs (place.past c)
    else if comment || c == '#' then skipGap flow fresh true cs (place.past c)
    else if c == ' ' || (c == '\t' && (flow || !fresh)) then
      skipGap flow fresh false cs (place.past c)
    else (⟨c :: cs, place⟩, fresh)

/-- Goes to the next token with `skipGap` and closes what ends before it. -/
def toNext (lx : Lexer) : Option Lexer := do
  let (cursor, fresh) := skipGap lx.inFlow lx.fresh false lx.cursor.rest lx.cursor.position
  let lx ← { lx with cursor, fresh }.forgetStale
  return lx.close (cursor.column < ·)

/-- Closes everything, before a line that belongs to no document and at the end. -/
def closeAll (lx : Lexer) : Option Lexer := do
  let lx ← (lx.close fun _ => true).forget
  return { lx with fresh := false }

/-! ## §3 Reading a token -/

/-- Adds the token `t` for a number of characters, its `width`. -/
def sign (lx : Lexer) (t : Token) (width : Nat) : Lexer := lx.push t (lx.cursor.skip width)

/-- An opening bracket or brace, with which a key may start. -/
def readOpening (lx : Lexer) (t : Token) : Option Lexer := do
  let lx ← lx.remember
  return { lx.sign t 1 with pending := none, outer := lx.pending :: lx.outer, fresh := true }

/-- A closing bracket or brace. -/
def readClosing (lx : Lexer) (t : Token) : Option Lexer := do
  let lx ← lx.forget
  return { lx.sign t 1 with
    pending := lx.outer.head?.getD none, outer := lx.outer.tail, fresh := false }

/-- A `comma`, after which a key may start. -/
def readComma (lx : Lexer) : Option Lexer := do
  return { (← lx.forget).sign .comma 1 with fresh := true }

/-- A `dash`, which opens a list where none is open. -/
def readDash (lx : Lexer) : Option Lexer := do
  if !lx.inFlow && !lx.fresh then none
  let lx ← (lx.openHere .openItems).forget
  return { lx.sign .dash 1 with fresh := true }

/-- A question mark, after which anything may be a key. -/
def readQuestion (lx : Lexer) : Option Lexer := do
  if !lx.inFlow && !lx.fresh then none
  let lx ← (lx.openHere .openEntries).forget
  return { lx.sign .key 1 with fresh := !lx.inFlow }

/-- A `colon`. It turns a pending key into one and opens its mapping; without one it follows what
stands after a question mark, or nothing. -/
def readColon (lx : Lexer) : Option Lexer :=
  match lx.pending with
  | some key =>
    let lx := (lx.insert key.before .key).openAt key.start.column key.before .openEntries
    some { lx.sign .colon 1 with pending := none, fresh := false }
  | none =>
    if !lx.inFlow && !lx.fresh then none
    else some { (lx.openHere .openEntries).sign .colon 1 with fresh := !lx.inFlow }

/-- A part of a node, with which a key may start, read by `read`. -/
def readPart (lx : Lexer) (read : Cursor → Option (Token × Cursor)) : Option Lexer := do
  let lx ← lx.remember
  let (t, cursor) ← read lx.cursor
  return { lx.push t cursor with fresh := false }

/-- A scalar between quotes, read by `readSingle` or `readDouble`. -/
def readQuoted (lx : Lexer) (read : (fuel : Nat) → Cursor → Option ScalarText) : Option Lexer :=
  lx.readPart fun cur => do
    let s ← read (cur.rest.length + 1) cur.advance
    return (.scalar .quoted (String.ofList s.text), s.after)

/-- A plain scalar, read by `readPlain`. After line breaks at its end a key may start. -/
def readPlainScalar (lx : Lexer) : Option Lexer := do
  if !startsPlain lx.inFlow lx.cursor then none
  let lx ← lx.remember
  let s ← readPlain lx.inFlow lx.floor (lx.cursor.rest.length + 1) lx.cursor []
  return { lx.push (.scalar .plain (String.ofList s.text)) s.after with fresh := s.crossed }

/-- A block scalar, read by `readBlock`, which is no key. -/
def readBlockScalar (lx : Lexer) (style : ScalarStyle) : Option Lexer := do
  let lx ← lx.forget
  let s ← readBlock (style == .folded) lx.floor lx.cursor.advance
  return { lx.push (.scalar style (String.ofList s.text)) s.after with fresh := true }

/-- A line that separates documents. -/
def readMarker (lx : Lexer) (t : Token) : Option Lexer := do return (← lx.closeAll).sign t 3

/-- A `Directive` on a line of its own. -/
def readDirectiveLine (lx : Lexer) : Option Lexer := do
  let lx ← lx.closeAll
  let (d, cursor) ← readDirective lx.cursor.advance
  return lx.push (.directive d) cursor

/-- The token that starts with `c`, before the `rest` of the text. -/
def readToken (lx : Lexer) (c : Char) (rest : List Char) : Option Lexer :=
  let alone := lx.inFlow || wordEnds rest
  if lx.cursor.column == 0 && c == '%' then lx.readDirectiveLine
  else if lx.cursor.atLine "---" then lx.readMarker .startMark
  else if lx.cursor.atLine "..." then lx.readMarker .endMark
  else if c == '[' then lx.readOpening .openBracket
  else if c == '\x7b' then lx.readOpening .openBrace
  else if c == ']' then lx.readClosing .closeBracket
  else if c == '\x7d' then lx.readClosing .closeBrace
  else if c == ',' then lx.readComma
  else if c == '-' && wordEnds rest then lx.readDash
  else if c == '?' && alone then lx.readQuestion
  else if c == ':' && alone then lx.readColon
  else if c == '*' then
    lx.readPart fun cur => (readAnchorName cur.advance).map fun (name, cur) => (.alias name, cur)
  else if c == '&' then
    lx.readPart fun cur => (readAnchorName cur.advance).map fun (name, cur) => (.anchor name, cur)
  else if c == '!' then
    lx.readPart fun cur => (readTag lx.inFlow cur).map fun (t, cur) => (.tag t, cur)
  else if c == '|' && !lx.inFlow then lx.readBlockScalar .literal
  else if c == '>' && !lx.inFlow then lx.readBlockScalar .folded
  else if c == '\'' then lx.readQuoted readSingle
  else if c == '"' then lx.readQuoted readDouble
  else lx.readPlainScalar

/-! ## §4 Reading all tokens -/

/-- Reads to the end: `toNext` and `readToken` in turn, and `closeAll` at last. -/
def run : (fuel : Nat) → Lexer → Option (List Token)
  | 0, _ => none
  | fuel + 1, lx => do
    let lx ← lx.toNext
    match lx.cursor.rest with
    | [] => return (← lx.closeAll).tokens.reverse
    | c :: rest => run fuel (← lx.readToken c rest)

end Lexer

/-- The tokens of a text, if all its characters are `isReadable` and `Lexer.run` gets to its end. -/
def tokenize (text : String) : Option (List Token) :=
  if text.toList.all isReadable then
    let cs := unifyBreaks text.toList
    Lexer.run (cs.length + 1) { cursor := { rest := cs } }
  else none

end LoopAnalysis.Yaml
