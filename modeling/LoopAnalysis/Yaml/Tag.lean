import LoopAnalysis.Json.Number
import LoopAnalysis.Yaml.Scalar

/-!
# Reading anchors, tags and directives
-/

namespace LoopAnalysis.Yaml

/-! ## §1 Anchors -/

/-- Reads the name of an anchor or alias after its sign, of characters with `isNameChar`. -/
def readAnchorName (cur : Cursor) : Option (String × Cursor) :=
  let (name, cur) := cur.takeWhile isNameChar
  let closes (c : Char) : Bool := "?:,]\x7d%@".toList.contains c || c == '\x60'
  if name.isEmpty || !(wordEnds cur.rest || cur.head?.any closes) then none
  else some (String.ofList name, cur)

/-! ## §2 Identifiers of tags -/

/-- Reads an octet written as a percent sign and two hexadecimal digits. -/
def readOctet (cur : Cursor) : Option (Nat × Cursor) :=
  match cur.rest with
  | '%' :: a :: b :: _ => do return (16 * (← Json.hexDigit? a) + (← Json.hexDigit? b), cur.skip 3)
  | _ => none

/-- How many octets a character takes, and what its first octet contributes to its number. -/
def leadingOctet? (octet : Nat) : Option (Nat × Nat) :=
  if octet < 0x80 then some (1, octet)
  else if 0xC0 ≤ octet && octet < 0xE0 then some (2, octet - 0xC0)
  else if 0xE0 ≤ octet && octet < 0xF0 then some (3, octet - 0xE0)
  else if 0xF0 ≤ octet && octet < 0xF8 then some (4, octet - 0xF0)
  else none

/-- Reads `count` further octets of a character, onto the `value` of those before. -/
def readContinuation : (count : Nat) → (value : Nat) → Cursor → Option (Nat × Cursor)
  | 0, value, cur => some (value, cur)
  | count + 1, value, cur => do
    let (octet, cur) ← readOctet cur
    if 0x80 ≤ octet && octet < 0xC0 then readContinuation count (value * 64 + (octet - 0x80)) cur
    else none

/-- Reads a character that is written octet by octet: the first says how many, by `leadingOctet?`.
-/
def readEscaped (cur : Cursor) : Option (Char × Cursor) := do
  let (octet, cur) ← readOctet cur
  let (width, value) ← leadingOctet? octet
  let (value, cur) ← readContinuation (width - 1) value cur
  return (Char.ofNat value, cur)

/-- The characters of identifiers; some of them only between angle brackets and in directives, where
`wide` holds. -/
def isUriChar (wide : Bool) (c : Char) : Bool :=
  isNameChar c || ";/?:@&=+$.%!~*'()".toList.contains c ||
    (wide && (c == ',' || c == '[' || c == ']'))

/-- Reads an identifier of characters with `isUriChar`, which may be empty. -/
def readUri (wide : Bool) : (fuel : Nat) → Cursor → Option (List Char × Cursor)
  | 0, _ => none
  | fuel + 1, cur =>
    match cur.rest with
    | [] => some ([], cur)
    | c :: _ =>
      if c == '%' then do
        let (c, cur) ← readEscaped cur
        let (uri, cur) ← readUri wide fuel cur
        return (c :: uri, cur)
      else if isUriChar wide c then do
        let (uri, cur) ← readUri wide fuel cur.advance
        return (c :: uri, cur)
      else some ([], cur)

/-- Reads an identifier like `readUri`, but not an empty one. -/
def readSomeUri (wide : Bool) (cur : Cursor) : Option (List Char × Cursor) := do
  let (uri, cur) ← readUri wide (cur.rest.length + 1) cur
  if uri.isEmpty then none else return (uri, cur)

/-! ## §3 Tags -/

/-- A tag as it is written: the handle stands for the start of an identifier, the empty handle for
nothing. -/
structure Tag where
  handle : String
  suffix : String
deriving DecidableEq, Repr

/-- The tag with the given parts; a zero character ends the suffix. -/
def Tag.ofChars (handle suffix : List Char) : Tag :=
  ⟨String.ofList handle, String.ofList (suffix.takeWhile (·.toNat != 0))⟩

/-- Takes what may be a handle: an exclamation mark and the name after it, up to another one. -/
def takeHandle (cur : Cursor) : List Char × Cursor :=
  let (name, after) := cur.advance.takeWhile isNameChar
  if after.head? == some '!' then ('!' :: name ++ ['!'], after.advance) else ('!' :: name, after)

/-- A handle that is closed by an exclamation mark of its own. -/
def isHandle (handle : List Char) : Bool := 2 ≤ handle.length && handle.getLast? == some '!'

/-- Reads a `Tag` from its exclamation mark on, without what follows. -/
def readTagName (cur : Cursor) : Option (Tag × Cursor) := do
  if ['!', '<'].isPrefixOf cur.rest then
    let (uri, cur) ← readSomeUri true (cur.skip 2)
    if cur.head? != some '>' then none
    return (.ofChars [] uri, cur.advance)
  else
    let (handle, cur) := takeHandle cur
    if isHandle handle then
      let (uri, cur) ← readSomeUri false cur
      return (.ofChars handle uri, cur)
    else
      let (uri, cur) ← readUri false (cur.rest.length + 1) cur
      let tag := Tag.ofChars ['!'] (handle.tail ++ uri)
      return (if tag.suffix.isEmpty then ⟨"", "!"⟩ else tag, cur)

/-- Reads a `Tag`; it ends a word, or an item in brackets. -/
def readTag (flow : Bool) (cur : Cursor) : Option (Tag × Cursor) := do
  let (tag, cur) ← readTagName cur
  if wordEnds cur.rest || (flow && cur.head? == some ',') then return (tag, cur) else none

/-! ## §4 Directives -/

/-- What a text says about itself before a `Document`. -/
inductive Directive where
  | version (major minor : Nat)
  | handle (name start : String)
deriving DecidableEq, Repr

/-- Reads a number of at most nine digits. -/
def readVersionNumber (cur : Cursor) : Option (Nat × Cursor) :=
  let (digits, after) := cur.takeWhile Char.isDigit
  if digits.isEmpty || 9 < digits.length then none
  else some (digits.foldl (fun n c => n * 10 + ((Json.digit? c).getD 0)) 0, after)

/-- Reads the `version` in a directive. -/
def readVersion (cur : Cursor) : Option (Directive × Cursor) := do
  let (major, cur) ← readVersionNumber (cur.skipWhile isBlank)
  if cur.head? != some '.' then none
  let (minor, cur) ← readVersionNumber cur.advance
  return (.version major minor, cur)

/-- Reads the handle in a directive, for which `isHandle` holds or which is the bare mark, and what
it stands for. -/
def readHandle (cur : Cursor) : Option (Directive × Cursor) := do
  let cur := cur.skipWhile isBlank
  if cur.head? != some '!' then none
  let (handle, cur) := takeHandle cur
  if !(isHandle handle || handle == ['!']) || !cur.head?.any isBlank then none
  let (start, cur) ← readSomeUri true (cur.skipWhile isBlank)
  if !wordEnds cur.rest then none
  let tag := Tag.ofChars handle start
  return (.handle tag.handle tag.suffix, cur)

/-- Reads a directive after its percent sign, to the end of its line. -/
def readDirective (cur : Cursor) : Option (Directive × Cursor) := do
  let (name, cur) := cur.takeWhile isNameChar
  if !wordEnds cur.rest then none
  let (directive, cur) ←
    match String.ofList name with
    | "YAML" => readVersion cur
    | "TAG" => readHandle cur
    | _ => none
  return (directive, (← cur.skipRemark?).advance)

end LoopAnalysis.Yaml
