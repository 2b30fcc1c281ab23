/-!
# Text

The few operations on text that the analyses and formats share: trimming by the Unicode
`White_Space` property, ASCII case folding, and searching for one text inside another.
-/

namespace LoopAnalysis.Text

/-! ## §1 Blanks -/

/-- The characters with the Unicode property `White_Space`. -/
def isBlank (c : Char) : Bool :=
  let n := c.toNat
  (9 ≤ n && n ≤ 13) || n == 0x20 || n == 0x85 || n == 0xA0 || n == 0x1680 ||
    (0x2000 ≤ n && n ≤ 0x200A) || n == 0x2028 || n == 0x2029 || n == 0x202F || n == 0x205F ||
    n == 0x3000

/-- Drops blanks at both ends of a character list. -/
def trimChars (cs : List Char) : List Char :=
  ((cs.dropWhile isBlank).reverse.dropWhile isBlank).reverse

/-- Drops blanks at both ends. -/
def trim (s : String) : String := String.ofList (trimChars s.toList)

/-! ## §2 Case -/

/-- Lower case of the letters `A` to `Z`; every other character stays. -/
def lowerChar (c : Char) : Char :=
  if 'A' ≤ c && c ≤ 'Z' then Char.ofNat (c.toNat + 32) else c

/-- Lower case of the letters `A` to `Z`. -/
def lower (s : String) : String := String.ofList (s.toList.map lowerChar)

/-- Equality up to the case of the letters `A` to `Z`. -/
def sameLetters (a b : String) : Bool := a.toList.map lowerChar == b.toList.map lowerChar

/-! ## §3 Searching -/

/-- Whether `sub` occurs somewhere in a character list. -/
def occursIn (sub : List Char) : List Char → Bool
  | [] => sub.isEmpty
  | c :: cs => sub.isPrefixOf (c :: cs) || occursIn sub cs

/-- Whether `sub` occurs somewhere in `s`. -/
def contains (s sub : String) : Bool := occursIn sub.toList s.toList

/-- The text before and after the first occurrence of `sub`. -/
def cutAt (sub : List Char) : List Char → Option (List Char × List Char)
  | [] => if sub.isEmpty then some ([], []) else none
  | c :: cs =>
    if sub.isPrefixOf (c :: cs) then some ([], (c :: cs).drop sub.length)
    else (cutAt sub cs).map fun (before, after) => (c :: before, after)

/-- Pieces joined by a separator. -/
def join (separator : String) (pieces : List String) : String := separator.intercalate pieces

/-- The text after `sub` where `sub` opens it, else the whole text. -/
def dropLeading (sub : List Char) (cs : List Char) : List Char :=
  if sub.isPrefixOf cs then cs.drop sub.length else cs

/-! ## §4 Order

Sorted collections of text are ordered by code point. -/

/-- Inserts a text into an ascending list, keeping one copy of each. -/
def insertSorted (s : String) : List String → List String
  | [] => [s]
  | t :: ts => if s = t then t :: ts else if s < t then s :: t :: ts else t :: insertSorted s ts

/-- The distinct texts of a list in ascending order. -/
def sortedSet (ss : List String) : List String := ss.foldl (fun acc s => insertSorted s acc) []

end LoopAnalysis.Text
