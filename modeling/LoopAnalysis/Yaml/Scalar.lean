import LoopAnalysis.Json.Parser
import LoopAnalysis.Yaml.Cursor

/-!
# Reading scalars within lines

Plain and quoted scalars. Inside them a single line break is read as a space, and of several line
breaks the first is dropped.
-/

namespace LoopAnalysis.Yaml

/-! ## §1 Gaps within scalars -/

/-- Takes blanks and line breaks. After a line break no tab may stand to the left of `floor`. -/
def takeGap (floor : Nat) : (broken : Bool) → List Char → Position → Option (List Char × Cursor)
  | _, [], place => some ([], ⟨[], place⟩)
  | broken, c :: cs, place =>
    if isBlank c || isBreak c then
      if broken && c == '\t' && place.column < floor then none
      else
        (takeGap floor (broken || isBreak c) cs (place.past c)).map
          fun (gap, cur) => (c :: gap, cur)
    else some ([], ⟨c :: cs, place⟩)

/-- What a gap stands for inside a scalar. -/
def gapText (gap : List Char) : List Char :=
  match gap.filter isBreak with
  | [] => gap
  | ['\n'] => [' ']
  | '\n' :: more => more
  | breaks => breaks

/-! ## §2 Quoted scalars -/

/-- A scalar that was read: its text, the cursor after it, and whether line breaks that do not
belong to it were `crossed`. -/
structure ScalarText where
  text    : List Char
  after   : Cursor
  crossed : Bool := false

/-- Puts the character `c` in front of a scalar. -/
def ScalarText.cons (c : Char) (s : ScalarText) : ScalarText := { s with text := c :: s.text }

/-- Puts the `gapText` of a gap in front of a scalar. -/
def ScalarText.afterGap (gap : List Char) (s : ScalarText) : ScalarText :=
  { s with text := gapText gap ++ s.text }

/-- Reads text between single quotes, where a quote is written twice, up to the closing one. A line
with `atMarker` ends it early, and there is no scalar. -/
def readSingle : (fuel : Nat) → Cursor → Option ScalarText
  | 0, _ => none
  | fuel + 1, cur =>
    if cur.atMarker then none
    else
      match cur.rest with
      | [] => none
      | '\'' :: '\'' :: _ => (readSingle fuel (cur.skip 2)).map (.cons '\'' ·)
      | '\'' :: _ => some ⟨[], cur.advance, false⟩
      | c :: _ =>
        if wordEnds cur.rest then do
          let (gap, cur) ← takeGap 0 false cur.rest cur.position
          return .afterGap gap (← readSingle fuel cur)
        else (readSingle fuel cur.advance).map (.cons c ·)

/-- The character of a one-letter escape. -/
def escape? (c : Char) : Option Char :=
  match c with
  | '0' => some (Char.ofNat 0)
  | 'a' => some (Char.ofNat 7)
  | 'b' => some (Char.ofNat 8)
  | 't' => some '\t'
  | '\t' => some '\t'
  | 'n' => some '\n'
  | 'v' => some (Char.ofNat 11)
  | 'f' => some (Char.ofNat 12)
  | 'r' => some '\r'
  | 'e' => some (Char.ofNat 27)
  | ' ' => some ' '
  | '"' => some '"'
  | '/' => some '/'
  | '\\' => some '\\'
  | 'N' => some (Char.ofNat 0x85)
  | '_' => some (Char.ofNat 0xA0)
  | 'L' => some (Char.ofNat 0x2028)
  | 'P' => some (Char.ofNat 0x2029)
  | _ => none

/-- How many hexadecimal digits follow an escape that gives the number of a character. -/
def escapeWidth? (c : Char) : Option Nat :=
  match c with
  | 'x' => some 2
  | 'u' => some 4
  | 'U' => some 8
  | _ => none

/-- The character whose number stands in the hexadecimal `digits`, if there is one. -/
def numbered? (digits : List Char) : Option Char := do
  let n ← digits.foldlM (fun n c => (Json.hexDigit? c).map (n * 16 + ·)) 0
  if h : n.isValidChar then some (Char.ofNatAux n h) else none

/-- Reads text between double quotes, where a backslash starts an escape: one of `escape?`, or a
number of as many digits as `escapeWidth?` says. -/
def readDouble : (fuel : Nat) → Cursor → Option ScalarText
  | 0, _ => none
  | fuel + 1, cur =>
    if cur.atMarker then none
    else
      match cur.rest with
      | [] => none
      | '"' :: _ => some ⟨[], cur.advance, false⟩
      | '\\' :: c :: rest =>
        if isBreak c then do
          let cur := cur.skip 2
          let (gap, cur) ← takeGap 0 true cur.rest cur.position
          let s ← readDouble fuel cur
          return { s with text := gap.filter isBreak ++ s.text }
        else
          match escapeWidth? c with
          | some width => do
            if rest.length < width then none
            let c ← numbered? (rest.take width)
            return .cons c (← readDouble fuel (cur.skip (width + 2)))
          | none => do
            let c ← escape? c
            return .cons c (← readDouble fuel (cur.skip 2))
      | c :: _ =>
        if c == '\\' then none
        else if wordEnds cur.rest then do
          let (gap, cur) ← takeGap 0 false cur.rest cur.position
          return .afterGap gap (← readDouble fuel cur)
        else (readDouble fuel cur.advance).map (.cons c ·)

/-! ## §3 Plain scalars -/

/-- The characters with which lists and mappings inside brackets are put together. -/
def isFlowSign (c : Char) : Bool :=
  c == ',' || c == '[' || c == ']' || c == '\x7b' || c == '\x7d'

/-- The characters that start no plain scalar. -/
def isIndicator (c : Char) : Bool :=
  "-?:,[]\x7b\x7d#&*!|>'\"%@".toList.contains c || c == '\x60'

/-- A plain scalar may start here: with a character for which `isIndicator` does not hold, or with a
sign that a word follows. -/
def startsPlain (flow : Bool) (cur : Cursor) : Bool :=
  match cur.rest with
  | [] => false
  | c :: rest =>
    !(wordEnds cur.rest || isIndicator c) ||
      (c == '-' && !wordEnds rest) ||
      (!flow && (c == '?' || c == ':') && !wordEnds rest)

/-- Takes one word of a plain scalar. Inside brackets a colon may not run into a question mark or a
character for which `isFlowSign` holds. -/
def takeWord (flow : Bool) : List Char → Option (List Char × List Char)
  | [] => some ([], [])
  | c :: cs =>
    if isBlank c || isBreak c then some ([], c :: cs)
    else if flow && c == ':' && (cs.head?.any fun d => isFlowSign d || d == '?') then none
    else if (c == ':' && wordEnds cs) || (flow && isFlowSign c) then some ([], c :: cs)
    else (takeWord flow cs).map fun (word, rest) => (c :: word, rest)

/-- Reads the words of a plain scalar, each by `takeWord`, with the gaps between them. It goes on to
the next line as long as that is indented at least to `floor`; inside brackets any line will do. -/
def readPlain (flow : Bool) (floor : Nat) :
    (fuel : Nat) → Cursor → (gap : List Char) → Option ScalarText
  | 0, _, _ => none
  | fuel + 1, cur, gap => do
    let stop : ScalarText := ⟨[], cur, gap.any isBreak⟩
    if cur.atMarker || cur.head? == some '#' then return stop
    let (word, rest) ← takeWord flow cur.rest
    if word.isEmpty then return stop
    let lead := gapText gap ++ word
    let after := cur.skip word.length
    if rest.isEmpty || !wordEnds rest then return ⟨lead, after, false⟩
    let (next, cur) ← takeGap floor false after.rest after.position
    if !flow && cur.column < floor then return ⟨lead, cur, next.any isBreak⟩
    let s ← readPlain flow floor fuel cur next
    return { s with text := lead ++ s.text }

end LoopAnalysis.Yaml
