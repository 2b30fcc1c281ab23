import LoopAnalysis.Opinion.Basic
import LoopAnalysis.Json.Parser

/-!
# Reading opinions

Finds the document in the raw text of a classifier and reads one opinion, or one for each candidate
of a batch.
-/

namespace LoopAnalysis

/-! ## §1 The document in a text -/

/-- The fence around a block of code. -/
def codeFence : List Char := ['\x60', '\x60', '\x60']

/-- Whether a character opens a document. -/
def opensDocument (c : Char) : Bool := c == '\x7b' || c == '['

/-- Whether a character closes a document. -/
def closesDocument (c : Char) : Bool := c == '\x7d' || c == ']'

/-- The text of the first block between two `codeFence`s. -/
def fenced? (cs : List Char) : Option (List Char) := do
  let (_, body) ← Text.cutAt codeFence cs
  let (inside, _) ← Text.cutAt codeFence (Text.dropLeading "json".toList body)
  return Text.trimChars inside

/-- The text from the first character that `opensDocument` to the last that `closesDocument`. -/
def bracketed? (cs : List Char) : Option (List Char) :=
  let fromOpening := cs.dropWhile fun c => !opensDocument c
  let upToClosing := (fromOpening.reverse.dropWhile fun c => !closesDocument c).reverse
  if fromOpening.isEmpty || upToClosing.isEmpty then none else some upToClosing

/-- The document in a text, without fences and the words around it: what is `fenced?`, else what is
`bracketed?`, else the whole text. -/
def extractDocument (text : String) : String :=
  let cs := Text.trimChars text.toList
  String.ofList (((fenced? cs).or (bracketed? cs)).getD cs)

/-! ## §2 Opinions -/

/-- The opinion `Opinion.ofResponse` of a response, which has to name a quality. -/
def Response.validate (r : Response) : Except ClassifierError Opinion :=
  let o := Opinion.ofResponse r
  if o.quality = .error then
    .error (.reported (if o.reasoning.isEmpty then "no usable quality label" else o.reasoning))
  else .ok o

/-- Reads one opinion from the raw text of a classifier: the document that `extractDocument` cuts
out, read as a `Response`. -/
def parseOpinion (raw : String) : Except ClassifierError Opinion :=
  match (Json.parse (extractDocument raw)).bind Response.ofJson? with
  | some r => r.validate
  | none => .error .malformed

/-- The outcome for one entry of a batch, whose `Response` is checked by `Response.validate`. -/
def entryOutcome (entry : Option Json) : Outcome :=
  match entry with
  | none => .unavailable .malformed
  | some j =>
    match Response.ofJson? j with
    | none => .unavailable .malformed
    | some r =>
      match r.validate with
      | .ok o => .opinion o
      | .error e => .unavailable e.reason

/-- The entry of a batch for the candidate at an index: from a list, from a list under
`candidates`, or under a key with the number of the candidate. -/
def batchEntry (document : Json) (index : Nat) : Option Json :=
  match document with
  | .arr items => items[index]?
  | .obj _ =>
    match document.get? "candidates" with
    | some (.arr items) => items[index]?
    | _ => document.get? ("candidate_" ++ toString (index + 1))
  | _ => none

/-- The most candidates for whose outcomes there can be room, at 88 bytes each in an address space
of `2 ^ 63`. -/
def batchLimit : Nat := 104811045873349725

/-- Reads the outcomes for a batch of candidates from the raw text of a classifier: the document
that `extractDocument` cuts out, taken apart by `batchEntry`. -/
def parseBatch (raw : String) (expected : Nat) : List Outcome :=
  match Json.parseValue (extractDocument raw) with
  | none => List.replicate expected (.unavailable .malformed)
  | some document => (List.range expected).map fun i => entryOutcome (batchEntry document i)

end LoopAnalysis
