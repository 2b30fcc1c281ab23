import LoopAnalysis.Yaml.Basic

/-!
# From tokens to documents

Lists and mappings by indentation or in brackets, with anchors and tags before their nodes. A text
holds at most one document.

The rules read tokens from a state, and fail where a token does not fit. They call each other with
ever less fuel; a rule takes a token or two for each call, so that the number of tokens bounds the
depth.
-/

namespace LoopAnalysis.Yaml

/-! ## §1 The state of a parser -/

/-- What is still to be parsed, and the names that the document has given so far. -/
structure ParserState where
  tokens   : List Token
  /-- What the handles of tags stand for. -/
  handles  : List (String × String)
  /-- The numbers of the anchors. -/
  numbers  : List (String × Nat) := []
  /-- How many nodes under anchors have started. -/
  started  : Nat := 0
  anchored : List AnchoredNode := []

/-- A rule that takes a `Token` or several from a `ParserState` and gives a result. -/
abbrev Parse := StateT ParserState Option

/-- The next token. -/
def peek : Parse (Option Token) := return (← get).tokens.head?

/-- Passes over the token that `peek` sees. -/
def pass : Parse Unit := modify fun s => { s with tokens := s.tokens.tail }

/-- Takes the next token. -/
def take : Parse (Option Token) := do
  let t ← peek
  pass
  return t

/-- Takes the token `t`, which has to come next. -/
def expect (t : Token) : Parse Unit := do
  if (← take) != some t then failure

/-! ## §2 Anchors and tags -/

/-- What stands before a `node`. -/
structure Properties where
  anchor : Option String := none
  tag    : Option String := none

/-- The identifier of a `Tag`, whose handle has to be among the `handles` of the state. -/
def identify (t : Tag) : Parse String := do
  if t.handle.isEmpty then return t.suffix
  match (← get).handles.find? (·.1 == t.handle) with
  | some (_, start) => return start ++ t.suffix
  | none => failure

/-- An anchor and a tag, in either order. -/
def properties : Parse Properties := do
  match ← peek with
  | some (.anchor name) =>
    pass
    match ← peek with
    | some (.tag t) => pass; return ⟨some name, some (← identify t)⟩
    | _ => return { anchor := some name }
  | some (.tag t) =>
    pass
    match ← peek with
    | some (.anchor name) => pass; return ⟨some name, some (← identify t)⟩
    | _ => return { tag := some (← identify t) }
  | _ => return {}

/-- Starts a node under an anchor. It gets the count of the `numbers` so far as its number, which a
name given again therefore shares with the next new one. -/
def startAnchor (name : String) : Parse (Nat × Nat) := do
  let s ← get
  let number := s.numbers.length
  set { s with
    numbers := (name, number) :: s.numbers.filter (·.1 != name)
    started := s.started + 1 }
  return (number, s.started)

/-- Ends a node that `startAnchor` started. -/
def endAnchor (start : Nat × Nat) (node : Yaml) : Parse Unit :=
  modify fun s => { s with anchored := ⟨start.1, start.2, node⟩ :: s.anchored }

/-- The `alias` of an anchor that the document has given. -/
def aliasOf (name : String) : Parse Yaml := do
  match (← get).numbers.find? (·.1 == name) with
  | some (_, number) => return .alias number
  | none => failure

/-! ## §3 Nodes -/

/-- Whether the next token is one of `tokens`. -/
def comes (tokens : List Token) : Parse Bool := return (← peek).any tokens.contains

mutual

/-- A node. Outside of brackets it may be laid out by indentation; the key or value of a mapping
may also be a list whose dashes hang in the column of the mapping. -/
def node : (fuel : Nat) → (block hanging : Bool) → Parse Yaml
  | 0, _, _ => failure
  | fuel + 1, block, hanging => do
    if let some (.alias name) ← peek then
      pass
      return ← aliasOf name
    let p ← properties
    let start ← p.anchor.mapM startAnchor
    let y ← content fuel block hanging p
    if let some start := start then endAnchor start y
    return y

/-- A node after its `properties`. Where nothing follows them the node is empty. -/
def content : (fuel : Nat) → (block hanging : Bool) → Properties → Parse Yaml
  | 0, _, _, _ => failure
  | fuel + 1, block, hanging, p => do
    match ← peek, block, hanging with
    | some .dash, _, true => return .seq (← hangingItems fuel)
    | some (.scalar style text), _, _ => pass; return .scalar style p.tag text
    | some .openBracket, _, _ => pass; return .seq (← flowItems fuel true)
    | some .openBrace, _, _ => pass; return .map (← flowEntries fuel true)
    | some .openItems, true, _ => pass; return .seq (← blockItems fuel)
    | some .openEntries, true, _ => pass; return .map (← blockEntries fuel)
    | _, _, _ =>
      if p.anchor.isSome || p.tag.isSome then return .scalar .plain p.tag "" else failure

/-- A `node`, which is `absent` before one of the tokens `stops`. -/
def nodeUnless : (fuel : Nat) → (block hanging : Bool) → List Token → Parse Yaml
  | 0, _, _, _ => failure
  | fuel + 1, block, hanging, stops => do
    if ← comes stops then return absent
    node fuel block hanging

/-- The items of a list laid out by indentation, up to its `dedent`. -/
def blockItems : (fuel : Nat) → Parse (List Yaml)
  | 0 => failure
  | fuel + 1 => do
    match ← take with
    | some .dash =>
      let item ← nodeUnless fuel true false [.dash, .dedent]
      return item :: (← blockItems fuel)
    | some .dedent => return []
    | _ => failure

/-- The items of a list that hangs in the column of a mapping; it ends before anything else. -/
def hangingItems : (fuel : Nat) → Parse (List Yaml)
  | 0 => failure
  | fuel + 1 => do
    if !(← comes [.dash]) then return []
    pass
    let item ← nodeUnless fuel true false [.dash, .key, .colon, .dedent]
    return item :: (← hangingItems fuel)

/-- The entries of a mapping laid out by indentation, up to its `dedent`. -/
def blockEntries : (fuel : Nat) → Parse (List (Yaml × Yaml))
  | 0 => failure
  | fuel + 1 => do
    match ← take with
    | some .key =>
      let key ← nodeUnless fuel true true [.key, .colon, .dedent]
      let value ← valueOf fuel true [.key, .colon, .dedent]
      return (key, value) :: (← blockEntries fuel)
    | some .dedent => return []
    | _ => failure

/-- The value of a key: what follows a `colon`, if there is one. -/
def valueOf : (fuel : Nat) → (block : Bool) → (stops : List Token) → Parse Yaml
  | 0, _, _ => failure
  | fuel + 1, block, stops => do
    if !(← comes [.colon]) then return absent
    pass
    nodeUnless fuel block block stops

/-- The items of a list in brackets, after the opening one. Items are separated by a `comma`, and
one may follow the last. A key with a value is an item that is a mapping of its own, a `flowPair`.
-/
def flowItems : (fuel : Nat) → (first : Bool) → Parse (List Yaml)
  | 0, _ => failure
  | fuel + 1, first => do
    if !(first || (← comes [.closeBracket])) then expect .comma
    match ← peek with
    | some .closeBracket => pass; return []
    | some .key =>
      pass
      let entry ← flowPair fuel
      return .map [entry] :: (← flowItems fuel false)
    | _ =>
      let item ← node fuel false false
      return item :: (← flowItems fuel false)

/-- The entry of a mapping that is an item. The token after an empty key is passed over. -/
def flowPair : (fuel : Nat) → Parse (Yaml × Yaml)
  | 0 => failure
  | fuel + 1 => do
    let empty ← comes [.colon, .comma, .closeBracket]
    if empty then pass
    let key ← if empty then pure absent else node fuel false false
    return (key, ← valueOf fuel false [.comma, .closeBracket])

/-- The entries of a mapping in braces, after the opening one. A key may lack a value. -/
def flowEntries : (fuel : Nat) → (first : Bool) → Parse (List (Yaml × Yaml))
  | 0, _ => failure
  | fuel + 1, first => do
    if !(first || (← comes [.closeBrace])) then expect .comma
    match ← peek with
    | some .closeBrace => pass; return []
    | some .key =>
      pass
      let key ← nodeUnless fuel false false [.colon, .comma, .closeBrace]
      let value ← valueOf fuel false [.comma, .closeBrace]
      return (key, value) :: (← flowEntries fuel false)
    | _ =>
      let key ← node fuel false false
      return (key, absent) :: (← flowEntries fuel false)

end

/-! ## §4 Documents -/

/-- What a text says about itself: its version, and what handles stand for. -/
structure Preamble where
  version : Option (Nat × Nat) := none
  handles : List (String × String) := []

/-- Takes a `Directive` into account. Each may be given once, and only two versions are known. -/
def Preamble.add? (p : Preamble) : Directive → Option Preamble
  | .version major minor =>
    if p.version.isNone && major == 1 && (minor == 1 || minor == 2) then
      some { p with version := some (major, minor) }
    else none
  | .handle name start =>
    if p.handles.any (·.1 == name) then none
    else some { p with handles := p.handles ++ [(name, start)] }

/-- The handles that stand for something without a directive. -/
def standardHandles : List (String × String) := [("!", "!"), ("!!", "tag:yaml.org,2002:")]

/-- The directives in front of a document, taken together as a `Preamble`. -/
def preamble : Preamble → List Token → Option (Preamble × List Token)
  | p, .directive d :: rest => do preamble (← p.add? d) rest
  | p, rest => some (p, rest)

/-- A `Document` in a list of tokens, and the tokens after it. After directives it has to be
announced, and only an announced document may be empty. -/
def document (tokens : List Token) : Option (Document × List Token) := do
  let (p, rest) ← preamble {} tokens
  let announced := rest.head? == some .startMark
  if !announced && rest.length != tokens.length then none
  let body := if announced then rest.tail else rest
  let start : ParserState := { tokens := body, handles := p.handles ++ standardHandles }
  let isEmpty := match body with
    | [] | .directive _ :: _ | .startMark :: _ | .endMark :: _ => true
    | _ => false
  if announced && isEmpty then return (.empty, body)
  let (root, s) ← (node (4 * body.length + 8) true false).run start
  return (⟨root, s.anchored⟩, s.tokens)

/-- The one `Document` of a text; a text may also have none. -/
def parse (text : String) : Option Document := do
  let tokens ← tokenize text
  if tokens.isEmpty then return .empty
  let (d, rest) ← document tokens
  if rest.all (· == .endMark) then return d else none

end LoopAnalysis.Yaml
