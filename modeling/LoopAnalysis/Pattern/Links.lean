import LoopAnalysis.Pattern.Policy
import LoopAnalysis.Program.Nest

/-!
# Links that an analysis follows

A function may name loops that it does not have. An analysis of one loop fails over such a broken
link only when it follows it: every analysis looks at all loops around and at the chain of single
loops below, an index that the loop itself does not explain is looked for in every loop inside, and
one recognizer looks at the loops directly inside.

## Main definitions

- `Function.loopInScene?`: the loop at a position, with the links that its scene follows in order;
- `Function.loopToLabel?`: the same with the links that a matcher follows in order as well.
-/

namespace LoopAnalysis

/-- Some index of an access can only be understood from the loops inside, as `classifyOwn` has no
answer. -/
def Loop.looksInside (lp : Loop) : Bool :=
  lp.accesses.any (·.indices.any fun op => (lp.classifyOwn op).isNone)

/-- Whether a recognizer of a kind is asked about a scene, which is so unless an earlier one has
`evidence?`. -/
def Matcher.tries (m : Matcher) (kind : PatternKind) (s : Scene) : Bool :=
  (m.recognizers.find? fun r => r.kind == kind || (Matcher.evidence? s r).isSome).any
    (·.kind == kind)

namespace Function

/-- The broken link that stands in the way of the scene of the loop at a position: a
`brokenAncestor`, one in its `brokenChain`, or one below it where the scene `looksInside`. -/
def brokenForScene (f : Function) (p : Nat) (lp : Loop) : Option BrokenLink :=
  f.brokenAncestor p <|> f.brokenChain (f.loops.length + 1) p <|>
    if lp.looksInside then f.brokenBelow p else none

/-- The broken link that stands in the way of a label for the loop at a position, beyond
`brokenForScene`. -/
def brokenForLabel (f : Function) (m : Matcher) (p : Nat) (lp : Loop) : Option BrokenLink :=
  if lp.inductionVariable.isSome && m.tries .filter (Scene.of lp) then f.brokenChild p else none

/-- The loop at a position, if there is one, seen in one of three ways. Only an `indexed` loop, seen
through the tables of its function, follows broken links. -/
def loopInScene? (f : Function) (view : LoopView) (p : Nat) : Except BrokenLink (Option Loop) :=
  match f.loop? view p with
  | none => .ok none
  | some lp =>
    match if view = .indexed then f.brokenForScene p lp else none with
    | some link => .error link
    | none => .ok (some lp)

/-- The `loopInScene?`, if there is one, which a matcher can label. -/
def loopToLabel? (f : Function) (m : Matcher) (p : Nat) : Except BrokenLink (Option Loop) := do
  match ← f.loopInScene? .indexed p with
  | none => return none
  | some lp =>
    match f.brokenForLabel m p lp with
    | some link => throw link
    | none => return some lp

end Function

end LoopAnalysis
