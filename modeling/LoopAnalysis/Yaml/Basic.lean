import LoopAnalysis.Yaml.Token

/-!
# YAML documents

A node is a scalar, a list or a mapping, or refers to a node that is written elsewhere in the
document.
-/

namespace LoopAnalysis

/-- A node of a YAML document. An alias has the number of an anchor. -/
inductive Yaml where
  | scalar (style : Yaml.ScalarStyle) (tag : Option String) (text : String)
  | seq (items : List Yaml)
  | map (entries : List (Yaml × Yaml))
  | alias (number : Nat)
deriving Inhabited

namespace Yaml

/-- The node that stands where nothing is written. -/
def absent : Yaml := .scalar .plain none ""

/-- Nothing is written, at most a tag: the node is `absent` up to that. -/
def isAbsent : Yaml → Bool
  | .scalar .plain _ "" => true
  | _ => false

/-- A node under an anchor. Nodes may share a `number`; `order` says which of them starts later. -/
structure AnchoredNode where
  number : Nat
  order  : Nat
  node   : Yaml

/-- A document: its outermost node `root`, and the nodes that an `alias` refers to. -/
structure Document where
  root     : Yaml
  anchored : List AnchoredNode

/-- The document of a text without any, whose node is `absent`. -/
def Document.empty : Document := ⟨absent, []⟩

/-- The node under a number; of several the one that starts last. -/
def Document.get? (d : Document) (number : Nat) : Option Yaml :=
  ((d.anchored.filter (·.number == number)).foldl (fun best a =>
    if best.all (·.order < a.order) then some a else best) none).map (·.node)

/-- The node itself, or for an `alias` the one that it refers to. -/
def Document.resolve (d : Document) : Yaml → Option Yaml
  | .alias number => d.get? number
  | y => some y

end Yaml

end LoopAnalysis
