/-!
# Caches that forget the least recent

A cache keeps at most `capacity` entries, the most recently used first. Looking an entry up counts
as a use; a new entry pushes out the one that was not used for the longest time.
-/

namespace LoopAnalysis

/-- Entries in order of their last use, the latest first. -/
structure RecencyCache (α β : Type) where
  capacity : Nat
  entries  : List (α × β) := []

namespace RecencyCache

variable {α β : Type} [DecidableEq α]

/-- The keys in order of their last use, the latest first. -/
def keys (c : RecencyCache α β) : List α := c.entries.map (·.1)

/-- The value kept for a key. -/
def find? (c : RecencyCache α β) (key : α) : Option β :=
  (c.entries.find? fun e => e.1 = key).map (·.2)

/-- The entries of all keys but `key`. -/
def others (c : RecencyCache α β) (key : α) : List (α × β) :=
  c.entries.filter fun e => e.1 ≠ key

/-- Looks a key up with `find?`, which makes its entry the latest. -/
def use? (c : RecencyCache α β) (key : α) : Option (β × RecencyCache α β) :=
  (c.find? key).map fun value => (value, { c with entries := (key, value) :: c.others key })

/-- Keeps a value for a key as the latest entry, within the `capacity`. -/
def put (c : RecencyCache α β) (key : α) (value : β) : RecencyCache α β :=
  { c with entries := ((key, value) :: c.others key).take c.capacity }

end RecencyCache

end LoopAnalysis
