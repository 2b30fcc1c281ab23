import LoopAnalysis.Text.Basic
import Mathlib.Tactic.Common

/-!
# Sorted sets of text

Collecting texts one by one into an ascending list keeps each of them once.

## Main statements

- `mem_sortedSet`: the texts that are collected are those that were given;
- `pairwise_sortedSet`: they stand in strictly ascending order, so none of them stands there twice.
-/

namespace LoopAnalysis.Text

/-! ## §1 One text -/

theorem mem_insertSorted {s t : String} {ts : List String} :
    s ∈ insertSorted t ts ↔ s = t ∨ s ∈ ts := by
  induction ts with
  | nil => simp [insertSorted]
  | cons u us ih =>
    unfold insertSorted
    split
    · next htu => simp [htu]
    · split
      · rw [List.mem_cons]
      · rw [List.mem_cons, ih, List.mem_cons, or_left_comm]

/-- A text that `insertSorted` puts into an ascending list leaves it ascending. -/
theorem pairwise_insertSorted (t : String) {ts : List String} (h : ts.Pairwise (· < ·)) :
    (insertSorted t ts).Pairwise (· < ·) := by
  induction ts with
  | nil => exact List.pairwise_singleton _ _
  | cons u us ih =>
    obtain ⟨hu, hus⟩ := List.pairwise_cons.mp h
    unfold insertSorted
    split
    · exact h
    · next hne =>
      split
      · next hlt =>
        -- The text goes to the front: it is below the head, which is below the rest.
        refine List.pairwise_cons.mpr ⟨fun v hv => ?_, h⟩
        obtain rfl | hv := List.mem_cons.mp hv
        · exact hlt
        · exact String.lt_trans hlt (hu v hv)
      · next hnot =>
        -- The text goes further down, and what is put in behind the head is above it.
        have hlt : u < t := Std.lt_of_le_of_ne (String.not_lt.mp hnot) (Ne.symm hne)
        refine List.pairwise_cons.mpr ⟨fun v hv => ?_, ih hus⟩
        obtain rfl | hv := mem_insertSorted.mp hv
        · exact hlt
        · exact hu v hv

/-! ## §2 All of them -/

private theorem mem_foldl_insertSorted {s : String} (ts start : List String) :
    s ∈ ts.foldl (fun acc t => insertSorted t acc) start ↔ s ∈ start ∨ s ∈ ts := by
  induction ts generalizing start with
  | nil => simp
  | cons t ts ih =>
    rw [List.foldl_cons, ih, mem_insertSorted, List.mem_cons, or_assoc, or_left_comm]

private theorem pairwise_foldl_insertSorted (ts : List String) {start : List String}
    (h : start.Pairwise (· < ·)) :
    (ts.foldl (fun acc t => insertSorted t acc) start).Pairwise (· < ·) := by
  induction ts generalizing start with
  | nil => exact h
  | cons t ts ih => exact ih (pairwise_insertSorted t h)

/-- A `sortedSet` has the members of the list it was made from. -/
@[simp] theorem mem_sortedSet {s : String} {ts : List String} : s ∈ sortedSet ts ↔ s ∈ ts := by
  rw [sortedSet, mem_foldl_insertSorted]
  simp

/-- A `sortedSet` is strictly ascending. -/
theorem pairwise_sortedSet (ts : List String) : (sortedSet ts).Pairwise (· < ·) :=
  pairwise_foldl_insertSorted ts .nil

end LoopAnalysis.Text
