import LoopAnalysis.Classifier.Cache
import Mathlib.Data.Finset.Dedup
import Mathlib.Data.Finset.Card

/-!
# What a cache of recent entries holds

A cache that forgets the least recent entry is described by the list of all uses made of it, the
latest first: its keys are the first distinct ones of that list, as many as there is room for. So a
key is found exactly when fewer distinct others were used since its last use than there is room for.

## Main definitions

- `UsedSince`: a key was used, and few others since;
- `RecencyCache.Holds`: the keys of a cache are the latest of a list of uses.

## Main statements

- `mem_take_eraseDups_iff`: which keys are among the latest distinct ones;
- `RecencyCache.Holds.put`: keeping a value is one more use;
- `RecencyCache.Holds.use?_eq`: looking a key up is keeping the value that is found;
- `RecencyCache.Holds.isSome_find?_iff`: which keys are found.
-/

namespace LoopAnalysis

/-! ## §1 The latest distinct elements of a list -/

section Distinct

variable {α : Type} [DecidableEq α]

theorem filter_eraseDups (p : α → Bool) (uses : List α) :
    uses.eraseDups.filter p = (uses.filter p).eraseDups := by
  -- The copies that go are those of the first element, so the lists get shorter.
  induction hlength : uses.length using Nat.strong_induction_on generalizing uses with
  | _ n ih =>
    cases uses with
    | nil => simp
    | cons key earlier =>
      have hshort : (earlier.filter fun other => !other == key).length < n := by
        rw [← hlength, List.length_cons]
        exact Nat.lt_succ_of_le (List.length_filter_le _ _)
      have hrest := ih _ hshort _ rfl
      rw [List.eraseDups_cons]
      by_cases hkey : p key = true
      · rw [List.filter_cons_of_pos hkey, List.filter_cons_of_pos hkey, List.eraseDups_cons, hrest,
          List.filter_filter, List.filter_filter]
        simp only [Bool.and_comm]
      · rw [List.filter_cons_of_neg hkey, List.filter_cons_of_neg hkey, hrest, List.filter_filter]
        -- What does not pass the test is another element than the first already.
        congr 1
        apply List.filter_congr
        intro other _
        by_cases heq : other = key
        · simp [heq, hkey]
        · simp [heq]

theorem eraseDups_cons_eq (key : α) (earlier : List α) :
    (key :: earlier).eraseDups = key :: earlier.eraseDups.filter (· ≠ key) := by
  rw [List.eraseDups_cons, filter_eraseDups]
  congr 3
  funext other
  by_cases heq : other = key <;> simp [heq]

theorem nodup_eraseDups (uses : List α) : uses.eraseDups.Nodup := by
  induction uses with
  | nil => simp
  | cons key earlier ih =>
    rw [eraseDups_cons_eq, List.nodup_cons]
    exact ⟨by simp, ih.filter _⟩

theorem length_eraseDups (uses : List α) : uses.eraseDups.length = uses.toFinset.card := by
  rw [← List.toFinset_card_of_nodup (nodup_eraseDups uses)]
  congr 1
  ext key
  simp

/-- In a list of uses, the latest first, `key` occurs and has fewer than `room` distinct keys before
it: it was used, and fewer than `room` others were since. -/
def UsedSince (room : Nat) (uses : List α) (key : α) : Prop :=
  ∃ since before, uses = since ++ key :: before ∧ key ∉ since ∧ since.toFinset.card < room

/-- **The latest distinct elements** are those with few distinct others before their first
occurrence, as `UsedSince` says. -/
theorem mem_take_eraseDups_iff {room : Nat} {uses : List α} {key : α} :
    key ∈ uses.eraseDups.take room ↔ UsedSince room uses key := by
  -- Up to the first occurrence of the key there are as many places as distinct keys.
  have hplace {since before : List α} (hnew : key ∉ since) :
      key ∈ (since ++ key :: before).eraseDups.take room ↔ since.toFinset.card < room := by
    have hkeep : (key :: before).removeAll since = key :: before.removeAll since := by
      simp [List.cons_removeAll, hnew]
    rw [List.eraseDups_append, hkeep, List.eraseDups_cons, ← length_eraseDups, List.take_append,
      List.mem_append]
    have habsent : key ∉ since.eraseDups.take room := by
      intro hmem
      exact hnew (List.mem_eraseDups.mp (List.mem_of_mem_take hmem))
    constructor
    · rintro (hmem | hmem)
      · exact absurd hmem habsent
      · by_contra hfull
        have hzero : room - since.eraseDups.length = 0 := by omega
        rw [hzero] at hmem
        simp at hmem
    · intro hroom
      obtain ⟨more, hmore⟩ := Nat.exists_eq_add_of_lt hroom
      have hone : room - since.eraseDups.length = more + 1 := by omega
      rw [hone]
      exact .inr List.mem_cons_self
  constructor
  · intro hmem
    have hused : key ∈ uses := List.mem_eraseDups.mp (List.mem_of_mem_take hmem)
    obtain ⟨since, before, rfl, hnew⟩ := List.eq_append_cons_of_mem hused
    exact ⟨since, before, rfl, hnew, (hplace hnew).mp hmem⟩
  · rintro ⟨since, before, rfl, hnew, hroom⟩
    exact (hplace hnew).mpr hroom

/-- One more use puts a key in front of the others; of these only what there is `room` for matters.
-/
theorem take_eraseDups_cons (room : Nat) (key : α) (uses : List α) :
    (key :: (uses.eraseDups.take room).filter (· ≠ key)).take room =
      (key :: uses).eraseDups.take room := by
  rw [eraseDups_cons_eq]
  cases room with
  | zero => simp
  | succ n =>
    have hnodup := nodup_eraseDups uses
    generalize uses.eraseDups = latest at hnodup ⊢
    rw [List.take_succ_cons, List.take_succ_cons]
    congr 1
    -- The latest keys fall into those with room and those without.
    have hsplit : latest.filter (· ≠ key) =
        (latest.take (n + 1)).filter (· ≠ key) ++ (latest.drop (n + 1)).filter (· ≠ key) := by
      rw [← List.filter_append, List.take_append_drop]
    by_cases hlong : n + 1 ≤ latest.length
    · -- There is at most one copy of the key, so that the others with room are enough.
      have henough : n ≤ ((latest.take (n + 1)).filter (· ≠ key)).length := by
        have hkept : (latest.take (n + 1)).Nodup := hnodup.sublist (List.take_sublist _ _)
        have herase : (latest.take (n + 1)).filter (· ≠ key) = (latest.take (n + 1)).erase key := by
          rw [hkept.erase_eq_filter]
          apply List.filter_congr
          intro other _
          rw [bne, Bool.eq_iff_iff]
          simp
        rw [herase, List.length_erase, List.length_take]
        split <;> omega
      rw [hsplit, List.take_append_of_le_length henough]
    · rw [List.take_of_length_le (l := latest) (by omega)]

end Distinct

/-! ## §2 Keys and uses -/

namespace RecencyCache

variable {α β : Type} [DecidableEq α] {c : RecencyCache α β} {uses : List α} {key : α} {value : β}

@[simp] theorem capacity_put : (c.put key value).capacity = c.capacity := rfl

theorem map_fst_others : (c.others key).map (·.1) = c.keys.filter (· ≠ key) := by
  rw [others, keys, List.filter_map]
  rfl

theorem keys_put :
    (c.put key value).keys = (key :: c.keys.filter (· ≠ key)).take c.capacity := by
  rw [← map_fst_others, put, keys, List.map_take, List.map_cons]

/-- A key is found by `find?` exactly when it is kept. -/
theorem isSome_find?_iff_mem_keys : (c.find? key).isSome = true ↔ key ∈ c.keys := by
  simp [find?, keys]

theorem mem_entries_of_find? (h : c.find? key = some value) : (key, value) ∈ c.entries := by
  obtain ⟨⟨found, kept⟩, hfind, rfl⟩ := Option.map_eq_some_iff.mp h
  have hkey : found = key := by simpa using List.find?_some hfind
  rw [← hkey]
  exact List.mem_of_find?_eq_some hfind

/-- An entry after `put` is the one that was kept last or an earlier one of another key. -/
theorem mem_entries_put {entry : α × β} (h : entry ∈ (c.put key value).entries) :
    entry = (key, value) ∨ entry ∈ c.entries ∧ entry.1 ≠ key := by
  rcases List.mem_cons.mp (List.mem_of_mem_take h) with heq | hother
  · exact .inl heq
  · obtain ⟨hentry, hkey⟩ := List.mem_filter.mp hother
    exact .inr ⟨hentry, by simpa using hkey⟩

/-- The keys of a cache are the latest distinct ones of a list of uses, as many as there is room
for. -/
def Holds (c : RecencyCache α β) (uses : List α) : Prop :=
  c.keys = uses.eraseDups.take c.capacity

namespace Holds

/-- A cache without entries holds the keys of no use. -/
theorem empty (capacity : Nat) : Holds (⟨capacity, []⟩ : RecencyCache α β) [] := by
  simp [Holds, keys]

theorem nodup (h : c.Holds uses) : c.keys.Nodup := by
  rw [h]
  exact (nodup_eraseDups uses).sublist (List.take_sublist _ _)

theorem length_le (h : c.Holds uses) : c.entries.length ≤ c.capacity := by
  have hkeys : c.entries.length = c.keys.length := (List.length_map _).symm
  rw [hkeys, h]
  exact List.length_take_le _ _

/-- **Which keys are found**: those with fewer distinct others used since than there is room for. -/
theorem isSome_find?_iff (h : c.Holds uses) :
    (c.find? key).isSome = true ↔ UsedSince c.capacity uses key := by
  rw [isSome_find?_iff_mem_keys, h, mem_take_eraseDups_iff]

/-- **Keeping a value with `put` is one more use** of its key. -/
theorem put (h : c.Holds uses) : (c.put key value).Holds (key :: uses) := by
  rw [Holds, keys_put, h, capacity_put]
  exact take_eraseDups_cons c.capacity key uses

/-- **Looking a key up with `use?` is keeping the value that is found**: nothing is pushed out for
it. -/
theorem use?_eq (h : c.Holds uses) :
    c.use? key = (c.find? key).map fun value => (value, c.put key value) := by
  unfold use?
  cases hfind : c.find? key with
  | none => rfl
  | some value =>
    rw [Option.map_some, Option.map_some, RecencyCache.put]
    congr 3
    -- The key has a place already, which its new entry takes.
    rw [List.take_of_length_le]
    have hkey : key ∈ c.keys := isSome_find?_iff_mem_keys.mp (by rw [hfind]; rfl)
    have hothers : (c.others key).length = (c.keys.filter (· ≠ key)).length := by
      rw [← map_fst_others, List.length_map]
    have hfewer : (c.keys.filter (· ≠ key)).length < c.keys.length :=
      List.length_filter_lt_length_iff_exists.mpr ⟨key, hkey, by simp⟩
    have hkeys : c.keys.length = c.entries.length := List.length_map _
    have hroom := h.length_le
    rw [List.length_cons]
    omega

end Holds

end RecencyCache

end LoopAnalysis
