import LoopAnalysis.Opinion.Reading
import LoopAnalysis.Proofs.Text.Occurrence
import Mathlib.Tactic.Common

/-!
# The entries of a batch document

A document about many candidates is a list, a record with a list under `candidates`, or a record
that numbers its entries from one. In each of these shapes the entry for a candidate stands in one
place, and nothing that stands elsewhere has a bearing on what is read from it.

## Main definitions

- `EntryFor`: where the entry for a candidate stands;
- `DiffersElsewhere`: two documents that differ in the entries for other candidates only.

## Main statements

- `entryFor_iff`: the entry that is read is the one that stands there;
- `batchEntry_eq_of_differsElsewhere`: other entries do not matter;
- `quality_ne_error_of_entryOutcome`: no entry gives an opinion without a quality.
-/

namespace LoopAnalysis

variable {index : Nat} {document : Json} {entry : Option Json}

/-! ## §1 Keys -/

/-- The key of the entry for a candidate in a record that numbers its entries. -/
def candidateKey (index : Nat) : String := "candidate_" ++ toString (index + 1)

theorem candidateKey_injective : Function.Injective candidateKey := by
  intro i j h
  have hnumbers : toString (i + 1) = toString (j + 1) :=
    (String.append_right_inj "candidate_").mp h
  exact Nat.succ.inj (Text.toString_injective hnumbers)

theorem candidateKey_ne_candidates (index : Nat) : candidateKey index ≠ "candidates" := by
  intro h
  -- The two texts part at their tenth character.
  have hchars := congrArg (fun s : String => s.toList[9]?) h
  simp [candidateKey] at hchars

/-! ## §2 Entries -/

/-- **Where the entry for a candidate stands**, counted from zero: the three shapes that
`batchEntry` tells apart, and a scalar. -/
inductive EntryFor (index : Nat) : Json → Option Json → Prop where
  /-- In a list, at its index. -/
  | listed (items : List Json) : EntryFor index (.arr items) items[index]?
  /-- In a record with a list of candidates, at its index in that list. -/
  | wrapped {entries : List (String × Json)} {items : List Json}
      (hlist : (Json.obj entries).get? "candidates" = some (.arr items)) :
      EntryFor index (.obj entries) items[index]?
  /-- In any other record, under the `candidateKey` of its number. -/
  | numbered {entries : List (String × Json)}
      (hnone : ∀ items, (Json.obj entries).get? "candidates" ≠ some (.arr items)) :
      EntryFor index (.obj entries) ((Json.obj entries).get? (candidateKey index))
  /-- A scalar has no entries. -/
  | scalar {document : Json} (hlist : ∀ items, document ≠ .arr items)
      (hrecord : ∀ entries, document ≠ .obj entries) : EntryFor index document none

/-- `batchEntry` goes through the shapes of `EntryFor` and takes what stands there. -/
theorem entryFor_batchEntry (document : Json) (index : Nat) :
    EntryFor index document (batchEntry document index) := by
  unfold batchEntry
  split
  · exact .listed _
  · split
    · next hlist => exact .wrapped hlist
    · next hnone => exact .numbered hnone
  · next hlist hrecord => exact .scalar hlist hrecord

/-- What `batchEntry` reads for a candidate is the entry that stands in its place by `EntryFor`. -/
theorem entryFor_iff : EntryFor index document entry ↔ batchEntry document index = entry := by
  constructor
  · intro h
    cases h with
    | listed items => rfl
    | wrapped hlist => simp [batchEntry, hlist]
    -- Under `candidates` there is no list here, so the lookup goes on to the number.
    | numbered hnone =>
      unfold batchEntry
      dsimp only
      split
      · next items hlist => exact absurd hlist (hnone items)
      · rfl
    | scalar hlist hrecord =>
      unfold batchEntry
      split
      · next items => exact absurd rfl (hlist items)
      · next entries => exact absurd rfl (hrecord entries)
      · rfl
  · rintro rfl
    exact entryFor_batchEntry document index

/-- Two documents of one shape that differ at most in the entries for other candidates. -/
inductive DiffersElsewhere (index : Nat) : Json → Json → Prop where
  /-- Lists with the same item at the index. -/
  | listed {items items' : List Json} (hitem : items[index]? = items'[index]?) :
      DiffersElsewhere index (.arr items) (.arr items')
  /-- Records with lists of candidates that have the same item at the index. -/
  | wrapped {entries entries' : List (String × Json)} {items items' : List Json}
      (hlist : (Json.obj entries).get? "candidates" = some (.arr items))
      (hlist' : (Json.obj entries').get? "candidates" = some (.arr items'))
      (hitem : items[index]? = items'[index]?) :
      DiffersElsewhere index (.obj entries) (.obj entries')
  /-- Records that agree under every key but the numbers of other candidates. -/
  | numbered {entries entries' : List (String × Json)}
      (hkeys : ∀ key, (∀ other, other ≠ index → key ≠ candidateKey other) →
        (Json.obj entries).get? key = (Json.obj entries').get? key) :
      DiffersElsewhere index (.obj entries) (.obj entries')

/-- **Entries for other candidates do not matter**: `batchEntry` gives the same for both documents.
-/
theorem batchEntry_eq_of_differsElsewhere {document' : Json}
    (h : DiffersElsewhere index document document') :
    batchEntry document index = batchEntry document' index := by
  cases h with
  | listed hitem => exact hitem
  | wrapped hlist hlist' hitem => simpa [batchEntry, hlist, hlist'] using hitem
  | numbered hkeys =>
    -- Neither the key of a list nor the candidate's own number is that of another candidate.
    have hlist := hkeys "candidates" fun other _ => (candidateKey_ne_candidates other).symm
    have hown := hkeys (candidateKey index) fun other hother heq =>
      hother (candidateKey_injective heq).symm
    unfold batchEntry
    dsimp only
    rw [hlist]
    split
    · rfl
    · exact hown

/-! ## §3 Opinions -/

/-- `Response.validate` turns a quality of `error` down. -/
theorem Response.quality_ne_error_of_validate {r : Response} {o : Opinion}
    (h : r.validate = .ok o) : o.quality ≠ .error := by
  unfold validate at h
  dsimp only at h
  split at h
  · cases h
  · next hquality =>
    cases h
    exact hquality

/-- An opinion that `entryOutcome` gives has passed `Response.validate`. -/
theorem quality_ne_error_of_entryOutcome {o : Opinion} (h : entryOutcome entry = .opinion o) :
    o.quality ≠ .error := by
  unfold entryOutcome at h
  split at h
  · cases h
  · split at h
    · cases h
    · split at h
      · next hvalid =>
        -- Only a response that was validated gives an opinion.
        cases h
        exact Response.quality_ne_error_of_validate hvalid
      · cases h

end LoopAnalysis
