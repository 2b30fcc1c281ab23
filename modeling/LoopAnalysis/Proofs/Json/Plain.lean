import LoopAnalysis.Json.Decode
import LoopAnalysis.Proofs.Json.Extent
import Mathlib.Data.List.Forall2

/-!
# Plain values and records

A document is turned into a plain value before it is taken apart entry by entry. This refuses what
cannot be read or is nested too deep, and of two entries under one key it keeps the later one. A
record that is read from the document itself passes over all entries that it does not ask for, and
refuses a field that is given twice. Otherwise the two ways come to the same.

## Main definitions

- `Json.Plain`: what has a plain value;
- `Json.ReadsPlain`: a reader for which it makes no difference whether it is given a document or
  its plain value;
- `Json.Settled`: an entry and its plain value.

## Main statements

- `settle_isSome_iff`: the documents that have a plain value;
- `ReadsPlain.list`: reading a list from its plain value;
- `collect_settled`: the fields of a record and their plain values;
- `collect_eq_none_of_repeated`: a field under two equal keys is refused.
-/

namespace LoopAnalysis.Json

variable {α : Type} {room : Nat} {j : Json} {read : Json → Option α}

/-! ## §1 Plain values -/

/-- **What has a plain value**: nothing in it is unreadable, and lists and records are nested at
most `room` deep. -/
inductive Plain : (room : Nat) → Json → Prop where
  | scalar {room : Nat} {j : Json} (hscalar : j.isBracketed = false) (hread : j ≠ .unreadable) :
      Plain room j
  | arr {room : Nat} {items : List Json} (h : ∀ j ∈ items, Plain room j) :
      Plain (room + 1) (.arr items)
  | obj {room : Nat} {entries : List (String × Json)} (h : ∀ e ∈ entries, Plain room e.2) :
      Plain (room + 1) (.obj entries)

theorem settle_scalar (hscalar : j.isBracketed = false) (hread : j ≠ .unreadable) :
    settle room j = some j := by
  cases j with
  | arr | obj => cases hscalar
  | unreadable => exact absurd rfl hread
  | null | bool | int | float | str => simp [settle]

theorem settleItems_isSome_iff {items : List Json} :
    (settleItems room items).isSome = true ↔ ∀ j ∈ items, (settle room j).isSome = true := by
  induction items with
  | nil => simp [settleItems]
  | cons j items ih =>
    rw [List.forall_mem_cons, ← ih, settleItems]
    cases settle room j <;> cases settleItems room items <;> simp

theorem settleEntries_isSome_iff {entries done : List (String × Json)} :
    (settleEntries room entries done).isSome = true ↔
      ∀ e ∈ entries, (settle room e.2).isSome = true := by
  induction entries generalizing done with
  | nil => simp [settleEntries]
  | cons e entries ih =>
    obtain ⟨key, j⟩ := e
    rw [List.forall_mem_cons, settleEntries]
    cases hsettle : settle room j with
    | none => simp
    | some v => simpa using ih

/-- **The documents that have a plain value**: `settle` succeeds exactly on what is `Plain`. -/
theorem settle_isSome_iff : (settle room j).isSome = true ↔ Plain room j := by
  constructor
  · intro h
    -- Each bracket takes one level of the room, so induct on it.
    induction room generalizing j with
    | zero =>
      cases j with
      | arr | obj | unreadable => simp [settle] at h
      | null | bool | int | float | str => exact .scalar rfl (by simp)
    | succ room ih =>
      cases j with
      | arr items =>
        rw [settle, Option.isSome_map, settleItems_isSome_iff] at h
        exact .arr fun j hj => ih (h j hj)
      | obj entries =>
        rw [settle, Option.isSome_map, settleEntries_isSome_iff] at h
        exact .obj fun e he => ih (h e he)
      | unreadable => simp [settle] at h
      | null | bool | int | float | str => exact .scalar rfl (by simp)
  · intro h
    -- Back again along the derivation: items and entries have plain values.
    induction h with
    | scalar hscalar hread => simp [settle_scalar hscalar hread]
    | arr _ ih =>
      rw [settle, Option.isSome_map, settleItems_isSome_iff]
      exact ih
    | obj _ ih =>
      rw [settle, Option.isSome_map, settleEntries_isSome_iff]
      exact ih

theorem settle_obj_eq_none {entries : List (String × Json)} {e : String × Json} (he : e ∈ entries)
    (h : ¬ Plain room e.2) : settle (room + 1) (.obj entries) = none := by
  rw [← Option.not_isSome_iff_eq_none, settle_isSome_iff]
  intro hplain
  cases hplain with
  | scalar hscalar _ => cases hscalar
  | obj hentries => exact h (hentries e he)

/-! ## §2 Reading plain values -/

/-- **A reader for which plain values make no difference**: what it reads from what `settle` makes
of a document it reads from the document itself, and it reads nothing where there is no plain value.
-/
def ReadsPlain (room : Nat) (read : Json → Option α) : Prop :=
  ∀ j, (settle room j).bind read = read j

/-- So it is with readers of scalars, which read nothing from lists and records. -/
theorem readsPlain_of_scalar (hbracketed : ∀ j, j.isBracketed = true → read j = none)
    (hunreadable : read .unreadable = none) : ReadsPlain room read := by
  intro j
  -- Lists and records stay such, and readable scalars are their own plain values.
  cases hj : j.isBracketed with
  | true =>
    rw [hbracketed j hj, Option.bind_eq_none_iff]
    intro v hv
    exact hbracketed v ((isBracketed_of_settle hv).trans hj)
  | false =>
    by_cases hread : j = .unreadable
    · simp [hread, settle, hunreadable]
    · simp [settle_scalar hj hread]

theorem readsPlain_text? : ReadsPlain room text? := by
  refine readsPlain_of_scalar (fun j hj => ?_) rfl
  cases j with
  | arr | obj => rfl
  | null | bool | int | float | str | unreadable => cases hj

theorem readsPlain_number? : ReadsPlain room number? := by
  refine readsPlain_of_scalar (fun j hj => ?_) rfl
  cases j with
  | arr | obj => rfl
  | null | bool | int | float | str | unreadable => cases hj

theorem option?_of_ne_null (h : j ≠ .null) : option? read j = (read j).map some := by
  unfold option?
  split
  · exact absurd rfl h
  · rfl

theorem ReadsPlain.option (h : ReadsPlain room read) : ReadsPlain room (option? read) := by
  intro j
  by_cases hnull : j = .null
  · simp [hnull, settle]
  · -- Nothing else has `null` for its plain value.
    have hsettled : ∀ v, settle room j = some v → v ≠ .null := by
      rintro v hv rfl
      have hscalar := isBracketed_of_settle hv
      by_cases hread : j = .unreadable
      · simp [hread, settle] at hv
      · rw [settle_scalar hscalar.symm hread, Option.some.injEq] at hv
        exact hnull hv
    rw [option?_of_ne_null hnull, ← h j]
    cases hv : settle room j with
    | none => rfl
    | some v => simp [option?_of_ne_null (hsettled v hv)]

theorem ReadsPlain.items (h : ReadsPlain room read) (items : List Json) :
    (settleItems room items).bind (·.mapM read) = items.mapM read := by
  induction items with
  | nil => rfl
  | cons j items ih =>
    rw [settleItems, List.mapM_cons, ← h j, ← ih]
    cases settle room j with
    | none => rfl
    | some v =>
      cases settleItems room items with
      | none => simp
      | some vs => simp

/-- A list is read by `list?` from its plain value item by item. -/
theorem ReadsPlain.list (h : ReadsPlain room read) : ReadsPlain (room + 1) (list? read) := by
  intro j
  cases j with
  | arr items =>
    rw [settle, Option.bind_map]
    exact h.items items
  | obj entries =>
    rw [settle, Option.bind_map]
    exact Option.bind_eq_none_iff.mpr fun _ _ => rfl
  | null | bool | int | float | str | unreadable => simp [settle, list?]

/-! ## §3 Entries -/

section Entries

variable {fields : List Field} {entries settled found found' done result : List (String × Json)}

/-- An entry and its plain value under one key. -/
def Settled (room : Nat) (entry plain : String × Json) : Prop :=
  plain.1 = entry.1 ∧ settle room entry.2 = some plain.2

/-- The entries of a record one after the other, each put by `putEntry` in the place of one with its
key. -/
theorem exists_settled_of_settleEntries (h : settleEntries room entries done = some result) :
    ∃ settled, List.Forall₂ (Settled room) entries settled ∧
      result = settled.foldl (fun done e => putEntry e.1 e.2 done) done := by
  induction entries generalizing done with
  | nil =>
    simp only [settleEntries, Option.some.injEq] at h
    exact ⟨[], .nil, h.symm⟩
  | cons e entries ih =>
    obtain ⟨key, j⟩ := e
    obtain ⟨v, hv, hrest⟩ := Option.bind_eq_some_iff.mp h
    obtain ⟨settled, hsettled, rfl⟩ := ih hrest
    exact ⟨(key, v) :: settled, .cons ⟨rfl, hv⟩ hsettled, rfl⟩

theorem keys_eq_of_settled (h : List.Forall₂ (Settled room) entries settled) :
    settled.map (·.1) = entries.map (·.1) := by
  induction h with
  | nil => rfl
  | cons he _ ih => simp [he.1, ih]

/-- A key that one of the fields `answersTo`. -/
def isFieldKey (fields : List Field) (key : String) : Bool := fields.any (·.answersTo key)

theorem find?_answersTo_eq_none {key : String} (h : isFieldKey fields key = false) :
    fields.find? (·.answersTo key) = none := by
  simpa [isFieldKey] using h

/-- The entries under the keys of `fields`. -/
def fieldEntries (fields : List Field) (entries : List (String × Json)) : List (String × Json) :=
  entries.filter fun e => isFieldKey fields e.1

theorem keys_fieldEntries :
    (fieldEntries fields entries).map (·.1) = (entries.map (·.1)).filter (isFieldKey fields) := by
  rw [List.filter_map]
  rfl

@[simp] theorem fieldEntries_append (first second : List (String × Json)) :
    fieldEntries fields (first ++ second) =
      fieldEntries fields first ++ fieldEntries fields second := List.filter_append ..

theorem fieldEntries_cons_of_field {key : String} (h : isFieldKey fields key = true) (value : Json)
    (entries : List (String × Json)) :
    fieldEntries fields ((key, value) :: entries) =
      (key, value) :: fieldEntries fields entries := by
  simp [fieldEntries, h]

theorem fieldEntries_cons_of_passed {key : String} (h : isFieldKey fields key = false)
    (value : Json) (entries : List (String × Json)) :
    fieldEntries fields ((key, value) :: entries) = fieldEntries fields entries := by
  simp [fieldEntries, h]

/-- Keys that no field answers to are passed over by `collect`. -/
theorem collect_fieldEntries :
    collect fields (fieldEntries fields entries) found = collect fields entries found := by
  induction entries generalizing found with
  | nil => rfl
  | cons e entries ih =>
    obtain ⟨key, value⟩ := e
    cases hkey : isFieldKey fields key with
    | false =>
      rw [fieldEntries_cons_of_passed hkey, collect, find?_answersTo_eq_none hkey]
      exact ih
    | true =>
      rw [fieldEntries_cons_of_field hkey, collect, collect]
      split
      · exact ih
      · split
        · rfl
        · exact ih

theorem fieldEntries_putEntry_of_passed {key : String} (hkey : isFieldKey fields key = false)
    (value : Json) (done : List (String × Json)) :
    fieldEntries fields (putEntry key value done) = fieldEntries fields done := by
  -- The entry takes an old place or the last one; neither is under the key of a field.
  induction done with
  | nil => exact fieldEntries_cons_of_passed hkey value []
  | cons e done ih =>
    obtain ⟨k, v⟩ := e
    rw [putEntry]
    split
    · next hsame =>
      obtain rfl := beq_iff_eq.mp hsame
      rw [fieldEntries_cons_of_passed hkey, fieldEntries_cons_of_passed hkey]
    · cases hk : isFieldKey fields k with
      | false => rw [fieldEntries_cons_of_passed hk, fieldEntries_cons_of_passed hk, ih]
      | true => rw [fieldEntries_cons_of_field hk, fieldEntries_cons_of_field hk, ih]

theorem fieldEntries_putEntry {key : String} (hkey : isFieldKey fields key = true) (value : Json)
    (hnew : key ∉ (fieldEntries fields done).map (·.1)) :
    fieldEntries fields (putEntry key value done) = fieldEntries fields done ++ [(key, value)] := by
  -- The key is new, so the walk along the entries reaches their end.
  induction done with
  | nil => exact fieldEntries_cons_of_field hkey value []
  | cons e done ih =>
    obtain ⟨k, v⟩ := e
    rw [putEntry]
    cases hk : isFieldKey fields k with
    | false =>
      rw [fieldEntries_cons_of_passed hk] at hnew ⊢
      have hne : k ≠ key := by
        rintro rfl
        rw [hkey] at hk
        cases hk
      rw [if_neg (by simpa using hne), fieldEntries_cons_of_passed hk, ih hnew]
    | true =>
      rw [fieldEntries_cons_of_field hk] at hnew ⊢
      rw [List.map_cons, List.mem_cons, not_or] at hnew
      rw [if_neg (by simpa using Ne.symm hnew.1), fieldEntries_cons_of_field hk, ih hnew.2,
        List.cons_append]

/-- As long as no field is given twice under one key, its entries stay in their order under
`putEntry`. -/
theorem fieldEntries_foldl_putEntry
    (h : ((fieldEntries fields (done ++ entries)).map (·.1)).Nodup) :
    fieldEntries fields (entries.foldl (fun done e => putEntry e.1 e.2 done) done) =
      fieldEntries fields (done ++ entries) := by
  induction entries generalizing done with
  | nil => rw [List.foldl_nil, List.append_nil]
  | cons e entries ih =>
    obtain ⟨key, value⟩ := e
    -- A passed key may take the place of an earlier one; a field's key is new and goes to the end.
    have hput : fieldEntries fields (putEntry key value done ++ entries) =
        fieldEntries fields (done ++ (key, value) :: entries) := by
      rw [fieldEntries_append, fieldEntries_append]
      cases hkey : isFieldKey fields key with
      | false =>
        rw [fieldEntries_putEntry_of_passed hkey, fieldEntries_cons_of_passed hkey]
      | true =>
        rw [fieldEntries_append, fieldEntries_cons_of_field hkey, List.map_append, List.map_cons,
          List.nodup_append] at h
        have hnew : key ∉ (fieldEntries fields done).map (·.1) :=
          fun hmem => h.2.2 key hmem key List.mem_cons_self rfl
        rw [fieldEntries_putEntry hkey value hnew, fieldEntries_cons_of_field hkey,
          List.append_assoc, List.singleton_append]
    rw [List.foldl_cons, ih (hput ▸ h), hput]

/-- **The fields of a record and their plain values**: `collect` finds the same in both. -/
theorem collect_settled (h : List.Forall₂ (Settled room) entries settled)
    (hfound : List.Forall₂ (Settled room) found found') :
    Option.Rel (List.Forall₂ (Settled room)) (collect fields entries found)
      (collect fields settled found') := by
  induction h generalizing found found' with
  | nil => exact .some hfound
  | @cons e e' entries settled he _ ih =>
    obtain ⟨key, value⟩ := e
    obtain ⟨key', value'⟩ := e'
    have hkey : key' = key := he.1
    subst hkey
    rw [collect, collect]
    cases hfield : fields.find? (·.answersTo key') with
    | none => exact ih hfound
    | some f =>
      -- The fields found so far have the same names on both sides.
      have hany : found'.any (·.1 == f.name) = found.any (·.1 == f.name) := by
        have hkeys := congrArg (·.any (· == f.name)) (keys_eq_of_settled hfound)
        simpa [List.any_map, Function.comp_def] using hkeys
      dsimp only
      rw [hany]
      split
      · exact .none
      · exact ih (List.rel_append hfound (.cons ⟨rfl, he.2⟩ .nil))

theorem collect_eq_none_of_mem {key : String} {f : Field}
    (hfield : fields.find? (·.answersTo key) = some f) (hfound : found.any (·.1 == f.name) = true)
    (hkey : key ∈ entries.map (·.1)) : collect fields entries found = none := by
  induction entries generalizing found with
  | nil => simp at hkey
  | cons e entries ih =>
    obtain ⟨k, v⟩ := e
    rw [collect]
    -- Walk to the key; there the field is found a second time.
    rcases List.mem_cons.mp hkey with rfl | hrest
    · simp [hfield, hfound]
    · split
      · exact ih hfound hrest
      · split
        · rfl
        · exact ih (by simp [List.any_append, hfound]) hrest

/-- **A field under two equal keys is refused** by `collect`. -/
theorem collect_eq_none_of_repeated (h : ¬ ((fieldEntries fields entries).map (·.1)).Nodup) :
    collect fields entries found = none := by
  induction entries generalizing found with
  | nil => simp [fieldEntries] at h
  | cons e entries ih =>
    obtain ⟨key, value⟩ := e
    rw [collect]
    split
    · next hnone =>
      have hkey : isFieldKey fields key = false := by simpa [isFieldKey] using hnone
      rw [fieldEntries_cons_of_passed hkey] at h
      exact ih h
    · next f hsome =>
      have hkey : isFieldKey fields key = true :=
        List.any_eq_true.mpr ⟨f, List.mem_of_find?_eq_some hsome,
          List.find?_some (p := (Field.answersTo · key)) hsome⟩
      split
      · rfl
      · -- Either this key comes again, or two later ones are equal.
        by_cases hmem : key ∈ entries.map (·.1)
        · exact collect_eq_none_of_mem hsome (by simp) hmem
        · refine ih fun hnodup => h ?_
          rw [fieldEntries_cons_of_field hkey, List.map_cons, List.nodup_cons]
          refine ⟨fun hkept => hmem ?_, hnodup⟩
          exact (List.filter_sublist.map _).subset hkept

/-- What has been `found` of a field stays. -/
theorem find?_collect_of_find? {p : String × Json → Bool} {e : String × Json}
    {values : List (String × Json)} (h : collect fields entries found = some values)
    (hfind : found.find? p = some e) : values.find? p = some e := by
  induction entries generalizing found with
  | nil =>
    cases h
    exact hfind
  | cons e' entries ih =>
    obtain ⟨key, value⟩ := e'
    rw [collect] at h
    split at h
    · exact ih h hfind
    · split at h
      · cases h
      · exact ih h (by simp [hfind])

/-- The value that `collect` finds for a field is the one under its key. -/
theorem find?_collect {key : String} {value : Json} {f : Field} {values : List (String × Json)}
    (h : collect fields entries found = some values) (hmem : (key, value) ∈ entries)
    (hfield : fields.find? (·.answersTo key) = some f) :
    values.find? (·.1 == f.name) = some (f.name, value) := by
  induction entries generalizing found with
  | nil => simp at hmem
  | cons e entries ih =>
    obtain ⟨k, v⟩ := e
    rw [collect] at h
    rcases List.mem_cons.mp hmem with heq | hrest
    · cases heq
      simp only [hfield] at h
      split at h
      · cases h
      · next hnew =>
        refine find?_collect_of_find? h ?_
        -- The field was not found before, so this entry is the first.
        have hnone : found.find? (·.1 == f.name) = none :=
          List.find?_eq_none.mpr fun e he hname => hnew (List.any_eq_true.mpr ⟨e, he, hname⟩)
        simp [hnone]
    · split at h
      · exact ih h hrest
      · split at h
        · cases h
        · exact ih h hrest

/-- Where no field is given twice under one key, a record has the same fields as its plain value. -/
theorem collect_settleEntries (h : ((fieldEntries fields entries).map (·.1)).Nodup)
    (hsettle : settleEntries room entries [] = some result) :
    Option.Rel (List.Forall₂ (Settled room)) (collect fields entries [])
      (collect fields result []) := by
  obtain ⟨settled, hsettled, rfl⟩ := exists_settled_of_settleEntries hsettle
  have hnodup : ((fieldEntries fields ([] ++ settled)).map (·.1)).Nodup := by
    rw [List.nil_append, keys_fieldEntries, keys_eq_of_settled hsettled, ← keys_fieldEntries]
    exact h
  have hsame : collect fields (settled.foldl (fun done e => putEntry e.1 e.2 done) []) [] =
      collect fields settled [] := by
    rw [← collect_fieldEntries, fieldEntries_foldl_putEntry hnodup, collect_fieldEntries]
    rfl
  rw [hsame]
  exact collect_settled hsettled .nil

theorem find?_settled {values values' : List (String × Json)}
    (h : List.Forall₂ (Settled room) values values') (name : String) :
    Option.Rel (Settled room) (values.find? (·.1 == name)) (values'.find? (·.1 == name)) := by
  induction h with
  | nil => exact .none
  | @cons e e' values values' he _ ih =>
    rw [List.find?_cons, List.find?_cons, he.1]
    split
    · exact .some he
    · exact ih

/-- A field is read by `defaulted` from its plain value as it is from the document. -/
theorem defaulted_settled {values values' : List (String × Json)} (hread : ReadsPlain room read)
    (h : List.Forall₂ (Settled room) values values') (name : String) (absent : α) (listed : Bool) :
    (Record.mk values' listed).defaulted name read absent =
      (Record.mk values listed).defaulted name read absent := by
  have hfind := find?_settled h name
  unfold Record.defaulted Record.get?
  generalize values.find? (·.1 == name) = entry at hfind ⊢
  generalize values'.find? (·.1 == name) = entry' at hfind ⊢
  cases hfind with
  | none => rfl
  | @some e e' he =>
    have hvalue := hread e.2
    rw [he.2] at hvalue
    exact hvalue

/-- A field that is read has a plain value. -/
theorem settle_isSome_of_defaulted {values : List (String × Json)} {name : String} {value : Json}
    {absent a : α} {listed : Bool} (hread : ReadsPlain room read)
    (h : (Record.mk values listed).defaulted name read absent = some a)
    (hfind : values.find? (·.1 == name) = some (name, value)) :
    (settle room value).isSome = true := by
  simp only [Record.defaulted, Record.get?, hfind, Option.map_some] at h
  rw [← hread value] at h
  obtain ⟨plain, hplain, -⟩ := Option.bind_eq_some_iff.mp h
  exact Option.isSome_of_eq_some hplain

end Entries

end LoopAnalysis.Json
