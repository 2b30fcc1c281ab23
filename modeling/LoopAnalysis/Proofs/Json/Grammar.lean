import LoopAnalysis.Proofs.Json.Lexemes
import Mathlib.Data.List.DropRight

/-!
# The grammar of documents

What the texts of documents look like, apart from how they are read, and that the reader accepts
exactly these texts. In particular it never runs out of fuel.

## Main definitions

- `Json.Written`: the characters that a part of a document is written with;
- `Json.RecordText`: a text that is one record.

## Main statements

- `written_of_readers`: what is read was written there;
- `Written.readable`: what is written is read, whatever follows it;
- `parse_eq_some_iff`: the texts that are documents.
-/

namespace LoopAnalysis.Json

variable {cs rest more front back : List Char} {fuel : Nat} {j : Json}

/-! ## §1 Gaps -/

/-- Nothing but blanks of the grammar, as `isGap` tells them. -/
def Gaps (cs : List Char) : Prop := ∀ c ∈ cs, isGap c = true

theorem gaps_nil : Gaps [] := by simp [Gaps]

theorem skipGaps_append (h : Gaps front) (cs : List Char) :
    skipGaps (front ++ cs) = skipGaps cs := List.dropWhile_append_of_pos h

theorem skipGaps_eq_nil_iff : skipGaps cs = [] ↔ Gaps cs := List.dropWhile_eq_nil_iff

theorem exists_gaps (cs : List Char) : ∃ front, Gaps front ∧ cs = front ++ skipGaps cs :=
  ⟨cs.takeWhile isGap, fun _ => List.mem_takeWhile_imp,
    (List.takeWhile_append_dropWhile ..).symm⟩

theorem skipGaps_skipGaps (cs : List Char) : skipGaps (skipGaps cs) = skipGaps cs :=
  List.dropWhile_idempotent ..

theorem skipGaps_cons {c : Char} (h : isGap c = false) (cs : List Char) :
    skipGaps (c :: cs) = c :: cs := List.dropWhile_cons_of_neg (by simp [h])

-- The readers begin by skipping gaps, so it makes no difference if these have been skipped before.

theorem readValue_skipGaps (fuel : Nat) (cs : List Char) :
    readValue fuel (skipGaps cs) = readValue fuel cs := by
  cases fuel with
  | zero => rfl
  | succ fuel => rw [readValue, readValue, skipGaps_skipGaps]

theorem readItems_skipGaps (fuel : Nat) (cs : List Char) :
    readItems fuel (skipGaps cs) = readItems fuel cs := by
  cases fuel with
  | zero => rfl
  | succ fuel => rw [readItems, readItems, readValue_skipGaps]

theorem readEntries_skipGaps (fuel : Nat) (cs : List Char) :
    readEntries fuel (skipGaps cs) = readEntries fuel cs := by
  cases fuel with
  | zero => rfl
  | succ fuel => rw [readEntries, readEntries, skipGaps_skipGaps]

theorem endsNumber_cons {c : Char} (h : digit? c = none ∧ c ≠ '.' ∧ c ≠ 'e' ∧ c ≠ 'E') :
    EndsNumber (c :: cs) := by
  rintro _ ⟨⟩
  exact h

theorem endsNumber_append (h : Gaps front) (hmore : EndsNumber more) :
    EndsNumber (front ++ more) := by
  cases front with
  | nil => exact hmore
  | cons c front =>
    -- A blank is neither a digit nor a point nor a letter.
    have hgap := h c List.mem_cons_self
    simp only [isGap, Bool.or_eq_true, beq_iff_eq] at hgap
    refine endsNumber_cons ?_
    rcases hgap with ((rfl | rfl) | rfl) | rfl <;> decide

theorem isGap_of_beginsNumber {c : Char} (h : c = '-' ∨ (digit? c).isSome = true) :
    isGap c = false := by
  rw [Bool.eq_false_iff]
  intro hgap
  simp only [isGap, Bool.or_eq_true, beq_iff_eq] at hgap
  rcases hgap with ((rfl | rfl) | rfl) | rfl <;> revert h <;> decide

/-! ## §2 The grammar -/

/-- The value of quoted text; half of a surrogate pair, which `assemble` refuses, has none. -/
def ofPieces (pieces : List Piece) : Json :=
  match assemble pieces with
  | some text => .str (String.ofList text)
  | none => .unreadable

/-- The key that quoted text stands for, if `assemble` gives one. -/
def keyOf (pieces : List Piece) : Option String := (assemble pieces).map String.ofList

/-- A part of a document. -/
inductive Part where
  | value (j : Json)
  /-- A value with blanks around it. -/
  | spaced (j : Json)
  /-- The items of a list, with the bracket that closes it. -/
  | items (items : List Json)
  /-- One entry of a record. -/
  | entry (key : Option String) (value : Json)
  /-- The entries of a record, with the brace that closes it. -/
  | entries (entries : List (Option String × Json))

/-- **The characters that a `Part` of a document is written with.** -/
inductive Written : List Char → Part → Prop where
  | null : Written ['n', 'u', 'l', 'l'] (.value .null)
  | yes : Written ['t', 'r', 'u', 'e'] (.value (.bool true))
  | no : Written ['f', 'a', 'l', 's', 'e'] (.value (.bool false))
  | number {cs : List Char} {j : Json} (hread : readNumber cs = some (j, [])) :
      Written cs (.value j)
  | quoted {cs : List Char} {pieces : List Piece} (hread : readPieces cs = some (pieces, [])) :
      Written ('"' :: cs) (.value (ofPieces pieces))
  | emptyList {gaps : List Char} (hgaps : Gaps gaps) :
      Written ('[' :: (gaps ++ [']'])) (.value (.arr []))
  | list {cs : List Char} {items : List Json} (h : Written cs (.items items)) :
      Written ('[' :: cs) (.value (.arr items))
  | emptyRecord {gaps : List Char} (hgaps : Gaps gaps) :
      Written ('{' :: (gaps ++ ['}'])) (.value (.obj []))
  | record {cs : List Char} {entries : List (Option String × Json)}
      (h : Written cs (.entries entries)) : Written ('{' :: cs) (.value (ofEntries entries))
  | spaced {front cs back : List Char} {j : Json} (hfront : Gaps front) (hback : Gaps back)
      (h : Written cs (.value j)) : Written (front ++ cs ++ back) (.spaced j)
  | lastItem {cs : List Char} {j : Json} (h : Written cs (.spaced j)) :
      Written (cs ++ [']']) (.items [j])
  | nextItem {cs rest : List Char} {j : Json} {items : List Json} (h : Written cs (.spaced j))
      (hrest : Written rest (.items items)) : Written (cs ++ ',' :: rest) (.items (j :: items))
  | entry {front key back cs : List Char} {pieces : List Piece} {j : Json} (hfront : Gaps front)
      (hkey : readPieces key = some (pieces, [])) (hback : Gaps back) (h : Written cs (.spaced j)) :
      Written (front ++ '"' :: (key ++ (back ++ ':' :: cs))) (.entry (keyOf pieces) j)
  | lastEntry {cs : List Char} {key : Option String} {j : Json} (h : Written cs (.entry key j)) :
      Written (cs ++ ['}']) (.entries [(key, j)])
  | nextEntry {cs rest : List Char} {key : Option String} {j : Json}
      {entries : List (Option String × Json)} (h : Written cs (.entry key j))
      (hrest : Written rest (.entries entries)) :
      Written (cs ++ ',' :: rest) (.entries ((key, j) :: entries))

/-! ## §3 What is read was written -/

section Step

-- What the readers have taken with one unit of fuel less.
variable
  (hvalue : ∀ {cs j rest}, readValue fuel cs = some (j, rest) →
    ∃ front taken, Gaps front ∧ cs = front ++ taken ++ rest ∧ Written taken (.value j))
  (hitems : ∀ {cs items rest}, readItems fuel cs = some (items, rest) →
    ∃ taken, cs = taken ++ rest ∧ Written taken (.items items))
  (hentries : ∀ {cs entries rest}, readEntries fuel cs = some (entries, rest) →
    ∃ taken, cs = taken ++ rest ∧ Written taken (.entries entries))

include hitems hentries in
theorem written_of_readValue_succ (h : readValue (fuel + 1) cs = some (j, rest)) :
    ∃ front taken, Gaps front ∧ cs = front ++ taken ++ rest ∧ Written taken (.value j) := by
  obtain ⟨front, hfront, hcs⟩ := exists_gaps cs
  -- What stands behind the gaps decides.
  suffices hbehind : ∃ taken, skipGaps cs = taken ++ rest ∧ Written taken (.value j) by
    obtain ⟨taken, htaken, hwritten⟩ := hbehind
    exact ⟨front, taken, hfront, by rw [List.append_assoc, ← htaken, ← hcs], hwritten⟩
  rw [readValue] at h
  split at h
  · next left hword =>
    cases h
    exact ⟨_, hword, .null⟩
  · next left hword =>
    cases h
    exact ⟨_, hword, .yes⟩
  · next left hword =>
    cases h
    exact ⟨_, hword, .no⟩
  · next left hquote =>
    -- quoted text
    obtain ⟨⟨pieces, left'⟩, hpieces, hvalue⟩ := Option.bind_eq_some_iff.mp h
    obtain ⟨taken, rfl, htaken⟩ := readPieces_taken hpieces
    have hread := htaken []
    rw [List.append_nil] at hread
    have hj : some (ofPieces pieces, left') = some (j, rest) := by
      rw [← hvalue, ofPieces]
      dsimp only
      cases assemble pieces <;> rfl
    cases hj
    exact ⟨'"' :: taken, hquote, .quoted hread⟩
  · next inside hopen =>
    -- a list
    obtain ⟨gaps, hgaps, hinside⟩ := exists_gaps inside
    split at h
    · next left hempty =>
      -- Nothing but gaps up to the bracket.
      cases h
      refine ⟨'[' :: (gaps ++ [']']), ?_, .emptyList hgaps⟩
      rw [hopen, hinside, hempty]
      simp
    · obtain ⟨⟨items, left⟩, hread, heq⟩ := Option.bind_eq_some_iff.mp h
      cases heq
      rw [readItems_skipGaps] at hread
      obtain ⟨taken, rfl, hwritten⟩ := hitems hread
      exact ⟨'[' :: taken, hopen, .list hwritten⟩
  · next inside hopen =>
    -- a record
    obtain ⟨gaps, hgaps, hinside⟩ := exists_gaps inside
    split at h
    · next left hempty =>
      cases h
      refine ⟨'{' :: (gaps ++ ['}']), ?_, .emptyRecord hgaps⟩
      rw [hopen, hinside, hempty]
      simp
    · obtain ⟨⟨entries, left⟩, hread, heq⟩ := Option.bind_eq_some_iff.mp h
      cases heq
      rw [readEntries_skipGaps] at hread
      obtain ⟨taken, rfl, hwritten⟩ := hentries hread
      exact ⟨'{' :: taken, hopen, .record hwritten⟩
  · -- a number
    obtain ⟨taken, htaken, hmore⟩ := readNumber_taken h
    have hread := hmore [] (by simp [EndsNumber])
    rw [List.append_nil] at hread
    exact ⟨taken, htaken, .number hread⟩

include hvalue in
/-- A value that `readValue` takes and the gaps behind it, up to what comes next. -/
theorem spaced_of_readValue {c : Char} {left : List Char} (h : readValue fuel cs = some (j, rest))
    (hnext : skipGaps rest = c :: left) :
    ∃ taken, cs = taken ++ c :: left ∧ Written taken (.spaced j) := by
  obtain ⟨front, taken, hfront, rfl, hwritten⟩ := hvalue h
  obtain ⟨back, hback, hrest⟩ := exists_gaps rest
  refine ⟨front ++ taken ++ back, ?_, .spaced hfront hback hwritten⟩
  rw [← hnext, List.append_assoc _ back, ← hrest]

include hvalue hitems in
theorem written_of_readItems_succ {items : List Json}
    (h : readItems (fuel + 1) cs = some (items, rest)) :
    ∃ taken, cs = taken ++ rest ∧ Written taken (.items items) := by
  rw [readItems] at h
  obtain ⟨⟨item, left⟩, hitem, h⟩ := Option.bind_eq_some_iff.mp h
  dsimp only at h
  split at h
  · next more hcomma =>
    -- A comma: more items follow.
    obtain ⟨⟨items', left'⟩, hmore, heq⟩ := Option.bind_eq_some_iff.mp h
    cases heq
    obtain ⟨taken, rfl, hwritten⟩ := spaced_of_readValue hvalue hitem hcomma
    obtain ⟨taken', rfl, hwritten'⟩ := hitems hmore
    exact ⟨taken ++ ',' :: taken', by simp, .nextItem hwritten hwritten'⟩
  · next left' hclose =>
    -- The bracket: this was the last item.
    cases h
    obtain ⟨taken, rfl, hwritten⟩ := spaced_of_readValue hvalue hitem hclose
    exact ⟨taken ++ [']'], by simp, .lastItem hwritten⟩
  · cases h

include hvalue hentries in
theorem written_of_readEntries_succ {entries : List (Option String × Json)}
    (h : readEntries (fuel + 1) cs = some (entries, rest)) :
    ∃ taken, cs = taken ++ rest ∧ Written taken (.entries entries) := by
  obtain ⟨front, hfront, hcs⟩ := exists_gaps cs
  rw [readEntries] at h
  split at h
  · next left hquote =>
    obtain ⟨⟨pieces, behindKey⟩, hpieces, h⟩ := Option.bind_eq_some_iff.mp h
    obtain ⟨key, hleft, hkey⟩ := readPieces_taken hpieces
    have hkey' := hkey []
    rw [List.append_nil] at hkey'
    obtain ⟨back, hback, hbehind⟩ := exists_gaps behindKey
    dsimp only at h
    split at h
    · next left' hcolon =>
      obtain ⟨⟨value, behindValue⟩, hread, h⟩ := Option.bind_eq_some_iff.mp h
      -- Whatever ends the entry, its key, colon and value stand in front of it.
      have hentry : ∀ {taken : List Char} {c : Char} {left : List Char},
          left' = taken ++ c :: left →
            cs = front ++ '"' :: (key ++ (back ++ ':' :: taken)) ++ c :: left := by
        intro taken c left htaken
        rw [hcs, hquote, hleft, hbehind, hcolon, htaken]
        simp
      dsimp only at h
      split at h
      · next more hcomma =>
        obtain ⟨⟨entries', left''⟩, hmore, heq⟩ := Option.bind_eq_some_iff.mp h
        cases heq
        obtain ⟨taken, htaken, hwritten⟩ := spaced_of_readValue hvalue hread hcomma
        obtain ⟨taken', rfl, hwritten'⟩ := hentries hmore
        refine ⟨_ ++ ',' :: taken', ?_, .nextEntry (.entry hfront hkey' hback hwritten) hwritten'⟩
        rw [hentry htaken]
        simp
      · next left'' hclose =>
        cases h
        obtain ⟨taken, htaken, hwritten⟩ := spaced_of_readValue hvalue hread hclose
        refine ⟨_ ++ ['}'], ?_, .lastEntry (.entry hfront hkey' hback hwritten)⟩
        rw [hentry htaken]
        simp
      · cases h
    · cases h
  · cases h

end Step

/-- The three readers together: each of `readValue`, `readItems` and `readEntries` calls the others
with one unit of fuel less. -/
theorem written_of_readers (fuel : Nat) :
    (∀ {cs j rest}, readValue fuel cs = some (j, rest) →
      ∃ front taken, Gaps front ∧ cs = front ++ taken ++ rest ∧ Written taken (.value j)) ∧
    (∀ {cs items rest}, readItems fuel cs = some (items, rest) →
      ∃ taken, cs = taken ++ rest ∧ Written taken (.items items)) ∧
    (∀ {cs entries rest}, readEntries fuel cs = some (entries, rest) →
      ∃ taken, cs = taken ++ rest ∧ Written taken (.entries entries)) := by
  induction fuel with
  | zero =>
    refine ⟨?_, ?_, ?_⟩
    · intro cs j rest h
      simp [readValue] at h
    · intro cs items rest h
      simp [readItems] at h
    · intro cs entries rest h
      simp [readEntries] at h
  | succ fuel ih =>
    -- The step for each reader uses what the other two have taken.
    obtain ⟨hvalue, hitems, hentries⟩ := ih
    exact ⟨written_of_readValue_succ hitems hentries, written_of_readItems_succ hvalue hitems,
      written_of_readEntries_succ hvalue hentries⟩

/-! ## §4 What is written is read -/

/-- The readers take a part of a document off the front of a text, whatever follows it. Twice as
much fuel as there are characters is enough, since of two nested calls one takes a character. -/
def Readable (cs : List Char) : Part → Prop
  | .value j => ∀ fuel more, 2 * cs.length ≤ fuel + 1 → EndsNumber more →
      readValue fuel (cs ++ more) = some (j, more)
  | .spaced j => ∀ fuel more, 2 * cs.length ≤ fuel + 1 → EndsNumber more →
      ∃ left, readValue fuel (cs ++ more) = some (j, left) ∧ skipGaps left = skipGaps more
  | .items items => ∀ fuel more, 2 * cs.length ≤ fuel →
      readItems fuel (cs ++ more) = some (items, more)
  | .entry key j => ∀ fuel more, 2 * cs.length ≤ fuel + 1 → EndsNumber more →
      readEntries (fuel + 1) (cs ++ more) =
        match skipGaps more with
        | ',' :: rest => do
          let (entries, rest) ← readEntries fuel rest
          return ((key, j) :: entries, rest)
        | '}' :: rest => some ([(key, j)], rest)
        | _ => none
  | .entries entries => ∀ fuel more, 2 * cs.length ≤ fuel →
      readEntries fuel (cs ++ more) = some (entries, more)

/-- Whoever has `fuel` for a character and the rest has fuel for the rest in the next call. -/
theorem exists_fuel {c : Char} (h : 2 * (c :: cs).length ≤ fuel + 1) :
    ∃ n, fuel = n + 1 ∧ 2 * cs.length ≤ n := by
  rw [List.length_cons] at h
  exact ⟨fuel - 1, by omega, by omega⟩

theorem readItems_closing (fuel : Nat) (cs : List Char) : readItems fuel (']' :: cs) = none := by
  -- No value begins with a closing bracket.
  have hvalue : ∀ fuel, readValue fuel (']' :: cs) = none := by
    intro fuel
    cases fuel with
    | zero => rfl
    | succ fuel =>
      simp [readValue, skipGaps_cons (c := ']') rfl, readNumber, readMagnitude, takeDigits, digit?]
  cases fuel with
  | zero => rfl
  | succ fuel => simp [readItems, hvalue]

theorem readEntries_closing (fuel : Nat) (cs : List Char) :
    readEntries fuel ('}' :: cs) = none := by
  cases fuel with
  | zero => rfl
  | succ fuel => simp [readEntries, skipGaps_cons (c := '}') rfl]

theorem readValue_list {items : List Json} (h : readItems fuel cs = some (items, rest)) :
    readValue (fuel + 1) ('[' :: cs) = some (.arr items, rest) := by
  rw [← readItems_skipGaps] at h
  simp only [readValue, skipGaps_cons (c := '[') rfl]
  -- The bracket would close an empty list, but then no items were read.
  split
  · next left hempty =>
    rw [hempty, readItems_closing] at h
    cases h
  · simp [h]

theorem readValue_record {entries : List (Option String × Json)}
    (h : readEntries fuel cs = some (entries, rest)) :
    readValue (fuel + 1) ('{' :: cs) = some (ofEntries entries, rest) := by
  rw [← readEntries_skipGaps] at h
  simp only [readValue, skipGaps_cons (c := '{') rfl]
  split
  · next left hempty =>
    rw [hempty, readEntries_closing] at h
    cases h
  · simp [h]

theorem readValue_quoted {pieces : List Piece} (h : readPieces cs = some (pieces, rest)) :
    readValue (fuel + 1) ('"' :: cs) = some (ofPieces pieces, rest) := by
  simp only [readValue, skipGaps_cons (c := '"') rfl, h, ofPieces]
  cases hassemble : assemble pieces <;> simp [hassemble]

theorem readable_number (h : readNumber cs = some (j, [])) : Readable cs (.value j) := by
  intro fuel more hfuel hmore
  obtain ⟨taken, hcs, htaken⟩ := readNumber_taken h
  rw [List.append_nil] at hcs
  subst hcs
  obtain ⟨c, tail, rfl, hc⟩ := head_of_readNumber h
  obtain ⟨fuel, rfl, -⟩ := exists_fuel hfuel
  have hread := htaken more hmore
  rw [List.cons_append] at hread ⊢
  rw [readValue, skipGaps_cons (isGap_of_beginsNumber hc)]
  -- No other value begins with such a character.
  have hother : ∀ d rest, c :: (tail ++ more) = d :: rest →
      d = '-' ∨ (digit? d).isSome = true := by
    intro d rest heq
    cases heq
    exact hc
  split
  case h_7 => exact hread
  all_goals next heq => exact absurd (hother _ _ heq) (by decide)

/-- **What is written is read**: every part that is `Written` is `Readable`. By induction on how it
is written, with any fuel that is enough and anything behind it. -/
theorem Written.readable {part : Part} (h : Written cs part) : Readable cs part := by
  induction h with
  -- The words are compared with the front of the text.
  | null | yes | no =>
    intro fuel more hfuel _
    obtain ⟨fuel, rfl, -⟩ := exists_fuel hfuel
    rfl
  | number hread => exact readable_number hread
  -- The closing quote ends the text, so what follows is never looked at.
  | quoted hread =>
    intro fuel more hfuel _
    obtain ⟨fuel, rfl, -⟩ := exists_fuel hfuel
    obtain ⟨taken, hcs, htaken⟩ := readPieces_taken hread
    rw [List.append_nil] at hcs
    subst hcs
    exact readValue_quoted (htaken more)
  -- Between the brackets there is nothing but gaps to skip.
  | @emptyList gaps hgaps =>
    intro fuel more hfuel _
    obtain ⟨fuel, rfl, -⟩ := exists_fuel hfuel
    have hskip : skipGaps (gaps ++ [']'] ++ more) = ']' :: more := by
      rw [List.append_assoc, skipGaps_append hgaps]
      exact skipGaps_cons rfl more
    rw [List.cons_append, readValue, skipGaps_cons rfl]
    simp only [hskip]
  -- The opening bracket is one character, which pays for the call of the next reader.
  | list _ ih =>
    intro fuel more hfuel _
    obtain ⟨fuel, rfl, hrest⟩ := exists_fuel hfuel
    exact readValue_list (ih _ _ hrest)
  -- As for lists, an empty record first and then one with entries.
  | @emptyRecord gaps hgaps =>
    intro fuel more hfuel _
    obtain ⟨fuel, rfl, -⟩ := exists_fuel hfuel
    have hskip : skipGaps (gaps ++ ['}'] ++ more) = '}' :: more := by
      rw [List.append_assoc, skipGaps_append hgaps]
      exact skipGaps_cons rfl more
    rw [List.cons_append, readValue, skipGaps_cons rfl]
    simp only [hskip]
  | record _ ih =>
    intro fuel more hfuel _
    obtain ⟨fuel, rfl, hrest⟩ := exists_fuel hfuel
    exact readValue_record (ih _ _ hrest)
  | @spaced front cs back j hfront hback _ ih =>
    intro fuel more hfuel hmore
    -- The gaps in front are skipped with the value, those behind it with what comes next.
    refine ⟨back ++ more, ?_, skipGaps_append hback more⟩
    rw [← readValue_skipGaps, List.append_assoc, List.append_assoc, skipGaps_append hfront,
      readValue_skipGaps]
    exact ih _ _ (by simp at hfuel; omega) (endsNumber_append hback hmore)
  | @lastItem cs j _ ih =>
    intro fuel more hfuel
    rw [List.length_append, List.length_singleton] at hfuel
    -- The bracket ends a number, so the item is read up to it.
    obtain ⟨n, rfl⟩ : ∃ n, fuel = n + 1 := ⟨fuel - 1, by omega⟩
    obtain ⟨left, hread, hleft⟩ := ih n (']' :: more) (by omega)
      (endsNumber_cons (by decide))
    rw [skipGaps_cons rfl] at hleft
    rw [List.append_assoc, readItems]
    simp [hread, hleft]
  -- The comma ends a number, too; the items behind it are shorter by at least the comma.
  | @nextItem cs rest j items _ _ ih ihrest =>
    intro fuel more hfuel
    rw [List.length_append, List.length_cons] at hfuel
    obtain ⟨n, rfl⟩ : ∃ n, fuel = n + 1 := ⟨fuel - 1, by omega⟩
    obtain ⟨left, hread, hleft⟩ := ih n (',' :: (rest ++ more)) (by omega)
      (endsNumber_cons (by decide))
    rw [skipGaps_cons rfl] at hleft
    have hrest := ihrest n more (by omega)
    rw [List.append_assoc, List.cons_append, readItems]
    simp [hread, hleft, hrest]
  -- Gaps, the key, gaps and the colon are taken in turn, and then the value.
  | @entry front key back cs pieces j hfront hkey hback _ ih =>
    intro fuel more hfuel hmore
    obtain ⟨taken, hcs, htaken⟩ := readPieces_taken hkey
    rw [List.append_nil] at hcs
    subst hcs
    obtain ⟨left, hread, hleft⟩ := ih fuel more (by simp at hfuel; omega) hmore
    have hcolon : skipGaps (back ++ ':' :: (cs ++ more)) = ':' :: (cs ++ more) := by
      rw [skipGaps_append hback, skipGaps_cons rfl]
    rw [List.append_assoc, readEntries, skipGaps_append hfront, List.cons_append, skipGaps_cons rfl]
    simp only [List.append_assoc, List.cons_append, htaken, hcolon, hread, hleft, keyOf,
      Option.bind_eq_bind, Option.bind_some]
    rfl
  -- How an entry ends is left open in `Readable`; here it ends with the brace.
  | @lastEntry cs key j _ ih =>
    intro fuel more hfuel
    rw [List.length_append, List.length_singleton] at hfuel
    obtain ⟨n, rfl⟩ : ∃ n, fuel = n + 1 := ⟨fuel - 1, by omega⟩
    have hentry := ih n ('}' :: more) (by omega) (endsNumber_cons (by decide))
    rw [skipGaps_cons rfl] at hentry
    rw [List.append_assoc]
    exact hentry
  -- And here with a comma, behind which the other entries are read.
  | @nextEntry cs rest key j entries _ _ ih ihrest =>
    intro fuel more hfuel
    rw [List.length_append, List.length_cons] at hfuel
    obtain ⟨n, rfl⟩ : ∃ n, fuel = n + 1 := ⟨fuel - 1, by omega⟩
    have hentry := ih n (',' :: (rest ++ more)) (by omega)
      (endsNumber_cons (by decide))
    have hrest := ihrest n more (by omega)
    rw [List.append_assoc, List.cons_append, hentry, skipGaps_cons rfl]
    simp [hrest]

/-! ## §5 Documents -/

/-- **The texts that are documents**: what `parse` accepts is a value, with gaps around it at most.
-/
theorem parse_eq_some_iff {s : String} : parse s = some j ↔ Written s.toList (.spaced j) := by
  unfold parse
  constructor
  · intro h
    obtain ⟨⟨value, rest⟩, hread, hend⟩ := Option.bind_eq_some_iff.mp h
    dsimp only at hend
    obtain ⟨hrest, rfl⟩ : (skipGaps rest).isEmpty = true ∧ value = j := by simpa using hend
    rw [List.isEmpty_iff, skipGaps_eq_nil_iff] at hrest
    obtain ⟨front, taken, hfront, hcs, hwritten⟩ := (written_of_readers _).1 hread
    exact hcs ▸ .spaced hfront hrest hwritten
  · intro h
    -- The fuel that the text is given is enough for all of it.
    obtain ⟨left, hread, hleft⟩ := h.readable (2 * s.toList.length + 2) []
      (by omega) (by simp [EndsNumber])
    rw [List.append_nil] at hread
    have hend : skipGaps left = [] := hleft
    simp [hread, hend]

/-- The bracket or brace that closes a list of `items` or `entries`. -/
theorem Written.closing {part : Part} (h : Written cs part) :
    (∀ items, part = .items items → ∃ init, cs = init ++ [']']) ∧
    (∀ entries, part = .entries entries → ∃ init, cs = init ++ ['}']) := by
  induction h with
  | @lastItem cs j _ _ => exact ⟨fun _ _ => ⟨cs, rfl⟩, by simp⟩
  | @nextItem cs rest j items _ _ _ ih =>
    obtain ⟨init, rfl⟩ := ih.1 items rfl
    exact ⟨fun _ _ => ⟨cs ++ ',' :: init, by simp⟩, by simp⟩
  | @lastEntry cs key j _ _ => exact ⟨by simp, fun _ _ => ⟨cs, rfl⟩⟩
  | @nextEntry cs rest key j entries _ _ _ ih =>
    obtain ⟨init, rfl⟩ := ih.2 entries rfl
    exact ⟨by simp, fun _ _ => ⟨cs ++ ',' :: init, by simp⟩⟩
  | _ => simp

/-- A value begins with a character that is no gap. -/
theorem Written.head (h : Written cs (.value j)) : ∃ c tail, cs = c :: tail ∧ isGap c = false := by
  generalize hpart : Part.value j = part at h
  cases h with
  -- A number begins with a digit or a minus; the other values have a first character of their own.
  | number hread =>
    obtain ⟨c, tail, rfl, hc⟩ := head_of_readNumber hread
    exact ⟨c, tail, rfl, isGap_of_beginsNumber hc⟩
  | null | yes | no | quoted | emptyList | list | emptyRecord | record => exact ⟨_, _, rfl, rfl⟩
  | _ => cases hpart

/-- A value that opens with a brace is a record `ofEntries`, up to the brace that closes it. -/
theorem Written.braces (h : Written ('{' :: cs) (.value j)) :
    ∃ inside entries, cs = inside ++ ['}'] ∧ j = ofEntries entries := by
  generalize hpart : Part.value j = part at h
  generalize hall : '{' :: cs = all at h
  cases h with
  | number hread =>
    obtain ⟨c, tail, rfl, hc⟩ := head_of_readNumber hread
    cases hall
    exact absurd hc (by decide)
  | @emptyRecord gaps _ =>
    cases hpart
    cases hall
    exact ⟨gaps, [], rfl, rfl⟩
  | @record cs' entries hentries =>
    cases hpart
    cases hall
    obtain ⟨inside, rfl⟩ := hentries.closing.2 entries rfl
    exact ⟨inside, entries, rfl, rfl⟩
  | _ => simp_all

/-- **A text that is one record**: a document that opens with a brace. -/
structure RecordText (text : String) (document : Json) : Prop where
  written : Written text.toList (.spaced document)
  opens   : (skipGaps text.toList).head? = some '{'

namespace RecordText

variable {text : String} {document : Json}

theorem parse_eq (h : RecordText text document) : parse text = some document :=
  parse_eq_some_iff.mpr h.written

/-- Between its gaps the text goes from brace to brace. -/
theorem exists_body (h : RecordText text document) :
    ∃ front inside back, text.toList = front ++ ('{' :: inside ++ ['}']) ++ back ∧ Gaps front ∧
      Gaps back ∧ Written ('{' :: inside ++ ['}']) (.value document) := by
  obtain ⟨hwritten, hopens⟩ := h
  generalize text.toList = cs at hwritten hopens
  cases hwritten with
  | @spaced front body back _ hfront hback hbody =>
    obtain ⟨c, tail, rfl, hc⟩ := hbody.head
    rw [List.append_assoc, skipGaps_append hfront, List.cons_append, skipGaps_cons hc] at hopens
    cases hopens
    obtain ⟨inside, -, rfl, -⟩ := hbody.braces
    exact ⟨front, inside, back, rfl, hfront, hback, hbody⟩

/-- It is a record of its entries, unless the text of one of its keys is `unreadable`. -/
theorem eq_obj_or_unreadable (h : RecordText text document) :
    (∃ entries, document = .obj entries) ∨ document = .unreadable := by
  obtain ⟨front, inside, back, -, -, -, hbody⟩ := h.exists_body
  obtain ⟨-, entries, -, rfl⟩ := hbody.braces
  unfold ofEntries
  split
  · exact .inl ⟨_, rfl⟩
  · exact .inr rfl

end RecordText

end LoopAnalysis.Json
