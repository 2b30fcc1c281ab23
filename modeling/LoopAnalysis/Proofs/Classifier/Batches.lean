import LoopAnalysis.Classifier.Adapter
import LoopAnalysis.Classifier.StandIn
import LoopAnalysis.Proofs.Opinion.Entries
import Mathlib.Algebra.Order.Floor.Div

/-!
# Batches of candidates

Candidates are sent in chunks, one call for each, and the outcomes are strung together again. Every
outcome comes from the reply to the candidate's own chunk and, if there is a document in it, from
the candidate's own entry.

## Main definitions

- `Classifier.batchReplies`: the replies to chunks that are sent one after another;
- `Reply.Answers`: what the reply to a chunk says about one of its candidates;
- `Reply.AlikeFor`: two replies that say the same about one candidate.

## Main statements

- `Adapter.getElem?_chunksOf`, `Adapter.length_chunksOf`: what the chunks of a list are;
- `Adapter.answers_of_classifyChunks`: where the outcomes of a run come from;
- `Adapter.classifyBatch_isolates`: one outcome for each candidate, from its own entry.
-/

namespace LoopAnalysis

/-! ## §1 Chunks -/

namespace Adapter

section Chunks

variable {α : Type} (size : Nat) (xs : List α)

/-- The chunk at position `j` starts `j` times the size into the list. -/
theorem getElem?_chunksOf (j : Nat) :
    (chunksOf size xs)[j]? =
      if j * max size 1 < xs.length then
        some ((xs.drop (j * max size 1)).take (max size 1)) else none := by
  have hsize : max size 1 = size - 1 + 1 := by omega
  rw [hsize]
  induction xs using chunksOf.induct size generalizing j with
  | case1 => simp [chunksOf]
  | case2 x rest ih =>
    rw [chunksOf]
    cases j with
    | zero => simp
    | succ j =>
      -- The chunks that are left are those of the list without its first chunk.
      rw [List.getElem?_cons_succ, ih, List.drop_drop, List.length_drop, List.length_cons]
      have hstart : (j + 1) * (size - 1 + 1) = size - 1 + j * (size - 1 + 1) + 1 := by
        rw [Nat.succ_mul]
        omega
      rw [hstart, List.drop_succ_cons]
      congr 1
      simp only [eq_iff_iff]
      omega

/-- The list `chunksOf` has as many chunks as it takes. -/
theorem length_chunksOf : (chunksOf size xs).length = xs.length ⌈/⌉ max size 1 := by
  apply eq_of_forall_ge_iff
  intro j
  rw [ceilDiv_le_iff_le_mul (by omega), ← List.getElem?_eq_none_iff, getElem?_chunksOf,
    ite_eq_right_iff, Nat.mul_comm]
  simp

theorem flatten_chunksOf : (chunksOf size xs).flatten = xs := by
  induction xs using chunksOf.induct size with
  | case1 => simp [chunksOf]
  | case2 x rest ih => rw [chunksOf, List.flatten_cons, ih, List.cons_append, List.take_append_drop]

end Chunks

end Adapter

/-! ## §2 Replies -/

namespace Classifier

variable {σ : Type} (classifier : Classifier σ)

/-- The replies to chunks that are sent one after another, each by `askBatch` in the state that the
one before left. -/
def batchReplies : List (List Candidate) → σ → List Reply
  | [], _ => []
  | chunk :: rest, state =>
    (classifier.askBatch chunk state).1 :: batchReplies rest (classifier.askBatch chunk state).2

/-- Every one of the `batchReplies` is a reply to the chunk at its position. -/
theorem getElem?_batchReplies (chunks : List (List Candidate)) (state : σ) (j : Nat) :
    ∃ reached, (classifier.batchReplies chunks state)[j]? =
      chunks[j]?.map fun chunk => (classifier.askBatch chunk reached).1 := by
  -- Induct on the chunks, from whatever state the first of them leaves.
  induction chunks generalizing state j with
  | nil => exact ⟨state, by simp [batchReplies]⟩
  | cons chunk rest ih =>
    cases j with
    | zero => exact ⟨state, by simp [batchReplies]⟩
    | succ j =>
      obtain ⟨reached, hreached⟩ := ih (classifier.askBatch chunk state).2 j
      exact ⟨reached, by simpa [batchReplies] using hreached⟩

end Classifier

namespace Reply

variable {r r' : Reply} {patience index : Nat} {o o' : Outcome}

/-- **What the reply to a chunk says about the candidate at an index of it.** -/
inductive Answers (r : Reply) (patience index : Nat) : Outcome → Prop where
  /-- A call that failed or took too long gives its reason for every candidate. -/
  | failed {e : ClassifierError} (hfails : r.within patience = .error e) :
      Answers r patience index (.unavailable e.reason)
  /-- So does a text that gives no document, for the reason `malformed`. The document is what
  `extractDocument` cuts out of the text and `Json.parseValue` reads, so that this is also the case
  of a bare array with fences inside one of its strings: there the cut takes less than the array. -/
  | garbled {raw : String} (hraw : r.within patience = .ok raw)
      (hreads : Json.parseValue (extractDocument raw) = none) :
      Answers r patience index (.unavailable .malformed)
  /-- A document gives what `entryOutcome` makes of its entry for the candidate. -/
  | entry {raw : String} {document : Json} {entry : Option Json}
      (hraw : r.within patience = .ok raw)
      (hreads : Json.parseValue (extractDocument raw) = some document)
      (hentry : EntryFor index document entry) : Answers r patience index (entryOutcome entry)

theorem Answers.unique (h : r.Answers patience index o) (h' : r.Answers patience index o') :
    o = o' := by
  -- Which of the three cases applies is decided by the reply and its text.
  cases h with
  | failed hfails =>
    cases h' with
    | failed hfails' =>
      obtain rfl := Except.error.inj (hfails.symm.trans hfails')
      rfl
    | garbled hraw' => cases hfails.symm.trans hraw'
    | entry hraw' => cases hfails.symm.trans hraw'
  | garbled hraw hreads =>
    cases h' with
    | failed hfails' => cases hraw.symm.trans hfails'
    | garbled => rfl
    | entry hraw' hreads' =>
      obtain rfl := Except.ok.inj (hraw.symm.trans hraw')
      cases hreads.symm.trans hreads'
  | entry hraw hreads hentry =>
    cases h' with
    | failed hfails' => cases hraw.symm.trans hfails'
    | garbled hraw' hreads' =>
      obtain rfl := Except.ok.inj (hraw.symm.trans hraw')
      cases hreads.symm.trans hreads'
    | entry hraw' hreads' hentry' =>
      obtain rfl := Except.ok.inj (hraw.symm.trans hraw')
      obtain rfl := Option.some.inj (hreads.symm.trans hreads')
      rw [← entryFor_iff.mp hentry, ← entryFor_iff.mp hentry']

/-- Two replies that say the same about the candidate at an index: both come to the same text or
failure, or to documents that are the same but for the entries of other candidates
(`DiffersElsewhere`). -/
inductive AlikeFor (patience index : Nat) (r r' : Reply) : Prop where
  | same (hsame : r.within patience = r'.within patience)
  | documents {raw raw' : String} {document document' : Json}
      (hraw : r.within patience = .ok raw) (hraw' : r'.within patience = .ok raw')
      (hreads : Json.parseValue (extractDocument raw) = some document)
      (hreads' : Json.parseValue (extractDocument raw') = some document')
      (hdiffers : DiffersElsewhere index document document')

theorem AlikeFor.answers (halike : AlikeFor patience index r r')
    (h : r.Answers patience index o) : r'.Answers patience index o := by
  cases halike with
  | same hsame =>
    cases h with
    | failed hfails => exact .failed (hsame.symm.trans hfails)
    | garbled hraw hreads => exact .garbled (hsame.symm.trans hraw) hreads
    | entry hraw hreads hentry => exact .entry (hsame.symm.trans hraw) hreads hentry
  | documents hraw hraw' hreads hreads' hdiffers =>
    -- The first reply can only answer from its document, and the entry is the same in the other.
    have hfirst := Answers.entry hraw hreads (entryFor_batchEntry _ index)
    rw [h.unique hfirst, batchEntry_eq_of_differsElsewhere hdiffers]
    exact .entry hraw' hreads' (entryFor_batchEntry _ index)

theorem Answers.quality_ne_error {opinion : Opinion}
    (h : r.Answers patience index (.opinion opinion)) : opinion.quality ≠ .error := by
  generalize hopinion : Outcome.opinion opinion = o at h
  cases h with
  | failed => cases hopinion
  | garbled => cases hopinion
  | entry => exact quality_ne_error_of_entryOutcome hopinion.symm

end Reply

/-! ## §3 Outcomes -/

namespace Adapter

variable {σ : Type} (a : Adapter σ) (classifier : Classifier σ) (candidates : List Candidate)
  (s : AdapterState σ)

@[simp] theorem length_chunkOutcomes (size : Nat) (r : Reply) :
    (a.chunkOutcomes size r).length = size := by
  unfold chunkOutcomes
  split
  · unfold parseBatch
    split <;> simp
  · simp

/-- The `chunkOutcomes` are the answers of the reply, in order. -/
theorem answers_of_chunkOutcomes {size index : Nat} {r : Reply} {o : Outcome}
    (h : (a.chunkOutcomes size r)[index]? = some o) :
    r.Answers a.settings.patience index o := by
  unfold chunkOutcomes at h
  split at h
  · next raw hraw =>
    unfold parseBatch at h
    split at h
    · next hreads =>
      -- Without a document every candidate gets the same outcome.
      rw [List.eq_of_mem_replicate (List.mem_of_getElem? h)]
      exact .garbled hraw hreads
    · next document hreads =>
      -- A document is asked for the entry at each index in turn.
      rw [List.getElem?_map, Option.map_eq_some_iff] at h
      obtain ⟨i, hi, rfl⟩ := h
      obtain ⟨hlt, hi⟩ := List.getElem?_eq_some_iff.mp hi
      rw [List.getElem_range] at hi
      subst hi
      exact .entry hraw hreads (entryFor_batchEntry document _)
  · next e hfails =>
    rw [List.eq_of_mem_replicate (List.mem_of_getElem? h)]
    exact .failed hfails

theorem classifyChunks_cons (chunk : List Candidate) (rest : List (List Candidate)) :
    (a.classifyChunks classifier (chunk :: rest) s).1 =
      a.chunkOutcomes chunk.length (classifier.askBatch chunk s.inner).1 ++
        (a.classifyChunks classifier rest
          { s with inner := (classifier.askBatch chunk s.inner).2, calls := s.calls + 1 }).1 := rfl

/-- One call is made for each chunk, and there is one outcome for each candidate of a chunk. -/
theorem counts_of_classifyChunks (chunks : List (List Candidate)) :
    (a.classifyChunks classifier chunks s).2.calls = s.calls + chunks.length ∧
      (a.classifyChunks classifier chunks s).1.length = chunks.flatten.length := by
  induction chunks generalizing s with
  | nil => exact ⟨rfl, rfl⟩
  | cons chunk rest ih =>
    obtain ⟨hcalls, hlength⟩ :=
      ih { s with inner := (classifier.askBatch chunk s.inner).2, calls := s.calls + 1 }
    constructor
    · rw [List.length_cons, Nat.add_comm rest.length, ← Nat.add_assoc]
      exact hcalls
    · rw [classifyChunks_cons, List.length_append, hlength, length_chunkOutcomes,
        List.flatten_cons, List.length_append]

/-- **Where the outcomes of `classifyChunks` come from**: the one at position `k` is the answer of
the reply to the chunk in which that position lies. -/
theorem answers_of_classifyChunks (size : Nat) {k : Nat} {o : Outcome}
    (h : (a.classifyChunks classifier (chunksOf size candidates) s).1[k]? = some o) :
    ∃ r, (classifier.batchReplies (chunksOf size candidates) s.inner)[k / max size 1]? = some r ∧
      r.Answers a.settings.patience (k % max size 1) o := by
  induction candidates using chunksOf.induct size generalizing k s with
  | case1 => simp [chunksOf, classifyChunks] at h
  | case2 c rest ih =>
    rw [chunksOf] at h ⊢
    rw [classifyChunks_cons] at h
    rw [Classifier.batchReplies]
    by_cases hk : k < (c :: rest.take (size - 1)).length
    · -- The position lies in the first chunk.
      rw [List.getElem?_append_left (by rwa [length_chunkOutcomes])] at h
      have hfirst : k < max size 1 := by
        rw [List.length_cons, List.length_take] at hk
        omega
      rw [Nat.div_eq_of_lt hfirst, Nat.mod_eq_of_lt hfirst]
      exact ⟨_, rfl, a.answers_of_chunkOutcomes h⟩
    · -- It lies behind the first chunk, which is then a full one.
      rw [Nat.not_lt] at hk
      rw [List.getElem?_append_right (by rwa [length_chunkOutcomes]), length_chunkOutcomes] at h
      have hfull : (c :: rest.take (size - 1)).length = max size 1 := by
        cases hrest : rest.drop (size - 1) with
        | nil => simp [hrest, chunksOf, classifyChunks] at h
        | cons d others =>
          have hlength := congrArg List.length hrest
          simp only [List.length_drop, List.length_cons, List.length_take] at hlength ⊢
          omega
      rw [hfull] at h hk
      obtain ⟨k', rfl⟩ := Nat.exists_eq_add_of_le' hk
      rw [Nat.add_sub_cancel] at h
      obtain ⟨r, hr, hanswers⟩ := ih _ h
      rw [Nat.add_div_right k' (by omega), Nat.add_mod_right]
      exact ⟨r, hr, hanswers⟩

/-! ## §4 Whole batches -/

/-- How many candidates go into a chunk: the `batchSize` of the settings, but at least one. -/
def chunkSize : Nat := max a.settings.batchSize 1

/-- The replies to the chunks of a list of candidates, from a given state of the classifier. -/
def replies (state : σ) : List Reply :=
  classifier.batchReplies (chunksOf a.settings.batchSize candidates) state

theorem chunkSize_pos : 0 < a.chunkSize := by
  unfold chunkSize
  omega

/-- A candidate is asked about with the chunk in which its position lies, at its place there. -/
theorem asked_with_chunk {k : Nat} {c : Candidate} (hc : candidates[k]? = some c) (state : σ) :
    ∃ chunk reached, chunk = (candidates.drop (k / a.chunkSize * a.chunkSize)).take a.chunkSize ∧
      chunk[k % a.chunkSize]? = some c ∧
      (a.replies classifier candidates state)[k / a.chunkSize]? =
        some (classifier.askBatch chunk reached).1 := by
  have hstart : k / a.chunkSize * a.chunkSize + k % a.chunkSize = k :=
    Nat.div_add_mod' k a.chunkSize
  obtain ⟨reached, hreached⟩ := classifier.getElem?_batchReplies
    (chunksOf a.settings.batchSize candidates) state (k / a.chunkSize)
  refine ⟨_, reached, rfl, ?_, ?_⟩
  · rw [List.getElem?_take_of_lt (Nat.mod_lt k a.chunkSize_pos), List.getElem?_drop, hstart, hc]
  · -- The chunk starts no later than the candidate stands.
    have hlt := (List.getElem?_eq_some_iff.mp hc).1
    have hbefore : k / a.chunkSize * a.chunkSize < candidates.length := by omega
    rw [replies, hreached, getElem?_chunksOf, ← chunkSize, if_pos hbefore, Option.map_some]

variable {a classifier candidates s} {k : Nat}

theorem classifyBatch_of_active (hactive : a.active? = some classifier) :
    a.classifyBatch candidates s =
      a.classifyChunks classifier (chunksOf a.settings.batchSize candidates) s := by
  rw [classifyBatch, hactive]

theorem answers_of_classifyBatch (hactive : a.active? = some classifier) {o : Outcome}
    (h : (a.classifyBatch candidates s).1[k]? = some o) :
    ∃ r, (a.replies classifier candidates s.inner)[k / a.chunkSize]? = some r ∧
      r.Answers a.settings.patience (k % a.chunkSize) o := by
  rw [classifyBatch_of_active hactive] at h
  exact a.answers_of_classifyChunks classifier candidates s a.settings.batchSize h

theorem length_classifyBatch (hactive : a.active? = some classifier) :
    (a.classifyBatch candidates s).1.length = candidates.length := by
  rw [classifyBatch_of_active hactive, (a.counts_of_classifyChunks classifier s _).2,
    flatten_chunksOf]

/-- Two batches, of whatever candidates and classifiers, have the same outcome at a position if the
replies to the chunk in which it lies are `AlikeFor` it. -/
theorem outcome_eq_of_alikeFor {τ : Type} {b : Adapter τ} {other : Classifier τ}
    {others : List Candidate} {t : AdapterState τ} {r r' : Reply}
    (hactive : a.active? = some classifier) (hother : b.active? = some other)
    (hsettings : b.settings = a.settings)
    (hr : (a.replies classifier candidates s.inner)[k / a.chunkSize]? = some r)
    (hr' : (b.replies other others t.inner)[k / a.chunkSize]? = some r')
    (halike : Reply.AlikeFor a.settings.patience (k % a.chunkSize) r r')
    (hk : k < candidates.length) (hk' : k < others.length) :
    (a.classifyBatch candidates s).1[k]? = (b.classifyBatch others t).1[k]? := by
  have hsize : b.chunkSize = a.chunkSize := by rw [chunkSize, chunkSize, hsettings]
  rw [← length_classifyBatch hactive (s := s)] at hk
  rw [← length_classifyBatch hother (s := t)] at hk'
  have ho := List.getElem?_eq_getElem hk
  have ho' := List.getElem?_eq_getElem hk'
  obtain ⟨q, hq, hanswers⟩ := answers_of_classifyBatch hactive ho
  obtain ⟨q', hq', hanswers'⟩ := answers_of_classifyBatch hother ho'
  rw [hsize] at hq' hanswers'
  rw [hsettings] at hanswers'
  -- The outcomes are answers of the two replies, and what one of them answers the other does too.
  obtain rfl := Option.some.inj (hq.symm.trans hr)
  obtain rfl := Option.some.inj (hq'.symm.trans hr')
  rw [ho, ho', (halike.answers hanswers).unique hanswers']

/-- **One outcome for each candidate, from its own entry.** With a classifier to ask, there is one
call for each chunk and one outcome for each candidate. The outcome for a candidate is what the
reply to its chunk `Answers` at its place there; so it is the same in every batch in which that
reply is `AlikeFor` it, whatever else is asked and answered. No opinion among the outcomes lacks a
quality. -/
theorem classifyBatch_isolates (a : Adapter σ) (classifier : Classifier σ)
    (hactive : a.active? = some classifier) (candidates : List Candidate) (s : AdapterState σ) :
    (a.classifyBatch candidates s).2.calls = s.calls + candidates.length ⌈/⌉ a.chunkSize ∧
    (a.classifyBatch candidates s).1.length = candidates.length ∧
    (∀ (k : Nat) (c : Candidate), candidates[k]? = some c → ∃ chunk reached o,
      chunk = (candidates.drop (k / a.chunkSize * a.chunkSize)).take a.chunkSize ∧
      chunk[k % a.chunkSize]? = some c ∧
      (a.replies classifier candidates s.inner)[k / a.chunkSize]? =
        some (classifier.askBatch chunk reached).1 ∧
      (a.classifyBatch candidates s).1[k]? = some o ∧
      (classifier.askBatch chunk reached).1.Answers a.settings.patience (k % a.chunkSize) o) ∧
    (∀ (τ : Type) (b : Adapter τ) (other : Classifier τ) (others : List Candidate)
        (t : AdapterState τ) (k : Nat) (r r' : Reply),
      b.active? = some other → b.settings = a.settings →
      k < candidates.length → k < others.length →
      (a.replies classifier candidates s.inner)[k / a.chunkSize]? = some r →
      (b.replies other others t.inner)[k / a.chunkSize]? = some r' →
      Reply.AlikeFor a.settings.patience (k % a.chunkSize) r r' →
        (a.classifyBatch candidates s).1[k]? = (b.classifyBatch others t).1[k]?) ∧
    ∀ o, Outcome.opinion o ∈ (a.classifyBatch candidates s).1 → o.quality ≠ .error := by
  refine ⟨?_, length_classifyBatch hactive, ?_, ?_, ?_⟩
  · rw [classifyBatch_of_active hactive, (a.counts_of_classifyChunks classifier s _).1,
      length_chunksOf, ← chunkSize]
  · intro k c hc
    obtain ⟨chunk, reached, hchunk, hplace, hreply⟩ :=
      a.asked_with_chunk classifier candidates hc s.inner
    have hk : k < (a.classifyBatch candidates s).1.length := by
      rw [length_classifyBatch hactive]
      exact (List.getElem?_eq_some_iff.mp hc).1
    -- The outcome at its position answers the reply to the chunk that it was sent with.
    have ho := List.getElem?_eq_getElem hk
    obtain ⟨r, hr, hanswers⟩ := answers_of_classifyBatch hactive ho
    obtain rfl := Option.some.inj (hr.symm.trans hreply)
    exact ⟨chunk, reached, _, hchunk, hplace, hreply, ho, hanswers⟩
  · intro τ b other others t k r r' hother hsettings hk hk' hr hr' halike
    exact outcome_eq_of_alikeFor hactive hother hsettings hr hr' halike hk hk'
  · intro o ho
    obtain ⟨k, hk⟩ := List.getElem?_of_mem ho
    obtain ⟨r, -, hanswers⟩ := answers_of_classifyBatch hactive hk
    exact hanswers.quality_ne_error

end Adapter

namespace Script

/-- An adapter with a `batchSize` of two. -/
def inPairs : Adapter (List Reply) := .ofClassifier classifier { enabled := true, batchSize := 2 }

/-- Three candidates that are told apart by their line. -/
def threeCandidates : List Candidate :=
  [1, 2, 3].map fun line =>
    { candidateType := "map", file := "", function := "f", line, reason := ""
      suggestedPatch := "" }

/-- Replies to two pairs: two entries for the first pair, and for the second nothing in time. -/
def thenLate (second : String) : List Reply :=
  [{ body := .ok ("[\x7b\"quality\": \"safe\"\x7d, " ++ second ++ "]") },
    { delayMs := 60000, body := .ok "[]" }]

theorem replies_inPairs (second : String) :
    inPairs.replies classifier threeCandidates (thenLate second) = thenLate second := by
  simp [Adapter.replies, inPairs, Adapter.ofClassifier, threeCandidates, Adapter.chunksOf,
    Classifier.batchReplies, thenLate, classifier, next]

/-- The theorem at three candidates: there are two calls; what is said about the second candidate
makes no difference to the first; and the third, alone in its chunk, has nothing but the reason why
the second call failed. -/
theorem threeCandidates_isolated :
    (inPairs.classifyBatch threeCandidates (inPairs.start (thenLate "null"))).2.calls = 2 ∧
    (inPairs.classifyBatch threeCandidates (inPairs.start (thenLate "null"))).1[0]? =
      (inPairs.classifyBatch threeCandidates (inPairs.start (thenLate "[3]"))).1[0]? ∧
    (inPairs.classifyBatch threeCandidates (inPairs.start (thenLate "null"))).1[2]? =
      some (.unavailable .timeout) := by
  obtain ⟨hcalls, -, hplaces, hsame, -⟩ := Adapter.classifyBatch_isolates inPairs classifier rfl
    threeCandidates (inPairs.start (thenLate "null"))
  refine ⟨hcalls, ?_, ?_⟩
  · have hnull : Json.parseValue (extractDocument "[\x7b\"quality\": \"safe\"\x7d, null]") =
        some (.arr [.obj [("quality", .str "safe")], .null]) := by cbv
    have hlist : Json.parseValue (extractDocument "[\x7b\"quality\": \"safe\"\x7d, [3]]") =
        some (.arr [.obj [("quality", .str "safe")], .arr [.int 3]]) := by cbv
    exact hsame _ inPairs classifier threeCandidates (inPairs.start (thenLate "[3]")) 0 _ _ rfl rfl
      (by decide) (by decide)
      (congrArg (·[0]?) (replies_inPairs "null")) (congrArg (·[0]?) (replies_inPairs "[3]"))
      (.documents rfl rfl hnull hlist (.listed rfl))
  · obtain ⟨chunk, reached, o, -, -, hreply, ho, hanswers⟩ := hplaces 2 _ rfl
    -- The second call has failed, and there is no other answer.
    have hlate := Option.some.inj (hreply.symm.trans (congrArg (·[1]?) (replies_inPairs "null")))
    rw [hlate] at hanswers
    rw [ho, hanswers.unique (.failed rfl)]
    rfl

end Script

end LoopAnalysis
