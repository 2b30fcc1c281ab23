import LoopAnalysis.Classifier.Adapter
import LoopAnalysis.Classifier.StandIn
import LoopAnalysis.Proofs.Classifier.Recency

/-!
# Opinions that are recalled

An adapter keeps the opinions on single loops and gives them again without a call. What it does
with a request is a matter of the log of earlier exchanges: it recalls the latest opinion on the
request if only few others were asked about with success since, and calls the classifier otherwise.
A call that fails leaves no trace.

Requests and exchanges are listed the latest first, so that a list of earlier ones grows at its
head.

## Main definitions

- `Exchange`: a request with what became of it;
- `Adapter.stateAfter`, `Adapter.log`: where requests lead and what became of each of them;
- `Adapter.Served`: the three things that can become of a request;
- `Adapter.Kept`: what the cache has to do with the log.

## Main statements

- `Adapter.served_classify`: nothing else becomes of a request;
- `Adapter.Kept.step`, `Adapter.kept_stateAfter`: what one request and a whole run preserve;
- `Adapter.outcomes_of_constant`: runs with a classifier that depends on the request alone;
- `Adapter.classify_recalls_latest`: when a request is answered without a call, and how.
-/

namespace LoopAnalysis

/-! ## §1 Exchanges -/

/-- A request with what became of it. -/
structure Exchange where
  request : ClassificationRequest
  /-- The reply, if the classifier was called. -/
  reply?  : Option Reply
  outcome : Outcome

namespace Exchange

/-- The requests of a log whose `outcome` is an opinion. -/
def answered (log : List Exchange) : List ClassificationRequest :=
  (log.filter (·.outcome.opinion?.isSome)).map (·.request)

/-- The reply to the latest call about a request; exchanges without a call are passed over. -/
def latestReply? (log : List Exchange) (request : ClassificationRequest) : Option Reply :=
  log.findSome? fun x => if x.request = request then x.reply? else none

variable {x : Exchange} {log : List Exchange} {request : ClassificationRequest}

theorem answered_cons_of_opinion {o : Opinion} (h : x.outcome = .opinion o) :
    answered (x :: log) = x.request :: answered log := by
  simp [answered, h, Outcome.opinion?]

theorem answered_cons_of_unavailable {reason : Unavailable} (h : x.outcome = .unavailable reason) :
    answered (x :: log) = answered log := by
  simp [answered, h, Outcome.opinion?]

theorem latestReply?_cons_of_ne (h : x.request ≠ request) :
    latestReply? (x :: log) request = latestReply? log request := by
  simp [latestReply?, h]

theorem latestReply?_cons_of_none (h : x.reply? = none) :
    latestReply? (x :: log) request = latestReply? log request := by
  simp [latestReply?, h]

theorem latestReply?_cons_self {reply : Reply} (h : x.reply? = some reply) :
    latestReply? (x :: log) x.request = some reply := by
  simp [latestReply?, h]

end Exchange

/-! ## §2 What becomes of a request -/

namespace Adapter

variable {σ : Type} (a : Adapter σ) (classifier : Classifier σ)

/-- What a reply comes to: the opinion that `opinionOf` finds in it, or the reason why there is
none. -/
def readReply (reply : Reply) : Outcome :=
  match a.opinionOf reply with
  | .ok o => .opinion o
  | .error e => .unavailable e.reason

/-- A request to an adapter in a given state. A call shows in the number of `calls`. -/
def exchange (request : ClassificationRequest) (s : AdapterState σ) : Exchange where
  request := request
  reply? :=
    if (a.classify request s).2.calls = s.calls then none
    else some (classifier.ask request s.inner).1
  outcome := (a.classify request s).1

/-- The state after a list of requests, the latest first. -/
def stateAfter (inner : σ) : List ClassificationRequest → AdapterState σ
  | [] => a.start inner
  | request :: earlier => (a.classify request (stateAfter inner earlier)).2

/-- What became of each of a list of requests, each put in the state that the earlier ones left. -/
def log (inner : σ) : List ClassificationRequest → List Exchange
  | [] => []
  | request :: earlier =>
    a.exchange classifier request (a.stateAfter inner earlier) :: log inner earlier

/-- The state after a call about a request, before anything is kept. -/
def called (request : ClassificationRequest) (s : AdapterState σ) : AdapterState σ :=
  { s with inner := (classifier.ask request s.inner).2, calls := s.calls + 1 }

/-- **What can become of a request** that is given to `classify`. -/
inductive Served (request : ClassificationRequest) (s : AdapterState σ) :
    Outcome → AdapterState σ → Prop where
  /-- An opinion on it is kept and given again. -/
  | recalled {o : Opinion} {cache : RecencyCache ClassificationRequest Opinion}
      (hkept : s.cache.use? request = some (o, cache)) :
      Served request s (.opinion o) { s with cache }
  /-- The classifier is called and the opinion in its reply is kept. -/
  | learned {o : Opinion} (hnew : s.cache.use? request = none)
      (hreply : a.opinionOf (classifier.ask request s.inner).1 = .ok o) :
      Served request s (.opinion o)
        { called classifier request s with cache := s.cache.put request o }
  /-- The classifier is called in vain. -/
  | failed {e : ClassifierError} (hnew : s.cache.use? request = none)
      (hreply : a.opinionOf (classifier.ask request s.inner).1 = .error e) :
      Served request s (.unavailable e.reason) (called classifier request s)

variable {a classifier} {request : ClassificationRequest} {s : AdapterState σ} {inner : σ}

theorem served_classify (hactive : a.active? = some classifier) (request : ClassificationRequest)
    (s : AdapterState σ) :
    a.Served classifier request s (a.classify request s).1 (a.classify request s).2 := by
  unfold classify
  rw [hactive]
  dsimp only
  -- The cache is asked first, and the classifier only where it has nothing.
  split
  · next hkept => exact .recalled hkept
  · next hnew =>
    split
    · next hreply => exact .learned hnew hreply
    · next hreply => exact .failed hnew hreply

/-! ## §3 The cache and the log -/

/-- **What the cache has to do with the log**: its keys are the requests answered with an opinion
last (`Holds`), and every entry has the opinion from the latest call about its request. -/
structure Kept (a : Adapter σ) (log : List Exchange)
    (cache : RecencyCache ClassificationRequest Opinion) : Prop where
  capacity : cache.capacity = a.settings.cacheSize
  holds    : cache.Holds (Exchange.answered log)
  latest   : ∀ request o, (request, o) ∈ cache.entries →
    ∃ reply, Exchange.latestReply? log request = some reply ∧ a.opinionOf reply = .ok o

namespace Kept

variable {log : List Exchange} {cache : RecencyCache ClassificationRequest Opinion}

/-- A request is recalled exactly when few others were answered since it was: `UsedSince` says how
few. -/
theorem isSome_use?_iff (h : a.Kept log cache) :
    (cache.use? request).isSome = true ↔
      UsedSince a.settings.cacheSize (Exchange.answered log) request := by
  rw [← h.capacity, ← h.holds.isSome_find?_iff, RecencyCache.use?, Option.isSome_map]

/-- What `use?` finds is the opinion from the latest call. -/
theorem latest_of_use? {o : Opinion} {cache' : RecencyCache ClassificationRequest Opinion}
    (h : a.Kept log cache) (hkept : cache.use? request = some (o, cache')) :
    cache' = cache.put request o ∧
      ∃ reply, Exchange.latestReply? log request = some reply ∧ a.opinionOf reply = .ok o := by
  rw [h.holds.use?_eq] at hkept
  obtain ⟨value, hfind, heq⟩ := Option.map_eq_some_iff.mp hkept
  cases heq
  exact ⟨rfl, h.latest request o (RecencyCache.mem_entries_of_find? hfind)⟩

/-- An opinion from the latest call about a request may be kept, and the log grows by one exchange.
-/
theorem put {o : Opinion} {x : Exchange} (h : a.Kept log cache) (hrequest : x.request = request)
    (hanswer : x.outcome = .opinion o)
    (hlatest : ∃ reply, Exchange.latestReply? (x :: log) request = some reply ∧
      a.opinionOf reply = .ok o) :
    a.Kept (x :: log) (cache.put request o) := by
  refine ⟨h.capacity, ?_, ?_⟩
  · rw [Exchange.answered_cons_of_opinion hanswer, hrequest]
    exact h.holds.put
  · intro other o' hentry
    rcases RecencyCache.mem_entries_put hentry with heq | ⟨hkept, hother⟩
    · cases heq
      exact hlatest
    · -- The exchange is about another request.
      rw [Exchange.latestReply?_cons_of_ne (by rw [hrequest]; exact hother.symm)]
      exact h.latest other o' hkept

/-- One more request preserves what the cache has to do with the log: the state `classify` leaves is
`Kept` with the exchange that it made. -/
theorem step (hactive : a.active? = some classifier) (h : a.Kept log s.cache) :
    a.Kept (a.exchange classifier request s :: log) (a.classify request s).2.cache := by
  have hserved := served_classify hactive request s
  unfold exchange
  generalize (a.classify request s).1 = outcome at hserved ⊢
  generalize (a.classify request s).2 = s' at hserved ⊢
  cases hserved with
  | recalled hkept =>
    -- No call was made, so that the latest one is the same as before.
    obtain ⟨rfl, reply, hreply, hopinion⟩ := h.latest_of_use? hkept
    refine h.put rfl rfl ⟨reply, ?_, hopinion⟩
    rw [Exchange.latestReply?_cons_of_none (if_pos rfl)]
    exact hreply
  | learned hnew hreply =>
    -- The call that was made is the latest one, and its opinion is kept.
    refine h.put rfl rfl ⟨_, ?_, hreply⟩
    exact Exchange.latestReply?_cons_self (if_neg (Nat.succ_ne_self s.calls))
  | failed hnew hreply =>
    refine ⟨h.capacity, ?_, ?_⟩
    · rw [Exchange.answered_cons_of_unavailable rfl]
      exact h.holds
    · intro other o hentry
      -- Nothing is kept for the request, so the entry is one of another.
      have hother : request ≠ other := by
        rintro rfl
        have hfound : (s.cache.find? request).isSome = true :=
          RecencyCache.isSome_find?_iff_mem_keys.mpr (List.mem_map.mpr ⟨(request, o), hentry, rfl⟩)
        rw [RecencyCache.use?, Option.map_eq_none_iff] at hnew
        simp [hnew] at hfound
      rw [Exchange.latestReply?_cons_of_ne hother]
      exact h.latest other o hentry

end Kept

/-- **After every list of requests** the cache is `Kept` with the log. -/
theorem kept_stateAfter (hactive : a.active? = some classifier) (inner : σ)
    (requests : List ClassificationRequest) :
    a.Kept (a.log classifier inner requests) (a.stateAfter inner requests).cache := by
  induction requests with
  | nil =>
    refine ⟨rfl, RecencyCache.Holds.empty _, ?_⟩
    intro request o hentry
    cases hentry
  | cons request earlier ih => exact ih.step hactive

/-! ## §4 Requests with and without a call -/

theorem isSome_use?_iff_calls_eq (hactive : a.active? = some classifier) :
    (s.cache.use? request).isSome = true ↔ (a.classify request s).2.calls = s.calls := by
  have hserved := served_classify hactive request s
  generalize (a.classify request s).1 = outcome at hserved
  generalize (a.classify request s).2 = s' at hserved ⊢
  cases hserved with
  | recalled hkept => simp [hkept]
  | learned hnew _ => simp [hnew, called]
  | failed hnew _ => simp [hnew, called]

/-- A request for which `use?` finds nothing is put to the classifier. -/
theorem classify_of_use?_eq_none (hactive : a.active? = some classifier)
    (hnew : s.cache.use? request = none) :
    (a.classify request s).2.calls = s.calls + 1 ∧
      (a.classify request s).1 = a.readReply (classifier.ask request s.inner).1 := by
  have hserved := served_classify hactive request s
  generalize (a.classify request s).1 = outcome at hserved ⊢
  generalize (a.classify request s).2 = s' at hserved ⊢
  cases hserved with
  | recalled hkept =>
    rw [hnew] at hkept
    cases hkept
  | learned _ hreply => exact ⟨rfl, by simp [readReply, hreply]⟩
  | failed _ hreply => exact ⟨rfl, by simp [readReply, hreply]⟩

/-- A call in vain changes nothing about what the `cache` keeps. -/
theorem cache_classify_of_unavailable (hactive : a.active? = some classifier)
    {reason : Unavailable} (h : (a.classify request s).1 = .unavailable reason) :
    s.cache.use? request = none ∧ (a.classify request s).2.cache = s.cache := by
  have hserved := served_classify hactive request s
  generalize (a.classify request s).1 = outcome at hserved h
  generalize (a.classify request s).2 = s' at hserved ⊢
  cases hserved with
  | recalled => cases h
  | learned => cases h
  | failed hnew _ => exact ⟨hnew, rfl⟩

/-- A request for which something is `Kept` is answered with the opinion from the latest call. -/
theorem Kept.classify_of_isSome_use? {log : List Exchange} (h : a.Kept log s.cache)
    (hactive : a.active? = some classifier) (hfound : (s.cache.use? request).isSome = true) :
    ∃ reply o, Exchange.latestReply? log request = some reply ∧ a.opinionOf reply = .ok o ∧
      (a.classify request s).1 = .opinion o := by
  obtain ⟨⟨o, cache⟩, hkept⟩ := Option.isSome_iff_exists.mp hfound
  obtain ⟨-, reply, hreply, hopinion⟩ := h.latest_of_use? hkept
  exact ⟨reply, o, hreply, hopinion, by simp [classify, hactive, hkept]⟩

/-! ## §5 Classifiers that depend on the request alone -/

section Constant

variable {answer : ClassificationRequest → Reply}

/-- The `latestReply?` about a request is the only one that there can be. -/
theorem latestReply?_of_constant
    (hconstant : ∀ request state, (classifier.ask request state).1 = answer request)
    {requests : List ClassificationRequest} {reply : Reply}
    (h : Exchange.latestReply? (a.log classifier inner requests) request = some reply) :
    reply = answer request := by
  induction requests with
  | nil => simp [log, Exchange.latestReply?] at h
  | cons latest earlier ih =>
    rw [log] at h
    by_cases hlatest : latest = request
    · -- Either the latest exchange had no call, or its reply is that of the classifier.
      by_cases hcalls : (a.classify latest (a.stateAfter inner earlier)).2.calls =
          (a.stateAfter inner earlier).calls
      · rw [Exchange.latestReply?_cons_of_none (if_pos hcalls)] at h
        exact ih h
      · have hself :
            Exchange.latestReply? (a.exchange classifier latest (a.stateAfter inner earlier) ::
              a.log classifier inner earlier) latest = some _ :=
          Exchange.latestReply?_cons_self (if_neg hcalls)
        rw [← hlatest] at h ⊢
        rw [← hconstant latest (a.stateAfter inner earlier).inner]
        exact Option.some.inj (h.symm.trans hself)
    · rw [Exchange.latestReply?_cons_of_ne hlatest] at h
      exact ih h

/-- **The outcomes for a classifier that depends on the request alone** are those of its replies by
`readReply`, however much is kept. -/
theorem outcomes_of_constant (hactive : a.active? = some classifier) (inner : σ)
    (hconstant : ∀ request state, (classifier.ask request state).1 = answer request)
    (requests : List ClassificationRequest) :
    (a.log classifier inner requests).map (·.outcome) =
      requests.map fun request => a.readReply (answer request) := by
  induction requests with
  | nil => rfl
  | cons request earlier ih =>
    rw [log, List.map_cons, List.map_cons, ih]
    congr 1
    have hkept := kept_stateAfter hactive inner earlier
    -- Either an earlier reply to the same request is recalled, or the classifier gives it again.
    by_cases hfound : ((a.stateAfter inner earlier).cache.use? request).isSome = true
    · obtain ⟨reply, o, hreply, hopinion, houtcome⟩ := hkept.classify_of_isSome_use? hactive hfound
      rw [latestReply?_of_constant hconstant hreply] at hopinion
      simp [exchange, houtcome, readReply, hopinion]
    · rw [Option.not_isSome_iff_eq_none] at hfound
      have houtcome := (classify_of_use?_eq_none hactive hfound).2
      rw [hconstant] at houtcome
      exact houtcome

end Constant

/-! ## §6 Recalling the latest opinion -/

/-- The adapter with room for `size` opinions. -/
def withCacheSize (a : Adapter σ) (size : Nat) : Adapter σ :=
  { a with settings := { a.settings with cacheSize := size } }

/-- **Opinions are recalled exactly, and only opinions are.** Take an adapter with a classifier to
ask, any list of earlier requests and one more. There are never more entries than the `cacheSize`
has room for, nor two for one request. An outcome without an opinion leaves the entries as they
were, and the same request is then put to the classifier again. No call is made exactly when the
request was answered with an opinion before and fewer distinct others were since than there is room
for (`UsedSince`); then the outcome is the opinion from the latest call about it. Otherwise one call
is made, and the outcome is what its reply comes to. So with a classifier that depends on the
request alone, the outcomes of a whole run are the same as without any room. -/
theorem classify_recalls_latest (a : Adapter σ) (classifier : Classifier σ)
    (hactive : a.active? = some classifier) (inner : σ) (earlier : List ClassificationRequest)
    (request : ClassificationRequest) :
    ((a.stateAfter inner earlier).cache.entries.length ≤ a.settings.cacheSize ∧
      (a.stateAfter inner earlier).cache.keys.Nodup) ∧
    (∀ reason, (a.classify request (a.stateAfter inner earlier)).1 = .unavailable reason →
      (a.classify request (a.stateAfter inner earlier)).2.cache =
          (a.stateAfter inner earlier).cache ∧
        (a.classify request (a.stateAfter inner (request :: earlier))).2.calls =
          (a.stateAfter inner (request :: earlier)).calls + 1) ∧
    ((a.classify request (a.stateAfter inner earlier)).2.calls =
        (a.stateAfter inner earlier).calls ↔
      UsedSince a.settings.cacheSize (Exchange.answered (a.log classifier inner earlier))
        request) ∧
    (UsedSince a.settings.cacheSize (Exchange.answered (a.log classifier inner earlier)) request →
      ∃ reply o, Exchange.latestReply? (a.log classifier inner earlier) request = some reply ∧
        a.opinionOf reply = .ok o ∧
        (a.classify request (a.stateAfter inner earlier)).1 = .opinion o) ∧
    (¬UsedSince a.settings.cacheSize (Exchange.answered (a.log classifier inner earlier)) request →
      (a.classify request (a.stateAfter inner earlier)).2.calls =
          (a.stateAfter inner earlier).calls + 1 ∧
        (a.classify request (a.stateAfter inner earlier)).1 =
          a.readReply (classifier.ask request (a.stateAfter inner earlier).inner).1) ∧
    (∀ answer : ClassificationRequest → Reply,
      (∀ asked state, (classifier.ask asked state).1 = answer asked) → ∀ other : σ,
        (a.log classifier inner earlier).map (·.outcome) =
          ((a.withCacheSize 0).log classifier other earlier).map (·.outcome)) := by
  have hkept := kept_stateAfter hactive inner earlier
  refine ⟨⟨?_, hkept.holds.nodup⟩, ?_, ?_, ?_, ?_, ?_⟩
  · rw [← hkept.capacity]
    exact hkept.holds.length_le
  · intro reason hreason
    obtain ⟨hnew, hsame⟩ := cache_classify_of_unavailable hactive hreason
    refine ⟨hsame, (classify_of_use?_eq_none hactive ?_).1⟩
    rw [stateAfter, hsame]
    exact hnew
  · rw [← isSome_use?_iff_calls_eq hactive, hkept.isSome_use?_iff]
  · intro hused
    exact hkept.classify_of_isSome_use? hactive (hkept.isSome_use?_iff.mpr hused)
  · intro hunused
    apply classify_of_use?_eq_none hactive
    rw [← Option.not_isSome_iff_eq_none, hkept.isSome_use?_iff]
    exact hunused
  · intro answer hconstant other
    have hactive' : (a.withCacheSize 0).active? = some classifier := hactive
    rw [outcomes_of_constant hactive inner hconstant,
      outcomes_of_constant hactive' other hconstant]
    rfl

end Adapter

namespace Script

/-- An adapter with a `cacheSize` of one. -/
def keepingOne : Adapter (List Reply) :=
  .ofClassifier classifier { enabled := true, cacheSize := 1 }

/-- A request that is told from others by its function. -/
def about (function : String) : ClassificationRequest := ⟨"map", "", function⟩

/-- An opinion, a text without one, and another opinion. -/
def twoOpinions : List Reply :=
  [{ body := .ok "\x7b\"quality\": \"safe\"\x7d" }, { body := .ok "none" },
    { body := .ok "\x7b\"quality\": \"unsafe\"\x7d" }]

/-- The theorem where one opinion is kept: the opinion on `f` outlives a request about `g` that
fails, and is pushed out when a second one is answered. -/
theorem keepingOne_recalls :
    (keepingOne.classify (about "f") (keepingOne.stateAfter twoOpinions
        [about "g", about "f"])).2.calls =
      (keepingOne.stateAfter twoOpinions [about "g", about "f"]).calls ∧
    (keepingOne.classify (about "f") (keepingOne.stateAfter twoOpinions
        [about "g", about "g", about "f"])).2.calls =
      (keepingOne.stateAfter twoOpinions [about "g", about "g", about "f"]).calls + 1 := by
  have hanswered : Exchange.answered (keepingOne.log classifier twoOpinions
      [about "g", about "f"]) = [about "f"] := by decide +kernel
  have hanswered' : Exchange.answered (keepingOne.log classifier twoOpinions
      [about "g", about "g", about "f"]) = [about "g", about "f"] := by
    decide +kernel
  obtain ⟨-, -, hcalls, -⟩ := Adapter.classify_recalls_latest keepingOne classifier rfl twoOpinions
    [about "g", about "f"] (about "f")
  obtain ⟨-, -, -, -, hnew, -⟩ := Adapter.classify_recalls_latest keepingOne classifier rfl
    twoOpinions [about "g", about "g", about "f"] (about "f")
  rw [hanswered] at hcalls
  rw [hanswered'] at hnew
  refine ⟨hcalls.mpr ⟨[], [], rfl, by simp, by decide⟩, (hnew ?_).1⟩
  rintro ⟨since, before, hsplit, hsince, hroom⟩
  -- The request about `g` comes before the one about `f`, and there is room for one only.
  cases since with
  | nil => exact absurd (List.cons.inj hsplit).1 (by decide)
  | cons latest rest =>
    have hmember : latest ∈ (latest :: rest).toFinset := by simp
    have hpositive := Finset.card_pos.mpr ⟨latest, hmember⟩
    have hone : keepingOne.settings.cacheSize = 1 := rfl
    omega

end Script

end LoopAnalysis
