import DittoClient.NodeHttp.Client
import DittoClient.Transition.Retry

/-!
# The attempts of one request

Here `request` is followed on its own from its call to its result. How its attempts end is given
in advance, as a sequence of replies of which it takes as many as it makes attempts. What it calls
is listed in order: the breaker, the attempts with their replies and the pauses between them. The
breaker may change in the meantime by other requests, so only the answer of `beforeRequest` is
looked at.

`retry_exact` counts the attempts. The requests of `Client` run side by side, and each of them
goes through the same attempts (`promise_of_run`).
-/

namespace DittoClient

namespace NodeHttp

open DittoClient.NodeTcp (Err)
open DittoClient.Transition

variable {ρ : Type}

/-- What a request calls. -/
inductive Effect (ρ : Type)
  | beforeRequest
  | attempt (r : Reply ρ)
  | sleepMs (ms : ℕ)
  | recordFailure
  | recordSuccess
  deriving DecidableEq, Repr

namespace Effect

/-- The reply of an attempt. -/
def reply? : Effect ρ → Option (Reply ρ)
  | .attempt r => some r
  | _ => none

/-- Whether a result is recorded with the breaker. -/
def records : Effect ρ → Bool
  | .recordFailure => true
  | .recordSuccess => true
  | _ => false

end Effect

/-- Whether requests with this method are repeated, with `String.prototype.toUpperCase` as a
parameter. -/
def canRetry (toUpperCase : String → String) (c : Settings) (init : RequestInit) : Bool :=
  c.retryEnabled && c.retryMethods.contains (toUpperCase (init.method.getD "GET"))

section Loop

variable (toUpperCase : String → String) (c : Settings) (canRetry : Bool) (reply : ℕ → Reply ρ)
  (jitter : ℕ → ℕ)

/-- The loop of `request`, from the attempt with this number on. -/
def loop (attempt : ℕ) : List (Effect ρ) × Reply ρ :=
  match reply attempt with
  | .response status rest =>
      let retryable := isRetryableStatus status
      if _h : (retryable && canRetry && decide (attempt < c.maxRetries)) = true then
        let next := loop (attempt + 1)
        (.attempt (.response status rest) ::
          .sleepMs (computeBackoffMs c (attempt + 1) (jitter attempt)) :: next.1, next.2)
      else
        ([.attempt (.response status rest), if retryable then .recordFailure else .recordSuccess],
          .response status rest)
  | .thrown e =>
      if _h : (canRetry && decide (attempt < c.maxRetries)) = true then
        let next := loop (attempt + 1)
        (.attempt (.thrown e) :: .sleepMs (computeBackoffMs c (attempt + 1) (jitter attempt))
          :: next.1, next.2)
      else ([.attempt (.thrown e), .recordFailure], .thrown e)
termination_by c.maxRetries - attempt
decreasing_by
  all_goals
    simp only [Bool.and_eq_true, decide_eq_true_eq] at _h
    omega

/-- What `request` calls, and how it ends. -/
def request (init : RequestInit) (s : Circuit) : List (Effect ρ) × Reply ρ :=
  match normalizeRequestBody init with
  | .error e => ([], .thrown e)
  | .ok () =>
      match s.beforeRequest c with
      | .error e _ => ([.beforeRequest], .thrown e)
      | .ok () _ =>
          let next := loop c (NodeHttp.canRetry toUpperCase c init) reply jitter 0
          (.beforeRequest :: next.1, next.2)

/-- An attempt that fails is repeated while the retries last. -/
theorem loop_again {attempt : ℕ} (hfails : (reply attempt).fails = true) (hretry : canRetry = true)
    (hlt : attempt < c.maxRetries) :
    loop c canRetry reply jitter attempt =
      (.attempt (reply attempt) :: .sleepMs (computeBackoffMs c (attempt + 1) (jitter attempt)) ::
        (loop c canRetry reply jitter (attempt + 1)).1,
          (loop c canRetry reply jitter (attempt + 1)).2) := by
  rw [loop]
  cases hreply : reply attempt with
  | response status rest =>
      have hstatus : isRetryableStatus status = true := by rwa [hreply] at hfails
      simp [hstatus, hretry, hlt]
  | thrown e => simp [hretry, hlt]

/-- The effect that records a reply. -/
def Reply.record (r : Reply ρ) : Effect ρ :=
  if r.fails then .recordFailure else .recordSuccess

/-- The last attempt is recorded. -/
theorem loop_last {attempt : ℕ}
    (hlast : (reply attempt).fails = false ∨ canRetry = false ∨ c.maxRetries ≤ attempt) :
    loop c canRetry reply jitter attempt =
      ([.attempt (reply attempt), (reply attempt).record], reply attempt) := by
  rw [loop]
  cases hreply : reply attempt with
  | response status rest =>
      rw [hreply] at hlast
      have hnot : (isRetryableStatus status && canRetry &&
          decide (attempt < c.maxRetries)) = false := by
        rcases hlast with h | h | h
        · simp [show isRetryableStatus status = false from h]
        · simp [h]
        · simp [Nat.not_lt.mpr h]
      simp only [hnot, Bool.false_eq_true, dite_false]
      rfl
  | thrown e =>
      rw [hreply] at hlast
      have hnot : (canRetry && decide (attempt < c.maxRetries)) = false := by
        rcases hlast with h | h | h
        · cases h
        · simp [h]
        · simp [Nat.not_lt.mpr h]
      simp [hnot, Reply.record, Reply.fails]

/-- An attempt that is repeated, and the pause after it. -/
def repeated (n : ℕ) : List (Effect ρ) :=
  [.attempt (reply n), .sleepMs (computeBackoffMs c (n + 1) (jitter n))]

/-- The retries that a request may make. -/
def budget : ℕ :=
  if canRetry then c.maxRetries else 0

/-- The number of the last attempt. -/
def lastAttempt : ℕ :=
  stop (fun n => (reply n).fails) (budget c canRetry)

end Loop

section Exact

variable {toUpperCase : String → String} {c : Settings} {retries : Bool} {reply : ℕ → Reply ρ}
  {jitter : ℕ → ℕ}

/-- What the loop calls from an attempt on: the attempts that are repeated, with the pauses after
them, and the last one, which is recorded. -/
theorem loop_eq {attempt : ℕ} (h : attempt ≤ lastAttempt c retries reply) :
    loop c retries reply jitter attempt =
      ((List.range' attempt (lastAttempt c retries reply - attempt)).flatMap
          (repeated c reply jitter) ++
        [.attempt (reply (lastAttempt c retries reply)),
          (reply (lastAttempt c retries reply)).record],
        reply (lastAttempt c retries reply)) := by
  obtain ⟨left, hleft⟩ := Nat.exists_eq_add_of_le h
  induction left generalizing attempt with
  | zero =>
      have hlast : (reply attempt).fails = false ∨ retries = false ∨ c.maxRetries ≤ attempt := by
        have hspec := stop_spec (fun n => (reply n).fails) (budget c retries)
        rw [← lastAttempt, hleft, Nat.add_zero, budget] at hspec
        cases retries with
        | false => exact Or.inr (Or.inl rfl)
        | true => exact hspec.imp id Or.inr
      rw [loop_last c retries reply jitter hlast, hleft, Nat.add_zero, Nat.sub_self]
      rfl
  | succ left ih =>
      have hlt : attempt < lastAttempt c retries reply := by omega
      have hbudget : attempt < budget c retries :=
        lt_of_lt_of_le hlt (stop_le (fun n => (reply n).fails) (budget c retries))
      have hretry : retries = true := by
        cases hr : retries with
        | true => rfl
        | false => simp [budget, hr] at hbudget
      rw [loop_again c retries reply jitter (fails_of_lt_stop hlt) hretry
        (by simpa [budget, hretry] using hbudget), ih hlt (by omega)]
      have hrange : List.range' attempt (lastAttempt c retries reply - attempt) =
          attempt :: List.range' (attempt + 1) (lastAttempt c retries reply - (attempt + 1)) := by
        rw [← List.range'_succ]
        congr 1
        omega
      rw [hrange]
      rfl

/-- The replies that a request has seen. -/
def attempts (es : List (Effect ρ)) : List (Reply ρ) :=
  es.filterMap Effect.reply?

/-- What a request has recorded with the breaker. -/
def recorded (es : List (Effect ρ)) : List (Effect ρ) :=
  es.filter Effect.records

theorem Reply.record_records (r : Reply ρ) : r.record.records = true := by
  cases h : r.fails <;> simp [Reply.record, h, Effect.records]

theorem Reply.record_reply (r : Reply ρ) : r.record.reply? = none := by
  cases h : r.fails <;> simp [Reply.record, h, Effect.reply?]

/-- The attempts that are repeated record nothing. -/
theorem attempts_repeated (l : List ℕ) :
    attempts (l.flatMap (repeated c reply jitter)) = l.map reply ∧
      recorded (l.flatMap (repeated c reply jitter)) = [] := by
  induction l with
  | nil => exact ⟨rfl, rfl⟩
  | cons n l ih =>
      refine ⟨?_, ih.2⟩
      rw [List.map_cons, ← ih.1]
      rfl

theorem attempts_loop :
    attempts (loop c retries reply jitter 0).1 =
      (List.range (lastAttempt c retries reply + 1)).map reply := by
  have hlast : attempts [.attempt (reply (lastAttempt c retries reply)),
      (reply (lastAttempt c retries reply)).record] =
        [reply (lastAttempt c retries reply)] := by
    rw [attempts, List.filterMap_cons, List.filterMap_cons, Reply.record_reply]
    rfl
  rw [loop_eq (Nat.zero_le _), attempts, List.filterMap_append, Nat.sub_zero, ← attempts,
    ← attempts, (attempts_repeated _).1, hlast, List.range_succ, List.map_append,
    List.range_eq_range']
  rfl

theorem recorded_loop :
    recorded (loop c retries reply jitter 0).1 =
      [(reply (lastAttempt c retries reply)).record] := by
  have hlast : recorded [.attempt (reply (lastAttempt c retries reply)),
      (reply (lastAttempt c retries reply)).record] =
        [(reply (lastAttempt c retries reply)).record] := by
    rw [recorded, List.filter_cons, List.filter_cons, Reply.record_records]
    rfl
  rw [loop_eq (Nat.zero_le _), recorded, List.filter_append, Nat.sub_zero, ← recorded,
    ← recorded, (attempts_repeated _).2, hlast]
  rfl

/-- What `request` promises of a request that the breaker admits. -/
structure Kept (canRetry : Bool) (c : Settings) (reply : ℕ → Reply ρ) (out : List (Effect ρ) × Reply ρ) :
    Prop where
  /-- Without retries there is one attempt. -/
  once : canRetry = false → (attempts out.1).length = 1
  /-- Otherwise there are attempts up to the first that does not fail, or until the retries are
  used up. -/
  retried : canRetry = true → ∀ i, (∀ j < i, (reply j).fails = true) → (reply i).fails = false →
    (attempts out.1).length = min (i + 1) (c.maxRetries + 1)
  exhausted : canRetry = true → (∀ i, (reply i).fails = true) →
    (attempts out.1).length = c.maxRetries + 1
  replies : attempts out.1 = (List.range (attempts out.1).length).map reply
  /-- The result is that of the last attempt. -/
  result : (attempts out.1).getLast? = some out.2
  /-- The result is recorded once. -/
  recorded_eq : recorded out.1 =
    [if out.2.fails then Effect.recordFailure else Effect.recordSuccess]

theorem loop_kept (c : Settings) (retries : Bool) (reply : ℕ → Reply ρ) (jitter : ℕ → ℕ) :
    Kept retries c reply (.beforeRequest :: (loop c retries reply jitter 0).1,
      (loop c retries reply jitter 0).2) := by
  have hattempts : attempts (.beforeRequest :: (loop c retries reply jitter 0).1) =
      (List.range (lastAttempt c retries reply + 1)).map reply := attempts_loop
  have hlength : (attempts (.beforeRequest :: (loop c retries reply jitter 0).1)).length =
      lastAttempt c retries reply + 1 := by
    rw [hattempts, List.length_map, List.length_range]
  have hresult : (loop c retries reply jitter 0).2 = reply (lastAttempt c retries reply) := by
    rw [loop_eq (Nat.zero_le _)]
  refine ⟨fun hretry => ?_, fun hretry i hfails hi => ?_, fun hretry hfails => ?_, ?_, ?_, ?_⟩
  · have hstop := stop_le (fun n => (reply n).fails) (budget c retries)
    rw [hlength, lastAttempt]
    simp only [budget, hretry, Bool.false_eq_true, if_false] at hstop ⊢
    omega
  · rw [hlength, lastAttempt, stop_eq_min hfails hi, budget, if_pos hretry, Nat.add_min_add_right]
  · rw [hlength, lastAttempt, stop_of_forall hfails, budget, if_pos hretry]
  · rw [hlength, hattempts]
  · rw [hattempts, hresult, List.range_succ, List.map_append]
    simp
  · rw [hresult]
    exact recorded_loop

/-- A request makes exactly the attempts that it should, ends like the last one and records it. One
that is refused makes none and records nothing. -/
theorem retry_exact (toUpperCase : String → String) (c : Settings) (reply : ℕ → Reply ρ)
    (jitter : ℕ → ℕ) (init : RequestInit) (s : Circuit) :
    match normalizeRequestBody init, s.beforeRequest c with
    | .error e, _ => request toUpperCase c reply jitter init s = ([], .thrown e)
    | .ok (), .error e _ =>
        request toUpperCase c reply jitter init s = ([.beforeRequest], .thrown e)
    | .ok (), .ok () _ =>
        Kept (canRetry toUpperCase c init) c reply (request toUpperCase c reply jitter init s) := by
  cases hbody : normalizeRequestBody init with
  | error e => simp only [request, hbody]
  | ok u =>
      cases hbefore : s.beforeRequest c with
      | error e t => simp only [request, hbody, hbefore]
      | ok u t =>
          simp only [request, hbody, hbefore]
          exact loop_kept c _ reply jitter

end Exact

namespace Client

variable {c : Settings} {retries : Bool} {reply : ℕ → Reply ρ} {i n : ℕ} {s t : Client ρ}
  {a : Action ρ}

/-- The attempts of a request end as the sequence says. -/
def Replies (i : ℕ) (reply : ℕ → Reply ρ) (s : Client ρ) (a : Action ρ) : Prop :=
  ∀ r jitter retries attempt, a = .reply i r jitter →
    s.requests[i]? = some (.fetching retries attempt) → r = reply attempt

/-- How far a request has come after some of its replies. -/
inductive Progress (c : Settings) (retries : Bool) (reply : ℕ → Reply ρ) : ℕ → Promise ρ → Prop
  | fetching {n : ℕ} (h : n ≤ lastAttempt c retries reply) :
      Progress c retries reply n (.fetching retries n)
  | sleeping {n : ℕ} (wakeMs : ℕ) (h : n ≤ lastAttempt c retries reply) :
      Progress c retries reply n (.sleeping retries n wakeMs)
  | settled : Progress c retries reply (lastAttempt c retries reply + 1)
      (reply (lastAttempt c retries reply)).promise

/-- The promise that a reply leaves behind. -/
theorem progress_of_reply (h : n ≤ lastAttempt c retries reply) (hi : i < s.requests.length)
    (jitter : ℕ) :
    ∃ m p, (s.reply c i retries n (reply n) jitter).requests[i]? = some p ∧
      Progress c retries reply m p := by
  rw [Client.reply]
  by_cases hagain : ((reply n).fails && retries && decide (n < c.maxRetries)) = true
  · rw [if_pos hagain]
    simp only [Bool.and_eq_true, decide_eq_true_eq] at hagain
    obtain ⟨⟨hfails, hretry⟩, hlt⟩ := hagain
    refine ⟨n + 1, _, List.getElem?_set_self hi, Progress.sleeping _ (lt_stop h hfails ?_)⟩
    rwa [budget, if_pos hretry]
  · rw [if_neg hagain]
    have hlast : lastAttempt c retries reply = n := by
      refine stop_eq_of_le h ?_
      cases hfails : (reply n).fails with
      | false => exact Or.inl rfl
      | true =>
          refine Or.inr ?_
          cases hretry : retries with
          | false => exact Nat.zero_le _
          | true =>
              rw [budget, if_pos rfl]
              simpa [hfails, hretry] using hagain
    refine ⟨lastAttempt c retries reply + 1, _, List.getElem?_set_self hi, ?_⟩
    rw [← hlast]
    exact Progress.settled

/-- What happens beside a request leaves its promise alone. -/
theorem promise_of_other {p : Promise ρ} (h : step c s a = some t) (hi : s.requests[i]? = some p)
    (hreply : ∀ r jitter, a ≠ .reply i r jitter) (hwake : a ≠ .wake i) :
    t.requests[i]? = some p := by
  have hlt : i < s.requests.length := (List.getElem?_eq_some_iff.mp hi).1
  cases a with
  | tick ms =>
      cases h
      exact hi
  | request r =>
      cases h
      simp only [Client.request]
      split
      · rw [List.getElem?_append_left hlt, hi]
      · split
        · rw [List.getElem?_append_left hlt, hi]
        · rw [List.getElem?_append_left hlt, hi]
  | reply j r jitter =>
      have hne : j ≠ i := fun heq => hreply r jitter (by rw [heq])
      simp only [step] at h
      split at h
      · split at h
        · cases h
          simp only [Client.reply]
          split
          · rw [List.getElem?_set_ne hne, hi]
          · rw [List.getElem?_set_ne hne, hi]
        · cases h
      · cases h
  | wake j =>
      have hne : j ≠ i := fun heq => hwake (by rw [heq])
      simp only [step] at h
      split at h
      · split at h
        · cases h
          rw [List.getElem?_set_ne hne, hi]
        · cases h
      · cases h

/-- Every step takes a request along its attempts or leaves it alone. -/
theorem progress_of_step {p : Promise ρ} (h : step c s a = some t) (hi : s.requests[i]? = some p)
    (hp : Progress c retries reply n p) (ha : Replies i reply s a) :
    ∃ m q, t.requests[i]? = some q ∧ Progress c retries reply m q := by
  have hlt : i < s.requests.length := (List.getElem?_eq_some_iff.mp hi).1
  by_cases hreply : ∃ r jitter, a = .reply i r jitter
  · obtain ⟨r, jitter, rfl⟩ := hreply
    simp only [step, hi] at h
    cases hp with
    | fetching hle =>
        rw [ha r jitter retries n rfl hi] at h
        simp only at h
        split at h
        · cases h
          exact progress_of_reply hle hlt jitter
        · cases h
    | sleeping wakeMs hle => cases h
    | settled =>
        cases hlast : reply (lastAttempt c retries reply) <;>
          simp [Reply.promise, hlast] at h
  · by_cases hwake : a = .wake i
    · subst hwake
      simp only [step, hi] at h
      cases hp with
      | fetching hle => cases h
      | sleeping wakeMs hle =>
          simp only at h
          split at h
          · cases h
            exact ⟨n, _, List.getElem?_set_self hlt, Progress.fetching hle⟩
          · cases h
      | settled =>
          cases hlast : reply (lastAttempt c retries reply) <;>
            simp [Reply.promise, hlast] at h
    · exact ⟨n, p, promise_of_other h hi (fun r jitter heq => hreply ⟨r, jitter, heq⟩) hwake, hp⟩

/-- Along every run, whatever else the client does, a request goes through the attempts of its
loop. -/
theorem promise_of_run (h : Reachable (step c) (Replies i reply) s t)
    (hi : s.requests[i]? = some (.fetching retries 0)) :
    ∃ n p, t.requests[i]? = some p ∧ Progress c retries reply n p := by
  refine h.invariant (I := fun u => ∃ n p, u.requests[i]? = some p ∧
    Progress c retries reply n p) ⟨0, _, hi, Progress.fetching (Nat.zero_le _)⟩ ?_
  rintro u a v ⟨n, p, hu, hp⟩ ha hstep
  exact progress_of_step hstep hu hp ha

/-- A promise that is settled along a run is settled with the result of the loop. -/
theorem settled_as_looped (h : Reachable (step c) (Replies i reply) s t)
    (hi : s.requests[i]? = some (.fetching retries 0)) {r : Reply ρ}
    (ht : t.requests[i]? = some r.promise) (jitter : ℕ → ℕ) :
    r = (loop c retries reply jitter 0).2 := by
  obtain ⟨n, p, hp, hprogress⟩ := promise_of_run h hi
  rw [ht] at hp
  rw [loop_eq (Nat.zero_le _)]
  cases hprogress with
  | fetching hle => cases r <;> simp [Reply.promise] at hp
  | sleeping wakeMs hle => cases r <;> simp [Reply.promise] at hp
  | settled =>
      cases r <;> cases hlast : reply (lastAttempt c retries reply) <;>
        simp [Reply.promise, hlast] at hp ⊢ <;> exact hp

end Client

end NodeHttp

end DittoClient
