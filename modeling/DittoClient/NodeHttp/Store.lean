import DittoClient.Http.Clients
import DittoClient.Http.Results
import DittoClient.Linear.History
import DittoClient.NodeHttp.Retrying
import DittoClient.Wire.Service

/-!
# The Node.js HTTP client and the service it reaches

Calls of the client run side by side, each of them through its attempts. An attempt that was begun
reaches the service at any time from then on, also when the client has given it up, or never; the
service executes it once at most. What comes back is the response of the service, or the attempt
ends in another way: it fails, its response breaks off, or something in between answers it. A call
returns what its promise is resolved with.
-/

namespace DittoClient

namespace NodeHttp

open DittoClient.Linear
open DittoClient.Wire (Alphabet Letters Service)
open DittoClient.Transition

/-- The options of `request` that the operations give with what they send. -/
def requestInit (h : Http.HttpRequest) : RequestInit where
  method := match h.method with
    | .get => none
    | .put => some "PUT"
    | .post => some "POST"
    | .delete => some "DELETE"
  contentType := h.body.map fun
    | .raw contentType _ => contentType
    | .json _ => "application/json"
  body := h.body.map fun
    | .raw contentType _ => if contentType = "application/octet-stream" then .buffer else .text
    | .json _ => .text

/-- The retries that an operation may make. -/
def retries (c : Settings) (h : Http.HttpRequest) : ℕ :=
  budget c (canRetry String.toUpper c (requestInit h))

/-- A response that arrives at the client, and whether it is one of the service. -/
structure Delivery where
  response : Http.Response
  served : Bool

/-- The attempt that a request is in, with its number. -/
def Client.running {ρ : Type} (s : Client ρ) (i : ℕ) : Option (ℕ × ℕ) :=
  match s.requests[i]? with
  | some (.fetching _ attempt) => some (i, attempt)
  | _ => none

/-- The attempt of a request that was begun last. -/
def lastBegun (begun : List (ℕ × ℕ)) (i : ℕ) : Option (ℕ × ℕ) :=
  (begun.filter fun k => decide (k.1 = i)).getLast?

/-- A client, the operations it was called with and what it sends for them, the attempts that were
begun, and what the service has executed. An attempt is named by its request and its number. -/
structure Cluster {σ : Type*} (M : Service σ) where
  client : Client Delivery
  calls : List (Wire.Request × Http.HttpRequest)
  begun : List (ℕ × ℕ)
  log : Log M.toMachine (ℕ × ℕ)

/-- Time passes, an operation is called, a pause ends, the service executes an attempt, its response
arrives at the client, an attempt ends without it, or another client makes a request. -/
inductive ClusterAction
  | tick (ms : ℕ)
  | call (r : Wire.Request)
  | wake (i : ℕ)
  | execute (k : ℕ × ℕ)
  | answer (i jitter : ℕ)
  | lose (i : ℕ) (r : Except NodeTcp.Err Http.Response) (jitter : ℕ)
  | other (q : Wire.Request)

section Step

variable {σ : Type*} {M : Service σ} (go : Letters) (java : Alphabet) (strict : Bool)
  (c : Settings) (respond : Wire.Request → Wire.ServerResponse → Http.Response)

namespace Cluster

def init (nowMs : ℕ) : Cluster M where
  client := Client.init nowMs
  calls := []
  begun := []
  log := Log.empty

/-- The response of the service that a call has returned, with its last attempt. -/
def returned (s : Cluster M) (i : ℕ) : Option ((ℕ × ℕ) × Http.Response) :=
  match s.client.requests[i]? with
  | some (.resolved _ ⟨y, true⟩) => (lastBegun s.begun i).map fun k => (k, y)
  | _ => none

/-- The responses of the service that were returned. -/
def done (s : Cluster M) : List ((ℕ × ℕ) × Http.Response) :=
  (List.range s.client.requests.length).filterMap s.returned

/-- How often the service has executed a request. -/
def executions (s : Cluster M) (i : ℕ) : ℕ :=
  s.log.origins.countP fun k => decide (k.1 = i)

end Cluster

/-- The response to an attempt that was executed. -/
def response (l : Log M.toMachine (ℕ × ℕ)) (k : ℕ × ℕ) : Option Http.Response :=
  (l.entries.find? fun e => decide (e.origin = some k)).map fun e => respond e.request e.response

def clusterStep (s : Cluster M) : ClusterAction → Option (Cluster M)
  | .tick ms => (s.client.step c (.tick ms)).map fun t => { s with client := t }
  | .call r =>
      match Http.send go java strict .node r with
      | none => some s
      | some h => (s.client.step c (.request (requestInit h))).map fun t =>
          { s with
            client := t
            calls := s.calls ++ [(r, h)]
            begun := s.begun ++ (t.running s.calls.length).toList }
  | .wake i => (s.client.step c (.wake i)).map fun t =>
      { s with client := t, begun := s.begun ++ (t.running i).toList }
  | .execute k => do
      let x ← s.calls[k.1]?
      let q ← x.2.read
      if k ∈ s.begun ∧ k ∉ s.log.origins then some { s with log := s.log.record (some k) q }
      else none
  | .answer i jitter => do
      let k ← s.client.running i
      let y ← response respond s.log k
      let t ← s.client.step c (.reply i (.response y.status ⟨y, true⟩) jitter)
      some { s with client := t }
  | .lose i r jitter =>
      let reply : Reply Delivery := match r with
        | .error e => .thrown e
        | .ok y => .response y.status ⟨y, false⟩
      (s.client.step c (.reply i reply jitter)).map fun t => { s with client := t }
  | .other q => some { s with log := s.log.record none q }

end Step

/-- A promise of a request that makes no more attempts than it may. -/
def Promise.Within {ρ : Type} (c : Settings) (init : RequestInit) : Promise ρ → Prop
  | .fetching retries attempt =>
      retries = canRetry String.toUpper c init ∧ attempt ≤ budget c retries
  | .sleeping retries attempt _ =>
      retries = canRetry String.toUpper c init ∧ attempt ≤ budget c retries
  | _ => True

section LastBegun

variable {begun : List (ℕ × ℕ)} {i : ℕ} {k : ℕ × ℕ}

theorem lastBegun_fst (h : lastBegun begun i = some k) : k.1 = i :=
  of_decide_eq_true (List.mem_filter.mp (List.mem_of_getLast? h)).2

theorem lastBegun_concat (hk : k.1 = i) : lastBegun (begun ++ [k]) i = some k := by
  simp [lastBegun, List.filter_append, hk]

/-- The attempts of other requests do not count. -/
theorem lastBegun_append {new : List (ℕ × ℕ)} (hnew : ∀ k ∈ new, k.1 ≠ i) :
    lastBegun (begun ++ new) i = lastBegun begun i := by
  have hnone : new.filter (fun k => decide (k.1 = i)) = [] :=
    List.filter_eq_nil_iff.mpr fun k hk => by simpa using hnew k hk
  rw [lastBegun, List.filter_append, hnone, List.append_nil, lastBegun]

end LastBegun

section Returned

variable {σ : Type*} {M : Service σ} {s : Cluster M} {i : ℕ} {d : (ℕ × ℕ) × Http.Response}

/-- What a call returns is what its promise is resolved with. -/
theorem Cluster.returned_eq_some : s.returned i = some d ↔
    ∃ status, s.client.requests[i]? = some (.resolved status ⟨d.2, true⟩) ∧
      lastBegun s.begun i = some d.1 := by
  rw [Cluster.returned]
  constructor
  · intro h
    split at h
    · next status y hi =>
        obtain ⟨k, hk, rfl⟩ := Option.map_eq_some_iff.mp h
        exact ⟨status, hi, hk⟩
    · cases h
  · rintro ⟨status, hi, hk⟩
    rw [hi, hk]
    rfl

theorem Cluster.mem_done : d ∈ s.done ↔ s.returned d.1.1 = some d := by
  rw [Cluster.done, List.mem_filterMap]
  constructor
  · rintro ⟨i, -, hi⟩
    obtain ⟨-, -, hk⟩ := Cluster.returned_eq_some.mp hi
    rwa [lastBegun_fst hk]
  · intro hd
    obtain ⟨status, hi, -⟩ := Cluster.returned_eq_some.mp hd
    exact ⟨_, List.mem_range.mpr (List.getElem?_eq_some_iff.mp hi).1, hd⟩

end Returned

section Requests

variable {ρ : Type} {c : Settings} {s t : Client ρ} {i jitter : ℕ} {r : Reply ρ}

theorem Client.requests_tick {ms : ℕ} (h : s.step c (.tick ms) = some t) :
    t.requests = s.requests := by
  cases h
  rfl

/-- A request that is made is in its first attempt, or refused. -/
theorem Client.requests_request {init : RequestInit} (h : s.step c (.request init) = some t) :
    ∃ p, t.requests = s.requests ++ [p] ∧
      (p = .fetching (canRetry String.toUpper c init) 0 ∨ ∃ e, p = .rejected e) := by
  cases h
  simp only [Client.request]
  split
  · exact ⟨_, rfl, Or.inr ⟨_, rfl⟩⟩
  · split
    · exact ⟨_, rfl, Or.inr ⟨_, rfl⟩⟩
    · exact ⟨_, rfl, Or.inl rfl⟩

/-- The attempt of a request that ends is repeated after a pause, or settles the promise. -/
theorem Client.requests_reply (h : s.step c (.reply i r jitter) = some t) :
    ∃ retries attempt p, s.requests[i]? = some (.fetching retries attempt) ∧
      t.requests = s.requests.set i p ∧
        ((r.fails = true ∧ retries = true ∧ attempt < c.maxRetries ∧
          ∃ wakeMs, p = .sleeping retries (attempt + 1) wakeMs) ∨ p = r.promise) := by
  simp only [Client.step] at h
  split at h
  · next retries attempt hi =>
      split at h
      · cases h
        rw [Client.reply]
        by_cases hagain : (r.fails && retries && decide (attempt < c.maxRetries)) = true
        · rw [if_pos hagain]
          simp only [Bool.and_eq_true, decide_eq_true_eq] at hagain
          exact ⟨retries, attempt, _, hi, rfl,
            Or.inl ⟨hagain.1.1, hagain.1.2, hagain.2, _, rfl⟩⟩
        · rw [if_neg hagain]
          exact ⟨retries, attempt, _, hi, rfl, Or.inr rfl⟩
      · cases h
  · cases h

theorem Client.requests_wake (h : s.step c (.wake i) = some t) :
    ∃ retries attempt wakeMs, s.requests[i]? = some (.sleeping retries attempt wakeMs) ∧
      t.requests = s.requests.set i (.fetching retries attempt) := by
  simp only [Client.step] at h
  split at h
  · next retries attempt wakeMs hi =>
      split at h
      · cases h
        exact ⟨retries, attempt, wakeMs, hi, rfl⟩
      · cases h
  · cases h

theorem Client.running_eq_some {k : ℕ × ℕ} : s.running i = some k ↔
    ∃ retries, k.1 = i ∧ s.requests[i]? = some (.fetching retries k.2) := by
  rw [Client.running]
  constructor
  · intro h
    split at h
    · next retries attempt hi =>
        cases h
        exact ⟨retries, rfl, hi⟩
    · cases h
  · rintro ⟨retries, rfl, hi⟩
    rw [hi]

end Requests

end NodeHttp

end DittoClient
