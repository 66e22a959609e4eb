import Mathlib.Algebra.Group.Nat.Defs
import DittoClient.NodeHttp.Breaker

/-!
# The requests of the Node.js HTTP client

`request` of `DittoHttpClientBase` asks the breaker, and then sends its request, again after a
pause while it fails and may be repeated, until it records the result with the breaker. Any
number of requests run at once in the event loop. What a request sends and where is left out. Of
a response it reads the status only, and hands the rest on as it is.
-/

namespace DittoClient

namespace NodeHttp

open DittoClient.NodeTcp (Err)

/-- The type of a body, as it is checked. -/
inductive Body
  | text
  | buffer
  | other
  deriving DecidableEq, Repr

/-- `DittoHttpRequestInit`, of which the content type is the only header that is read. -/
structure RequestInit where
  method : Option String
  contentType : Option String
  body : Option Body
  deriving DecidableEq, Repr

def unsupportedBody : Err :=
  .error "Unsupported HTTP request body type"

def normalizeRequestBody (init : RequestInit) : Except Err Unit :=
  match init.body with
  | none => .ok ()
  | some .text => .ok ()
  | some .buffer =>
      if init.contentType = some "application/octet-stream" then .ok ()
      else .error unsupportedBody
  | some .other => .error unsupportedBody

def isRetryableStatus (status : ℕ) : Bool :=
  decide (status = 429) || decide (status = 503) || decide (status = 504)

/-- The pause before an attempt, with the jitter that was drawn. -/
def computeBackoffMs (c : Settings) (attempt jitter : ℕ) : ℕ :=
  min c.retryMaxBackoffMs (c.retryBaseBackoffMs * 2 ^ (attempt - 1)) + jitter

/-- How an attempt ends. -/
inductive Reply (ρ : Type)
  | response (status : ℕ) (rest : ρ)
  | thrown (e : Err)
  deriving DecidableEq, Repr

variable {ρ : Type}

/-- Whether an attempt is a failure, which may be repeated. -/
def Reply.fails : Reply ρ → Bool
  | .response status _ => isRetryableStatus status
  | .thrown _ => true

/-- The promise of a request: it is in an attempt, pauses before the next one, or is settled. -/
inductive Promise (ρ : Type)
  | fetching (canRetry : Bool) (attempt : ℕ)
  | sleeping (canRetry : Bool) (attempt wakeMs : ℕ)
  | resolved (status : ℕ) (rest : ρ)
  | rejected (e : Err)
  deriving DecidableEq, Repr

/-- The promise of a request that ends with this reply. -/
def Reply.promise : Reply ρ → Promise ρ
  | .response status rest => .resolved status rest
  | .thrown e => .rejected e

/-- The breaker of a client and the requests made so far. -/
structure Client (ρ : Type) where
  circuit : Circuit
  requests : List (Promise ρ)
  deriving DecidableEq, Repr

/-- What happens to a client: time passes, a request is made, an attempt of a request ends, or
its pause does. -/
inductive Action (ρ : Type)
  | tick (ms : ℕ)
  | request (init : RequestInit)
  | reply (i : ℕ) (r : Reply ρ) (jitter : ℕ)
  | wake (i : ℕ)
  deriving DecidableEq, Repr

namespace Client

def init (nowMs : ℕ) : Client ρ where
  circuit := Circuit.init nowMs
  requests := []

/-- The part of `request` up to its first attempt. -/
def request (c : Settings) (r : RequestInit) (s : Client ρ) : Client ρ :=
  match normalizeRequestBody r with
  | .error e => { s with requests := s.requests ++ [.rejected e] }
  | .ok () =>
      let canRetry :=
        c.retryEnabled && c.retryMethods.contains (r.method.getD "GET").toUpper
      match s.circuit.beforeRequest c with
      | .error e t => { circuit := t, requests := s.requests ++ [.rejected e] }
      | .ok () t => { circuit := t, requests := s.requests ++ [.fetching canRetry 0] }

/-- The loop of `request` behind an attempt. -/
def reply (c : Settings) (i : ℕ) (canRetry : Bool) (attempt : ℕ) (r : Reply ρ) (jitter : ℕ)
    (s : Client ρ) : Client ρ :=
  if r.fails && canRetry && decide (attempt < c.maxRetries) then
    let wakeMs := s.circuit.nowMs + computeBackoffMs c (attempt + 1) jitter
    { s with requests := s.requests.set i (.sleeping canRetry (attempt + 1) wakeMs) }
  else
    let circuit := if r.fails then s.circuit.recordFailure c else s.circuit.recordSuccess c
    { circuit := circuit, requests := s.requests.set i r.promise }

def step (c : Settings) (s : Client ρ) : Action ρ → Option (Client ρ)
  | .tick ms => some { s with circuit := s.circuit.next c (.tick ms) }
  | .request r => some (s.request c r)
  | .reply i r jitter =>
      match s.requests[i]? with
      | some (.fetching canRetry attempt) =>
          if jitter ≤ c.retryJitterMs then some (s.reply c i canRetry attempt r jitter) else none
      | _ => none
  | .wake i =>
      match s.requests[i]? with
      | some (.sleeping canRetry attempt wakeMs) =>
          if wakeMs ≤ s.circuit.nowMs then
            some { s with requests := s.requests.set i (.fetching canRetry attempt) }
          else none
      | _ => none

/-- The method of the breaker that an action calls. -/
def event (c : Settings) (s : Client ρ) : Action ρ → Option Circuit.Event
  | .tick ms => some (.tick ms)
  | .request r => match normalizeRequestBody r with
      | .error _ => none
      | .ok () => some .beforeRequest
  | .reply i r _ => match s.requests[i]? with
      | some (.fetching canRetry attempt) =>
          if r.fails && canRetry && decide (attempt < c.maxRetries) then none
          else if r.fails then some .recordFailure
          else some .recordSuccess
      | _ => none
  | .wake _ => none

variable {c : Settings} {s t : Client ρ} {a : Action ρ}

theorem request_circuit (r : RequestInit) :
    (s.request c r).circuit = (event c s (.request r)).elim s.circuit (s.circuit.next c) := by
  simp only [request, event]
  cases normalizeRequestBody r with
  | error e => rfl
  | ok u => cases hbefore : s.circuit.beforeRequest c <;> simp [Circuit.next, hbefore]

/-- An action changes the breaker by the method that it calls, and not otherwise. -/
theorem circuit_of_step (h : step c s a = some t) :
    t.circuit = (event c s a).elim s.circuit (s.circuit.next c) := by
  cases a with
  | tick ms =>
      cases h
      rfl
  | request r =>
      cases h
      exact request_circuit r
  | reply i r jitter =>
      simp only [step] at h
      split at h
      · next canRetry attempt hi =>
          split at h
          · cases h
            simp only [reply, event, hi]
            split_ifs <;> rfl
          · cases h
      · cases h
  | wake i =>
      simp only [step] at h
      split at h
      · split at h
        · cases h
          rfl
        · cases h
      · cases h

/-- Every step takes the breaker along a move or leaves it alone. -/
theorem moves_of_step (hon : c.circuitBreakerEnabled = true) (h : step c s a = some t) :
    (event c s a = none ∧ t.circuit = s.circuit) ∨
      ∃ e, event c s a = some e ∧ s.circuit.Moves c e t.circuit := by
  have hcircuit := circuit_of_step h
  cases he : event c s a with
  | none => exact .inl ⟨rfl, by simpa [he] using hcircuit⟩
  | some e =>
      rw [he] at hcircuit
      refine .inr ⟨e, rfl, ?_⟩
      rw [hcircuit]
      exact Circuit.next_moves hon e

end Client

end NodeHttp

end DittoClient
