import DittoClient.NodeTcp.State
import DittoClient.Transition.Run
import DittoClient.Transition.Tally

/-!
# The circuit breaker of the Node.js HTTP client

`DittoHttpClientBase` counts the failures of its requests. After enough of them in a row the
breaker opens and refuses requests for a while, then it is half-open, and after enough successes
it closes again. The requests run side by side, so a result may be recorded in any state of the
breaker.

The fields of the breaker are set by three methods, `beforeRequest`, `recordFailure` and
`recordSuccess`. They are modelled together with the clock, whose time they read. The bookkeeping
is stated over all orders of calling them: what the counters hold is compared with a log of the
calls.
-/

namespace DittoClient

namespace NodeHttp

open DittoClient.NodeTcp (Err)
open DittoClient.Transition

/-- The options of the constructor for retries and for the breaker. An option may be left out. -/
structure Options where
  retryEnabled : Option Bool
  maxRetries : Option ℤ
  retryBaseBackoffMs : Option ℤ
  retryMaxBackoffMs : Option ℤ
  retryJitterMs : Option ℤ
  retryMethods : Option (List String)
  circuitBreakerEnabled : Option Bool
  circuitFailureThreshold : Option ℤ
  circuitOpenMs : Option ℤ
  circuitHalfOpenMaxRequests : Option ℤ

/-- The fields that the constructor sets, within their bounds. -/
structure Settings where
  retryEnabled : Bool
  maxRetries : ℕ
  retryBaseBackoffMs : ℕ
  retryMaxBackoffMs : ℕ
  retryJitterMs : ℕ
  retryMethods : List String
  circuitBreakerEnabled : Bool
  circuitFailureThreshold : ℕ
  circuitOpenMs : ℕ
  circuitHalfOpenMaxRequests : ℕ
  one_le_circuitFailureThreshold : 1 ≤ circuitFailureThreshold
  one_le_circuitOpenMs : 1 ≤ circuitOpenMs
  one_le_circuitHalfOpenMaxRequests : 1 ≤ circuitHalfOpenMaxRequests

/-- The constructor. The names of HTTP methods are in ASCII. -/
def Settings.ofOptions (opts : Options) : Settings where
  retryEnabled := opts.retryEnabled.getD true
  maxRetries := (max 0 (opts.maxRetries.getD 2)).toNat
  retryBaseBackoffMs := (max 1 (opts.retryBaseBackoffMs.getD 100)).toNat
  retryMaxBackoffMs := (max 1 (opts.retryMaxBackoffMs.getD 2000)).toNat
  retryJitterMs := (max 0 (opts.retryJitterMs.getD 100)).toNat
  retryMethods := (opts.retryMethods.getD ["GET", "DELETE"]).map String.toUpper
  circuitBreakerEnabled := opts.circuitBreakerEnabled.getD false
  circuitFailureThreshold := (max 1 (opts.circuitFailureThreshold.getD 5)).toNat
  circuitOpenMs := (max 1 (opts.circuitOpenMs.getD 5000)).toNat
  circuitHalfOpenMaxRequests := (max 1 (opts.circuitHalfOpenMaxRequests.getD 2)).toNat
  one_le_circuitFailureThreshold := by omega
  one_le_circuitOpenMs := by omega
  one_le_circuitHalfOpenMaxRequests := by omega

inductive CircuitState
  | closed
  | opened
  | halfOpen
  deriving DecidableEq, Repr

/-- The fields of the breaker, and the time that `Date.now()` gives. -/
structure Circuit where
  nowMs : ℕ
  circuitState : CircuitState
  circuitFailures : ℕ
  circuitOpenUntilMs : ℕ
  halfOpenSuccesses : ℕ
  deriving DecidableEq, Repr

/-- The error of a request that the breaker refuses. -/
def circuitOpen : Err :=
  .ditto "CircuitOpen" "HTTP client circuit breaker is open"

namespace Circuit

/-- A breaker that is constructed at the time `nowMs`. -/
def init (nowMs : ℕ) : Circuit where
  nowMs := nowMs
  circuitState := .closed
  circuitFailures := 0
  circuitOpenUntilMs := 0
  halfOpenSuccesses := 0

def beforeRequest (c : Settings) (s : Circuit) : EStateM.Result Err Circuit Unit :=
  if !c.circuitBreakerEnabled then .ok () s
  else if s.circuitState = .opened then
    if s.circuitOpenUntilMs ≤ s.nowMs then
      .ok () { s with circuitState := .halfOpen, halfOpenSuccesses := 0 }
    else .error circuitOpen s
  else .ok () s

def recordFailure (c : Settings) (s : Circuit) : Circuit :=
  if !c.circuitBreakerEnabled then s
  else
    let counted := { s with circuitFailures := s.circuitFailures + 1, halfOpenSuccesses := 0 }
    if counted.circuitState = .halfOpen ∨ c.circuitFailureThreshold ≤ counted.circuitFailures then
      { counted with circuitState := .opened, circuitOpenUntilMs := s.nowMs + c.circuitOpenMs }
    else counted

def recordSuccess (c : Settings) (s : Circuit) : Circuit :=
  if !c.circuitBreakerEnabled then s
  else if s.circuitState = .halfOpen then
    let counted := { s with halfOpenSuccesses := s.halfOpenSuccesses + 1 }
    if c.circuitHalfOpenMaxRequests ≤ counted.halfOpenSuccesses then
      { counted with circuitState := .closed, circuitFailures := 0, halfOpenSuccesses := 0 }
    else counted
  else { s with circuitState := .closed, circuitFailures := 0 }

/-- What happens to the breaker: a method is called, or time passes. -/
inductive Event
  | tick (ms : ℕ)
  | beforeRequest
  | recordFailure
  | recordSuccess
  deriving DecidableEq, Repr

/-- The fields that an event leaves behind, also when `beforeRequest` throws. -/
def next (c : Settings) (s : Circuit) : Event → Circuit
  | .tick ms => { s with nowMs := s.nowMs + ms }
  | .beforeRequest => match s.beforeRequest c with
      | .ok _ t => t
      | .error _ t => t
  | .recordFailure => s.recordFailure c
  | .recordSuccess => s.recordSuccess c

/-- What an event can do to a breaker that is enabled. -/
inductive Moves (c : Settings) (s : Circuit) : Event → Circuit → Prop
  | tick (ms : ℕ) : Moves c s (.tick ms) { s with nowMs := s.nowMs + ms }
  | admits (hs : s.circuitState ≠ .opened) : Moves c s .beforeRequest s
  | refuses (hs : s.circuitState = .opened) (ht : s.nowMs < s.circuitOpenUntilMs) :
      Moves c s .beforeRequest s
  | halfOpens (hs : s.circuitState = .opened) (ht : s.circuitOpenUntilMs ≤ s.nowMs) :
      Moves c s .beforeRequest { s with circuitState := .halfOpen, halfOpenSuccesses := 0 }
  | opens (hs : s.circuitState = .halfOpen ∨ c.circuitFailureThreshold ≤ s.circuitFailures + 1) :
      Moves c s .recordFailure { s with
        circuitState := .opened, circuitFailures := s.circuitFailures + 1,
        circuitOpenUntilMs := s.nowMs + c.circuitOpenMs, halfOpenSuccesses := 0 }
  | tolerates (hs : s.circuitState ≠ .halfOpen)
      (hlt : s.circuitFailures + 1 < c.circuitFailureThreshold) :
      Moves c s .recordFailure
        { s with circuitFailures := s.circuitFailures + 1, halfOpenSuccesses := 0 }
  | recovers (hs : s.circuitState ≠ .halfOpen) :
      Moves c s .recordSuccess { s with circuitState := .closed, circuitFailures := 0 }
  | probes (hs : s.circuitState = .halfOpen)
      (hlt : s.halfOpenSuccesses + 1 < c.circuitHalfOpenMaxRequests) :
      Moves c s .recordSuccess { s with halfOpenSuccesses := s.halfOpenSuccesses + 1 }
  | closes (hs : s.circuitState = .halfOpen)
      (hle : c.circuitHalfOpenMaxRequests ≤ s.halfOpenSuccesses + 1) :
      Moves c s .recordSuccess
        { s with circuitState := .closed, circuitFailures := 0, halfOpenSuccesses := 0 }

variable {c : Settings} {s : Circuit}

theorem beforeRequest_of_lt (h : c.circuitBreakerEnabled = true) (hs : s.circuitState = .opened)
    (ht : s.nowMs < s.circuitOpenUntilMs) : s.beforeRequest c = .error circuitOpen s := by
  simp [beforeRequest, h, hs, Nat.not_le.mpr ht]

/-- A call that throws changes no field. -/
theorem eq_of_beforeRequest_error {e : Err} {t : Circuit} (h : s.beforeRequest c = .error e t) :
    t = s ∧ e = circuitOpen := by
  unfold beforeRequest at h
  split_ifs at h
  cases h
  exact ⟨rfl, rfl⟩

theorem moves_beforeRequest (h : c.circuitBreakerEnabled = true) :
    Moves c s .beforeRequest (s.next c .beforeRequest) := by
  by_cases hs : s.circuitState = .opened
  · by_cases ht : s.circuitOpenUntilMs ≤ s.nowMs
    · simpa [next, beforeRequest, h, hs, ht] using Moves.halfOpens (c := c) hs ht
    · rw [next, beforeRequest_of_lt h hs (Nat.not_le.mp ht)]
      exact Moves.refuses hs (Nat.not_le.mp ht)
  · simpa [next, beforeRequest, h, hs] using Moves.admits (c := c) hs

theorem moves_recordFailure (h : c.circuitBreakerEnabled = true) :
    Moves c s .recordFailure (s.next c .recordFailure) := by
  by_cases hs : s.circuitState = .halfOpen ∨ c.circuitFailureThreshold ≤ s.circuitFailures + 1
  · simpa [next, recordFailure, h, hs] using Moves.opens (c := c) hs
  · have hs' := not_or.mp hs
    simpa [next, recordFailure, h, hs] using
      Moves.tolerates (c := c) hs'.1 (Nat.not_le.mp hs'.2)

theorem moves_recordSuccess (h : c.circuitBreakerEnabled = true) :
    Moves c s .recordSuccess (s.next c .recordSuccess) := by
  by_cases hs : s.circuitState = .halfOpen
  · by_cases hle : c.circuitHalfOpenMaxRequests ≤ s.halfOpenSuccesses + 1
    · simpa [next, recordSuccess, h, hs, hle] using Moves.closes (c := c) hs hle
    · simpa [next, recordSuccess, h, hs, hle] using
        Moves.probes (c := c) hs (Nat.not_le.mp hle)
  · simpa [next, recordSuccess, h, hs] using Moves.recovers (c := c) hs

theorem next_moves (h : c.circuitBreakerEnabled = true) (e : Event) :
    Moves c s e (s.next c e) := by
  cases e with
  | tick ms => exact Moves.tick ms
  | beforeRequest => exact moves_beforeRequest h
  | recordFailure => exact moves_recordFailure h
  | recordSuccess => exact moves_recordSuccess h

/-- A closed breaker opens at the failure that reaches the threshold. -/
theorem Moves.opens_iff {e : Event} {t : Circuit} (hm : Moves c s e t)
    (hs : s.circuitState = .closed) (hlt : s.circuitFailures < c.circuitFailureThreshold) :
    t.circuitState = .opened ↔
      e = .recordFailure ∧ s.circuitFailures + 1 = c.circuitFailureThreshold := by
  cases hm with
  | opens hopens =>
      have heq : s.circuitFailures + 1 = c.circuitFailureThreshold := by
        rcases hopens with hhalf | hle
        · rw [hs] at hhalf
          cases hhalf
        · exact Nat.le_antisymm hlt hle
      simp [heq]
  | tolerates _ hlt' => simp [hs, Nat.ne_of_lt hlt']
  | _ => simp [*]

/-- A half-open breaker closes at the success that fills the quota. -/
theorem Moves.closes_iff {e : Event} {t : Circuit} (hm : Moves c s e t)
    (hs : s.circuitState = .halfOpen)
    (hlt : s.halfOpenSuccesses < c.circuitHalfOpenMaxRequests) :
    t.circuitState = .closed ↔
      e = .recordSuccess ∧ s.halfOpenSuccesses + 1 = c.circuitHalfOpenMaxRequests := by
  cases hm with
  | closes _ hle =>
      have heq : s.halfOpenSuccesses + 1 = c.circuitHalfOpenMaxRequests :=
        Nat.le_antisymm hlt hle
      simp [heq]
  | probes _ hlt' => simp [hs, Nat.ne_of_lt hlt']
  | recovers hne => exact absurd hs hne
  | _ => simp [*]

end Circuit

end NodeHttp

end DittoClient
