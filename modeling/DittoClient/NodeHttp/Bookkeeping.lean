import DittoClient.NodeHttp.Breaker

/-!
# What the counters of the breaker hold

The breaker is run together with a log of its events, newest first. `Bookkeeping` relates the
counters to the log: `circuitFailures` counts the failures since the last success that was not
a probe, or since the breaker closed; `halfOpenSuccesses` counts the probes that succeeded since
the breaker became half-open. From this it follows when exactly the breaker opens and closes.
-/

namespace DittoClient

namespace NodeHttp

open DittoClient.Transition

/-- An event, with the state of the breaker before and after it. -/
structure Entry where
  before : CircuitState
  event : Circuit.Event
  after : CircuitState
  deriving DecidableEq, Repr

namespace Entry

def isFailure (e : Entry) : Bool :=
  decide (e.event = .recordFailure)

def isSuccess (e : Entry) : Bool :=
  decide (e.event = .recordSuccess)

/-- A success recorded in closed or open state. -/
def recovers (e : Entry) : Bool :=
  e.isSuccess && decide (e.before ≠ .halfOpen)

def closes (e : Entry) : Bool :=
  decide (e.before ≠ .closed) && decide (e.after = .closed)

def halfOpens (e : Entry) : Bool :=
  decide (e.before ≠ .halfOpen) && decide (e.after = .halfOpen)

end Entry

/-- The breaker and the log of its events. -/
structure Logged where
  circuit : Circuit
  log : List Entry
  deriving DecidableEq, Repr

namespace Logged

variable {c : Settings} {s t : Logged}

def init (nowMs : ℕ) : Logged where
  circuit := Circuit.init nowMs
  log := []

/-- The event `e` leaves the breaker in `t`. -/
def logged (s : Logged) (e : Circuit.Event) (t : Circuit) : Logged where
  circuit := t
  log := ⟨s.circuit.circuitState, e, t.circuitState⟩ :: s.log

/-- The breaker takes an event, which goes to the log. -/
def step (c : Settings) (s : Logged) (e : Circuit.Event) : Option Logged :=
  some (s.logged e (s.circuit.next c e))

/-- The failures since the last success in closed or open state, or since the breaker closed. -/
def failures (s : Logged) : ℕ :=
  tally (fun e => e.recovers || e.closes) Entry.isFailure s.log

/-- The failures recorded in a row, with no success among them. -/
def failuresInRow (s : Logged) : ℕ :=
  tally Entry.isSuccess Entry.isFailure s.log

/-- The successes since the breaker became half-open, with no failure among them. -/
def successesInRow (s : Logged) : ℕ :=
  tally (fun e => e.isFailure || e.halfOpens) Entry.isSuccess s.log

/-- The invariant that links the counters to the log. -/
structure Counts (c : Settings) (s : Logged) : Prop where
  failures_eq : s.circuit.circuitFailures = s.failures
  inRow_eq : s.circuit.circuitState = .closed → s.circuit.circuitFailures = s.failuresInRow
  lt_threshold : s.circuit.circuitState = .closed →
    s.circuit.circuitFailures < c.circuitFailureThreshold
  idle : s.circuit.circuitState ≠ .halfOpen → s.circuit.halfOpenSuccesses = 0
  probes_eq : s.circuit.circuitState = .halfOpen →
    s.circuit.halfOpenSuccesses = s.successesInRow
  lt_quota : s.circuit.halfOpenSuccesses < c.circuitHalfOpenMaxRequests

theorem counts_init (c : Settings) (nowMs : ℕ) : Counts c (init nowMs) where
  failures_eq := rfl
  inRow_eq _ := rfl
  lt_threshold _ := c.one_le_circuitFailureThreshold
  idle _ := rfl
  probes_eq h := by cases h
  lt_quota := c.one_le_circuitHalfOpenMaxRequests

@[simp] theorem logged_circuit (e : Circuit.Event) (t : Circuit) : (s.logged e t).circuit = t :=
  rfl

theorem failures_logged (e : Circuit.Event) (t : Circuit) :
    (s.logged e t).failures =
      if e = .recordSuccess ∧ s.circuit.circuitState ≠ .halfOpen ∨
          s.circuit.circuitState ≠ .closed ∧ t.circuitState = .closed then 0
      else s.failures + if e = .recordFailure then 1 else 0 := by
  simp [failures, logged, tally_cons, Entry.recovers, Entry.closes, Entry.isSuccess,
    Entry.isFailure]

theorem failuresInRow_logged (e : Circuit.Event) (t : Circuit) :
    (s.logged e t).failuresInRow =
      if e = .recordSuccess then 0
      else s.failuresInRow + if e = .recordFailure then 1 else 0 := by
  simp [failuresInRow, logged, tally_cons, Entry.isSuccess, Entry.isFailure]

theorem successesInRow_logged (e : Circuit.Event) (t : Circuit) :
    (s.logged e t).successesInRow =
      if e = .recordFailure ∨
          s.circuit.circuitState ≠ .halfOpen ∧ t.circuitState = .halfOpen then 0
      else s.successesInRow + if e = .recordSuccess then 1 else 0 := by
  simp [successesInRow, logged, tally_cons, Entry.halfOpens, Entry.isSuccess, Entry.isFailure]

namespace Counts

/-- An event that changes none of the fields that are counted. -/
theorem of_quiet (h : Counts c s) {e : Circuit.Event} {t : Circuit}
    (hsuccess : e ≠ .recordSuccess) (hfailure : e ≠ .recordFailure)
    (hstate : t.circuitState = s.circuit.circuitState)
    (hfailures : t.circuitFailures = s.circuit.circuitFailures)
    (hprobes : t.halfOpenSuccesses = s.circuit.halfOpenSuccesses) : Counts c (s.logged e t) where
  failures_eq := by
    simpa [failures_logged, hsuccess, hfailure, hstate, hfailures] using h.failures_eq
  inRow_eq := by
    simpa [failuresInRow_logged, hsuccess, hfailure, hstate, hfailures] using h.inRow_eq
  lt_threshold := by simpa [hstate, hfailures] using h.lt_threshold
  idle := by simpa [hstate, hprobes] using h.idle
  probes_eq := by
    simpa [successesInRow_logged, hsuccess, hfailure, hstate, hprobes] using h.probes_eq
  lt_quota := by simpa [hprobes] using h.lt_quota

theorem halfOpens (h : Counts c s) (hs : s.circuit.circuitState = .opened) :
    Counts c (s.logged .beforeRequest
      { s.circuit with circuitState := .halfOpen, halfOpenSuccesses := 0 }) where
  failures_eq := by simpa [failures_logged] using h.failures_eq
  inRow_eq hclosed := by cases hclosed
  lt_threshold hclosed := by cases hclosed
  idle hne := absurd rfl hne
  probes_eq _ := by simp [successesInRow_logged, hs]
  lt_quota := c.one_le_circuitHalfOpenMaxRequests

theorem opens (h : Counts c s) :
    Counts c (s.logged .recordFailure { s.circuit with
      circuitState := .opened, circuitFailures := s.circuit.circuitFailures + 1,
      circuitOpenUntilMs := s.circuit.nowMs + c.circuitOpenMs, halfOpenSuccesses := 0 }) where
  failures_eq := by simpa [failures_logged] using h.failures_eq
  inRow_eq hclosed := by cases hclosed
  lt_threshold hclosed := by cases hclosed
  idle _ := rfl
  probes_eq hhalf := by cases hhalf
  lt_quota := c.one_le_circuitHalfOpenMaxRequests

theorem tolerates (h : Counts c s)
    (hlt : s.circuit.circuitFailures + 1 < c.circuitFailureThreshold) :
    Counts c (s.logged .recordFailure { s.circuit with
      circuitFailures := s.circuit.circuitFailures + 1, halfOpenSuccesses := 0 }) where
  failures_eq := by simpa [failures_logged] using h.failures_eq
  inRow_eq := by simpa [failuresInRow_logged] using h.inRow_eq
  lt_threshold _ := hlt
  idle _ := rfl
  probes_eq _ := by simp [successesInRow_logged]
  lt_quota := c.one_le_circuitHalfOpenMaxRequests

theorem recovers (h : Counts c s) (hs : s.circuit.circuitState ≠ .halfOpen) :
    Counts c (s.logged .recordSuccess
      { s.circuit with circuitState := .closed, circuitFailures := 0 }) where
  failures_eq := by simp [failures_logged, hs]
  inRow_eq _ := by simp [failuresInRow_logged]
  lt_threshold _ := c.one_le_circuitFailureThreshold
  idle _ := h.idle hs
  probes_eq hhalf := by cases hhalf
  lt_quota := h.lt_quota

theorem probes (h : Counts c s) (hs : s.circuit.circuitState = .halfOpen)
    (hlt : s.circuit.halfOpenSuccesses + 1 < c.circuitHalfOpenMaxRequests) :
    Counts c (s.logged .recordSuccess
      { s.circuit with halfOpenSuccesses := s.circuit.halfOpenSuccesses + 1 }) where
  failures_eq := by simpa [failures_logged, hs] using h.failures_eq
  inRow_eq hclosed := by simp [hs] at hclosed
  lt_threshold hclosed := by simp [hs] at hclosed
  idle hne := absurd hs hne
  probes_eq _ := by simpa [successesInRow_logged, hs] using h.probes_eq hs
  lt_quota := hlt

theorem closes (hs : s.circuit.circuitState = .halfOpen) :
    Counts c (s.logged .recordSuccess { s.circuit with
      circuitState := .closed, circuitFailures := 0, halfOpenSuccesses := 0 }) where
  failures_eq := by simp [failures_logged, hs]
  inRow_eq _ := by simp [failuresInRow_logged]
  lt_threshold _ := c.one_le_circuitFailureThreshold
  idle _ := rfl
  probes_eq hhalf := by cases hhalf
  lt_quota := c.one_le_circuitHalfOpenMaxRequests

/-- One event keeps the counters in step with the log. -/
theorem next (h : Counts c s) {e : Circuit.Event} {t : Circuit}
    (hm : s.circuit.Moves c e t) : Counts c (s.logged e t) := by
  cases hm with
  | tick ms => exact h.of_quiet nofun nofun rfl rfl rfl
  | admits hs => exact h.of_quiet nofun nofun rfl rfl rfl
  | refuses hs ht => exact h.of_quiet nofun nofun rfl rfl rfl
  | halfOpens hs ht => exact h.halfOpens hs
  | opens hs => exact h.opens
  | tolerates hs hlt => exact h.tolerates hlt
  | recovers hs => exact h.recovers hs
  | probes hs hlt => exact h.probes hs hlt
  | closes hs hle => exact Counts.closes hs

end Counts

/-- What the counters of the breaker hold, and when it opens and closes. -/
structure Bookkeeping (c : Settings) (s : Logged) : Prop where
  failures_lt : s.circuit.circuitState = .closed →
    s.circuit.circuitFailures < c.circuitFailureThreshold
  failures_eq : s.circuit.circuitState = .closed → s.circuit.circuitFailures = s.failures
  opens_iff : s.circuit.circuitState = .closed → ∀ e,
    (s.circuit.next c e).circuitState = .opened ↔
      e = .recordFailure ∧ s.failuresInRow + 1 = c.circuitFailureThreshold
  probes_lt : s.circuit.halfOpenSuccesses < c.circuitHalfOpenMaxRequests
  closes_iff : s.circuit.circuitState = .halfOpen → ∀ e,
    (s.circuit.next c e).circuitState = .closed ↔
      e = .recordSuccess ∧ s.successesInRow + 1 = c.circuitHalfOpenMaxRequests
  reopens : s.circuit.circuitState = .halfOpen →
    (s.circuit.recordFailure c).circuitState = .opened
  refused_eq : ∀ err t, s.circuit.beforeRequest c = .error err t → t = s.circuit

theorem Counts.bookkeeping (h : Counts c s) (hon : c.circuitBreakerEnabled = true) :
    Bookkeeping c s where
  failures_lt := h.lt_threshold
  failures_eq _ := h.failures_eq
  opens_iff hclosed e := by
    rw [← h.inRow_eq hclosed]
    exact (Circuit.next_moves hon e).opens_iff hclosed (h.lt_threshold hclosed)
  probes_lt := h.lt_quota
  closes_iff hhalf e := by
    rw [← h.probes_eq hhalf]
    exact (Circuit.next_moves hon e).closes_iff hhalf h.lt_quota
  reopens hhalf := by
    simp [Circuit.recordFailure, hon, hhalf]
  refused_eq err t ht := (Circuit.eq_of_beforeRequest_error ht).1

theorem counts_of_reachable {nowMs : ℕ} (hon : c.circuitBreakerEnabled = true)
    (h : Reachable (step c) (fun _ _ => True) (init nowMs) s) : Counts c s :=
  h.invariant (counts_init c nowMs) fun s e t hs _ hst => by
    cases hst
    exact hs.next (Circuit.next_moves hon e)

/-- The bookkeeping holds whatever the order of the calls. -/
theorem breaker_bookkeeping {nowMs : ℕ} (hon : c.circuitBreakerEnabled = true)
    (h : Reachable (step c) (fun _ _ => True) (init nowMs) s) : Bookkeeping c s :=
  (counts_of_reachable hon h).bookkeeping hon

/-- The options of a client whose breaker opens at the first failure, for five seconds. -/
def sensitive : Options where
  retryEnabled := none
  maxRetries := none
  retryBaseBackoffMs := none
  retryMaxBackoffMs := none
  retryJitterMs := none
  retryMethods := none
  circuitBreakerEnabled := some true
  circuitFailureThreshold := some 1
  circuitOpenMs := none
  circuitHalfOpenMaxRequests := none

/-- The bookkeeping of a breaker that has opened and has seen one probe succeed. -/
theorem breaker_bookkeeping_probed :
    ∃ s, s.circuit.circuitState = .halfOpen ∧ s.circuit.halfOpenSuccesses = 1 ∧
      Bookkeeping (Settings.ofOptions sensitive) s := by
  have hrun : exec (step (Settings.ofOptions sensitive)) (fun _ _ => True) (init 0)
      [.beforeRequest, .recordFailure, .tick 5000, .beforeRequest, .recordSuccess] = some _ := rfl
  exact ⟨_, rfl, rfl, breaker_bookkeeping (by decide) ⟨_, run_of_exec hrun⟩⟩

end Logged

end NodeHttp

end DittoClient
