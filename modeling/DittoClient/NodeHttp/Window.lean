import DittoClient.NodeHttp.Client

/-!
# The open window of the circuit breaker

For a while after a failure has opened the breaker, every request is refused. What can cut this
window short is a request that was sent before the breaker opened and succeeds afterwards: its
success closes the breaker at once. `InTurn` excludes such a success.
-/

namespace DittoClient

namespace NodeHttp

open DittoClient.Transition

namespace Client

variable {ρ : Type} {c : Settings} {s t : Client ρ} {a : Action ρ}

/-- The action ends in `recordFailure`. -/
def RecordsFailure (c : Settings) (s : Client ρ) (a : Action ρ) : Prop :=
  event c s a = some .recordFailure

/-- A request is refused by the breaker. -/
def Refused (c : Settings) (s : Client ρ) (r : RequestInit) : Prop :=
  step c s (.request r) = some { s with requests := s.requests ++ [.rejected circuitOpen] }

/-- Along every run under `C`, an open breaker does not close before it is half-open, and from
the time at which a failure opens it the requests are refused for `circuitOpenMs`. -/
def KeepsWindow (c : Settings) (C : Client ρ → Action ρ → Prop) : Prop :=
  ∀ nowMs s, Reachable (step c) C (init nowMs) s → ∀ a t, C s a → step c s a = some t →
    (s.circuit.circuitState = .opened → t.circuit.circuitState ≠ .closed) ∧
      (RecordsFailure c s a → t.circuit.circuitState = .opened →
        ∀ u, Reachable (step c) C t u → u.circuit.nowMs < t.circuit.nowMs + c.circuitOpenMs →
          ∀ r, C u (.request r) → Refused c u r)

/-- No request succeeds while the breaker is open, and none has a body of an unsupported type,
which is refused before the breaker is asked. -/
def InTurn (s : Client ρ) : Action ρ → Prop
  | .request r => normalizeRequestBody r = .ok ()
  | .reply _ r _ => s.circuit.circuitState = .opened → r.fails = true
  | _ => True

/-- An attempt records a success only if it did not fail. -/
theorem event_reply_ne {i jitter : ℕ} {r : Reply ρ} (hfails : r.fails = true) :
    event c s (.reply i r jitter) ≠ some .recordSuccess := by
  simp only [event, hfails]
  split
  · split_ifs <;> simp
  · simp

/-- What a run under `InTurn` does not record. -/
theorem event_ne_of_inTurn (h : InTurn s a) (hs : s.circuit.circuitState = .opened) :
    event c s a ≠ some .recordSuccess := by
  cases a with
  | tick ms => simp [event]
  | request r =>
      simp only [event]
      cases normalizeRequestBody r <;> simp
  | reply i r jitter => exact event_reply_ne (h hs)
  | wake i => simp [event]

end Client

namespace Circuit

variable {c : Settings} {s t : Circuit} {e : Event}

/-- Until `untilMs` the breaker is open and stays so. -/
def OpenUntil (untilMs : ℕ) (s : Circuit) : Prop :=
  s.nowMs < untilMs → s.circuitState = .opened ∧ untilMs ≤ s.circuitOpenUntilMs

theorem Moves.nowMs_le (h : Moves c s e t) : s.nowMs ≤ t.nowMs := by
  cases h with
  | tick ms => exact Nat.le_add_right _ _
  | _ => exact Nat.le_refl _

/-- Only a success closes the breaker. -/
theorem Moves.ne_closed (h : Moves c s e t) (hs : s.circuitState = .opened)
    (he : e ≠ .recordSuccess) : t.circuitState ≠ .closed := by
  cases h <;> simp_all

/-- A success that is recorded in open state closes the breaker. -/
theorem Moves.closed_of_late (h : Moves c s .recordSuccess t) (hs : s.circuitState = .opened) :
    t.circuitState = .closed := by
  cases h with
  | recovers _ => rfl
  | probes hhalf _ => simp [hs] at hhalf
  | closes _ _ => rfl

/-- Outside of the closed state the failures have reached the threshold. -/
def Tripped (c : Settings) (s : Circuit) : Prop :=
  s.circuitState ≠ .closed → c.circuitFailureThreshold ≤ s.circuitFailures

theorem Moves.tripped (h : Moves c s e t) (hs : Tripped c s) : Tripped c t := by
  intro ht
  cases h with
  | tick ms => exact hs ht
  | admits _ => exact hs ht
  | refuses _ _ => exact hs ht
  | halfOpens hopened _ => exact hs (by simp [hopened])
  | opens hopens =>
      rcases hopens with hhalf | hle
      · exact Nat.le_succ_of_le (hs (by simp [hhalf]))
      · exact hle
  | tolerates _ hlt => exact absurd (Nat.le_succ_of_le (hs ht)) (Nat.not_le.mpr hlt)
  | recovers _ => exact absurd rfl ht
  | probes _ _ => exact hs ht
  | closes _ _ => exact absurd rfl ht

/-- A failure that leaves the breaker open starts a new window. -/
theorem Moves.openUntil (h : Moves c s .recordFailure t) (hs : Tripped c s)
    (ht : t.circuitState = .opened) : OpenUntil (t.nowMs + c.circuitOpenMs) t := by
  cases h with
  | opens _ => exact fun _ => ⟨rfl, Nat.le_refl _⟩
  | tolerates _ hlt =>
      have hopened : s.circuitState = .opened := ht
      have hle := hs (by simp [hopened])
      exact absurd (Nat.le_succ_of_le hle) (Nat.not_le.mpr hlt)

/-- A window lasts, unless a success is recorded in it. -/
theorem Moves.keeps_openUntil (h : Moves c s e t) {startMs : ℕ} (hstart : startMs ≤ s.nowMs)
    (hs : OpenUntil (startMs + c.circuitOpenMs) s)
    (he : s.circuitState = .opened → e ≠ .recordSuccess) :
    OpenUntil (startMs + c.circuitOpenMs) t := by
  intro hnow
  have hwindow := hs (Nat.lt_of_le_of_lt h.nowMs_le hnow)
  cases h with
  | tick ms => exact hwindow
  | admits _ => exact hwindow
  | refuses _ _ => exact hwindow
  | halfOpens _ hle => exact absurd (Nat.le_trans hwindow.2 hle) (Nat.not_le.mpr hnow)
  | opens _ => exact ⟨rfl, Nat.add_le_add_right hstart _⟩
  | tolerates _ _ => exact hwindow
  | recovers _ => exact absurd rfl (he hwindow.1)
  | probes _ _ => exact absurd rfl (he hwindow.1)
  | closes _ _ => exact absurd rfl (he hwindow.1)

end Circuit

namespace Client

variable {ρ : Type} {c : Settings} {s t : Client ρ} {a : Action ρ}

theorem tripped_of_reachable {C : Client ρ → Action ρ → Prop} {nowMs : ℕ}
    (hon : c.circuitBreakerEnabled = true) (h : Reachable (step c) C (init nowMs) s) :
    Circuit.Tripped c s.circuit := by
  refine h.invariant (I := fun s => Circuit.Tripped c s.circuit) (fun hne => absurd rfl hne)
    fun s a t hs _ hst => ?_
  rcases moves_of_step hon hst with ⟨_, heq⟩ | ⟨e, _, hm⟩
  · rw [heq]
    exact hs
  · exact hm.tripped hs

/-- A window that starts at `startMs` lasts along every run under `InTurn`. -/
theorem openUntil_of_reachable {startMs : ℕ} (hon : c.circuitBreakerEnabled = true)
    (hstart : startMs ≤ s.circuit.nowMs)
    (hs : Circuit.OpenUntil (startMs + c.circuitOpenMs) s.circuit)
    (h : Reachable (step c) InTurn s t) :
    Circuit.OpenUntil (startMs + c.circuitOpenMs) t.circuit := by
  have hboth : startMs ≤ t.circuit.nowMs ∧
      Circuit.OpenUntil (startMs + c.circuitOpenMs) t.circuit := by
    refine h.invariant
      (I := fun u => startMs ≤ u.circuit.nowMs ∧
        Circuit.OpenUntil (startMs + c.circuitOpenMs) u.circuit)
      ⟨hstart, hs⟩ fun u a v hu hc huv => ?_
    rcases moves_of_step hon huv with ⟨_, heq⟩ | ⟨e, he, hm⟩
    · rw [heq]
      exact hu
    · refine ⟨Nat.le_trans hu.1 hm.nowMs_le, hm.keeps_openUntil hu.1 hu.2 fun hopened hsuccess => ?_⟩
      rw [hsuccess] at he
      exact event_ne_of_inTurn hc hopened he
  exact hboth.2

/-- In an open window a request is refused. -/
theorem refused_of_openUntil {untilMs : ℕ} {r : RequestInit}
    (hon : c.circuitBreakerEnabled = true) (hbody : normalizeRequestBody r = .ok ())
    (hs : Circuit.OpenUntil untilMs s.circuit) (hnow : s.circuit.nowMs < untilMs) :
    Refused c s r := by
  obtain ⟨hopened, hle⟩ := hs hnow
  have hbefore := Circuit.beforeRequest_of_lt hon hopened (Nat.lt_of_lt_of_le hnow hle)
  simp [Refused, step, request, hbody, hbefore]

/-- A request that succeeds while the breaker is open closes it. -/
theorem closed_of_late_success (hon : c.circuitBreakerEnabled = true) (h : step c s a = some t)
    (hs : s.circuit.circuitState = .opened) (ha : event c s a = some .recordSuccess) :
    t.circuit.circuitState = .closed := by
  rcases moves_of_step hon h with ⟨hnone, _⟩ | ⟨e, he, hm⟩
  · rw [ha] at hnone
    cases hnone
  · rw [ha] at he
    cases he
    exact hm.closed_of_late hs

/-- The breaker keeps its window along every run in which no request succeeds while it is open. -/
theorem open_window (hon : c.circuitBreakerEnabled = true) :
    KeepsWindow c (InTurn (ρ := ρ)) := by
  intro nowMs s hs a t hc hst
  constructor
  · intro hopened
    rcases moves_of_step hon hst with ⟨_, heq⟩ | ⟨e, he, hm⟩
    · simp [heq, hopened]
    · refine hm.ne_closed hopened fun hsuccess => ?_
      rw [hsuccess] at he
      exact event_ne_of_inTurn hc hopened he
  · intro hfailure ht u hu hnow r hr
    have hm : s.circuit.Moves c .recordFailure t.circuit := by
      rcases moves_of_step hon hst with ⟨hnone, _⟩ | ⟨e, he, hm⟩
      · rw [hfailure] at hnone
        cases hnone
      · rw [hfailure] at he
        cases he
        exact hm
    have hwindow := hm.openUntil (tripped_of_reachable hon hs) ht
    exact refused_of_openUntil hon hr
      (openUntil_of_reachable hon (Nat.le_refl _) hwindow hu) hnow

/-- The options of a client whose breaker opens at the first failure, for five seconds, and
which does not repeat requests. -/
def abrupt : Options where
  retryEnabled := some false
  maxRetries := none
  retryBaseBackoffMs := none
  retryMaxBackoffMs := none
  retryJitterMs := none
  retryMethods := none
  circuitBreakerEnabled := some true
  circuitFailureThreshold := some 1
  circuitOpenMs := none
  circuitHalfOpenMaxRequests := none

def bare : RequestInit where
  method := none
  contentType := none
  body := none

/-- A request in the window that the only failure so far has opened. -/
theorem open_window_abrupt :
    Refused (Settings.ofOptions abrupt) {
      circuit := ⟨4999, .opened, 1, 5000, 0⟩, requests := [.resolved 503 ()] } bare := by
  have hsent : step (Settings.ofOptions abrupt) (init 0 : Client Unit) (.request bare) =
      some { circuit := ⟨0, .closed, 0, 0, 0⟩, requests := [.fetching false 0] } := rfl
  have hturn : InTurn (init 0 : Client Unit) (.request bare) := rfl
  have hlast := open_window (c := Settings.ofOptions abrupt) (by decide) 0 _
    ⟨_, Run.single hturn hsent⟩ (.reply 0 (.response 503 ()) 0) _ nofun rfl
  have hlater : step (Settings.ofOptions abrupt) {
      circuit := ⟨0, .opened, 1, 5000, 0⟩, requests := [.resolved 503 ()] } (.tick 4999) =
      some { circuit := ⟨4999, .opened, 1, 5000, 0⟩, requests := [.resolved 503 ()] } := rfl
  have hquiet : ∀ s : Client Unit, InTurn s (.tick 4999) := fun _ => trivial
  exact hlast.2 rfl rfl _ ⟨_, Run.single (hquiet _) hlater⟩ (by decide) bare rfl

/-- Two requests are sent, the first fails and opens the breaker, the second succeeds: the breaker
closes at once. -/
theorem window_cut_short :
    ¬ KeepsWindow (ρ := Unit) (Settings.ofOptions abrupt) (fun _ _ => True) := by
  intro h
  have hopened : exec (step (Settings.ofOptions abrupt)) (fun _ _ => True)
      (init 0 : Client Unit) [.request bare, .request bare, .reply 0 (.response 503 ()) 0] = some _ := rfl
  exact (h 0 _ ⟨_, run_of_exec hopened⟩ (.reply 1 (.response 200 ()) 0) _ trivial rfl).1 rfl rfl

end Client

end NodeHttp

end DittoClient
