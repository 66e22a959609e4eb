import DittoClient.NodeTcp.Backoff
import DittoClient.Transition.Tally

/-!
# Bounded reconnection

A client that reconnects gives up after a number of failures. It is run together with a log of its
attempts, newest first: `reconnectAttempts` counts the failures since a run of `doConnect` last went
on connected, and from one connection to the next no more than `maxReconnectAttempts` fail
(`reconnection_bounded`).
-/

namespace DittoClient

namespace NodeTcp

open DittoClient.Transition

variable (opts : Options) (b : Backoff)

/-- A client with the log of its attempts to connect. -/
structure Recorded where
  state : State
  log : List Mark

namespace Recorded

def init : Recorded where
  state := State.init
  log := []

/-- A step of the client, which goes to the log. -/
def step (r : Recorded) (a : Action) : Option Recorded :=
  (NodeTcp.step opts r.state a).map fun t => ⟨t, r.state.mark a :: r.log⟩

/-- The attempts that failed since a socket was last connected. -/
def failures (r : Recorded) : ℕ :=
  tally (fun m => decide (m = .connected)) (fun m => decide (m = .failed)) r.log

/-- The attempts that failed since a run of `doConnect` last went on connected. -/
def failuresNoticed (r : Recorded) : ℕ :=
  tally (fun m => decide (m = .noticed)) (fun m => decide (m = .failed)) r.log

/-- `connect` is called once. -/
def CallsOnce (r : Recorded) : Action → Prop
  | .connect _ => .called ∉ r.log
  | _ => True

instance (r : Recorded) (a : Action) : Decidable (r.CallsOnce a) :=
  match a with
  | .connect _ => inferInstanceAs (Decidable (_ ∉ r.log))
  | .close | .request _ | .watch _ _ _ | .unwatch _ _ | .resume _ | .sockConnected _
  | .sockData _ _ | .sockError _ _ | .sockClose _ | .connectTimeout _ | .idleTimeout _
  | .requestTimeout _ | .reconnectTimer _ | .round | .callbackThrow => isTrue trivial

/-- What bounded reconnection means for a state and for what may follow it. -/
structure Bounded (r : Recorded) : Prop where
  single : r.state.reconnectTimer = true → ∀ k, (r.state.tasks k).pc.attempting = false
  unique : ∀ j k, (r.state.tasks j).pc.attempting = true → (r.state.tasks k).pc.attempting = true →
    j = k
  failures : r.failures ≤ opts.maxReconnectAttempts
  exhausted : r.failures = opts.maxReconnectAttempts →
    ∀ r', Reachable (step opts) CallsOnce r r' → r'.state.reconnectTimer = false ∧
      ∀ a, armedDelay opts b r'.state a = none
  emptied : ∀ k r', (r.state.tasks k).pc = .failed → r.step opts (.resume k) = some r' →
    r'.failures = opts.maxReconnectAttempts → r'.state.offlineQueue = [] ∧
      ∀ w ∈ r.state.offlineQueue, ∃ e, (r'.state.waiters w).outcomes = [.rejected e]
  armed : ∀ a r', CallsOnce r a → r.step opts a = some r' → r.state.reconnectTimer = false →
    r'.state.reconnectTimer = true → (armedDelay opts b r.state a).isSome = true
  delay : ∀ a r' d, CallsOnce r a → r.step opts a = some r' →
    armedDelay opts b r.state a = some d → r.state.reconnectTimer = false ∧
      d = min (b.baseBackoffMs * 2 ^ r'.failuresNoticed) b.maxBackoffMs ∧
        ((∀ k, (r.state.tasks k).pc ≠ .connected) →
          d = min (b.baseBackoffMs * 2 ^ r'.failures) b.maxBackoffMs)
  closed : r.state.destroyed = true → ∀ r', Reachable (step opts) CallsOnce r r' →
    r'.state.reconnectTimer = false ∧ ∀ a, armedDelay opts b r'.state a = none

/-- Why reconnection is bounded: the counter is the number of failures, which is below the maximum
as long as there is something that may fail. -/
structure Counts (r : Recorded) : Prop where
  begun : ∀ k, r.state.nextTask ≤ k → (r.state.tasks k).pc = .done none
  waiters : WaiterInv r.state
  sound : r.state.link.Sound
  single : r.state.link.Single
  unused : .called ∉ r.log → r.state.link.Unused ∧ r.state.reconnectAttempts = 0
  counter : r.state.reconnectAttempts = r.failuresNoticed
  pending : ∀ k, (r.state.tasks k).pc = .connected → r.failures = 0
  settled : (∀ k, (r.state.tasks k).pc ≠ .connected) → r.failures = r.state.reconnectAttempts
  room : (r.state.reconnectTimer = true ∨ r.state.socket.isSome = true ∨
    ∃ k, (r.state.tasks k).pc.attempting = true) →
      r.state.reconnectAttempts < opts.maxReconnectAttempts
  le : r.state.reconnectAttempts ≤ opts.maxReconnectAttempts

section Counting

variable {r : Recorded} {a : Action} {t : State}

theorem failures_cons (t : State) (m : Mark) (log : List Mark) (s : State) :
    failures ⟨t, m :: log⟩ =
      if m = .connected then 0 else failures ⟨s, log⟩ + if m = .failed then 1 else 0 := by
  simp [failures, tally_cons]

theorem failuresNoticed_cons (t : State) (m : Mark) (log : List Mark) (s : State) :
    failuresNoticed ⟨t, m :: log⟩ = m.count (failuresNoticed ⟨s, log⟩) := by
  cases m with
  | noticed => simp [failuresNoticed, tally_cons, Mark.count]
  | failed => simp [failuresNoticed, tally_cons, Mark.count]
  | _ => simp [failuresNoticed, tally_cons, Mark.count]

theorem counts_init : Counts opts init where
  begun k _ := rfl
  waiters := waiterInv_init
  sound := ⟨fun i hi => (by cases hi), fun h => (by cases h), fun h => (by cases h)⟩
  single := ⟨fun h => (by cases h), fun h => (by cases h), fun j k hj => (by cases hj),
    fun k i hk => (by cases hk), fun i hi => (by cases hi), fun j k hj => (by cases hj)⟩
  unused _ := ⟨⟨rfl, rfl, fun k => rfl⟩, rfl⟩
  counter := rfl
  pending k hk := by cases hk
  settled _ := rfl
  room h := by
    rcases h with h | h | ⟨k, hk⟩
    · cases h
    · cases h
    · cases hk
  le := Nat.zero_le _

namespace Counts

/-- A step that is counted as a failure is that of a run that has failed. -/
theorem failed_of_mark {s : State} (h : s.mark a = .failed) :
    ∃ k, a = .resume k ∧ (s.tasks k).pc = .failed := by
  cases a with
  | resume k =>
      refine ⟨k, rfl, ?_⟩
      have hmark : (s.tasks k).pc.mark = .failed := h
      cases hpc : (s.tasks k).pc with
      | failed => rfl
      | _ =>
          rw [hpc] at hmark
          cases hmark
  | _ => cases h

theorem noticed_of_mark {s : State} (h : s.mark a = .noticed) :
    ∃ k, a = .resume k ∧ (s.tasks k).pc = .connected := by
  cases a with
  | resume k =>
      refine ⟨k, rfl, ?_⟩
      have hmark : (s.tasks k).pc.mark = .noticed := h
      cases hpc : (s.tasks k).pc with
      | connected => rfl
      | _ =>
          rw [hpc] at hmark
          cases hmark
  | _ => cases h

theorem connected_of_mark {s : State} (h : s.mark a = .connected) : ∃ i, a = .sockConnected i := by
  cases a with
  | sockConnected i => exact ⟨i, rfl⟩
  | resume k =>
      have hmark : (s.tasks k).pc.mark = .connected := h
      cases hpc : (s.tasks k).pc with
      | _ =>
          rw [hpc] at hmark
          cases hmark
  | _ => cases h

theorem attempting_of_failed {s : State} {k : ℕ} (h : (s.tasks k).pc = .failed) :
    (s.link.tasks k).pc.attempting = true := by
  have hpc : (s.link.tasks k).pc = .failed := h
  rw [hpc]
  rfl

/-- The single attempt goes on as one. -/
theorem single_next (h : Counts opts r) (hcalls : r.CallsOnce a)
    (hs : NodeTcp.step opts r.state a = some t) : t.link.Single := by
  refine h.single.step (step_link opts hs) ?_ ?_ ?_
  · rintro created rfl -
    exact (h.unused hcalls).1
  · rintro created rfl k hk
    simp only [NodeTcp.step, Option.ite_none_right_eq_some, Option.some.injEq] at hs
    obtain ⟨⟨hidle, -⟩, -⟩ := hs
    have hlt : k < r.state.nextTask := by
      refine Nat.lt_of_not_le fun hle => ?_
      have hk' : (r.state.tasks k).pc = .connected := hk
      rw [h.begun k hle] at hk'
      cases hk'
    have hall := (Bool.and_eq_true_iff.mp hidle).2
    have hready := List.all_eq_true.mp hall k (List.mem_range.mpr hlt)
    simp [State.ready, show (r.state.tasks k).pc = .connected from hk] at hready
  · rintro k rfl
    exact (resume_rests opts (step_resume opts hs)).2

theorem unused_next (h : Counts opts r) (hs : NodeTcp.step opts r.state a = some t)
    (hlog : .called ∉ r.state.mark a :: r.log) : t.link.Unused ∧ t.reconnectAttempts = 0 := by
  simp only [List.mem_cons, not_or] at hlog
  obtain ⟨hunused, hzero⟩ := h.unused hlog.2
  refine ⟨(step_link opts hs).unused hunused h.single ?_ ?_, ?_⟩
  · rintro created rfl
    exact hlog.1 rfl
  · rintro k rfl
    exact resume_begun opts (step_resume opts hs)
  · rw [step_attempts opts h.waiters hs, hzero]
    cases hmark : r.state.mark a with
    | failed =>
        obtain ⟨k, -, hk⟩ := failed_of_mark hmark
        have hdone : (r.state.tasks k).pc = .done none := hunused.tasks k
        rw [hdone] at hk
        cases hk
    | _ => rfl

/-- A run that is connected finds no failure since. -/
theorem pending_next (h : Counts opts r) (hs : NodeTcp.step opts r.state a = some t) (k : ℕ)
    (hk : (t.tasks k).pc = .connected) : failures ⟨t, r.state.mark a :: r.log⟩ = 0 := by
  have hconn := (step_link opts hs).connected (fun j ha => by
    subst ha
    exact (resume_rests opts (step_resume opts hs)).2) hk
  rw [failures_cons t _ _ r.state]
  rcases hconn with hpc | ⟨i, rfl⟩
  · have hnot : r.state.mark a ≠ .failed := fun hmark => by
      obtain ⟨j, -, hj⟩ := failed_of_mark hmark
      have hfalse := h.single.noticed k j hpc
      rw [attempting_of_failed hj] at hfalse
      cases hfalse
    have hzero : failures ⟨r.state, r.log⟩ = 0 := h.pending k hpc
    rw [hzero, if_neg hnot]
    split
    · rfl
    · rfl
  · rfl

/-- The run whose socket is connected goes on connected. -/
theorem connected_next (h : Counts opts r) {i : ℕ}
    (hs : NodeTcp.step opts r.state (.sockConnected i) = some t) :
    ∃ k, (t.tasks k).pc = .connected := by
  obtain ⟨-, hphase⟩ := idle_of_sockConnected opts hs
  simp only [NodeTcp.step, Option.ite_none_right_eq_some, Option.some.injEq] at hs
  refine ⟨(r.state.link.socks i).task, ?_⟩
  have hlink : t.link = { (r.state.link.setPhase i .connected).settled i .connected with
      socket := some i } := by
    rw [← hs.2, link_onConnected, Link.stored_settled]
  have hpc := h.single.answered_pc i .connected .connected (r.state.link.socks i).task
  rw [if_pos (h.single.live i hphase)] at hpc
  exact (congrArg (fun l : Link => (l.tasks (r.state.link.socks i).task).pc) hlink).trans hpc

/-- As long as no run has still to go on connected, the counter is the number of failures. -/
theorem settled_next (h : Counts opts r) (hs : NodeTcp.step opts r.state a = some t)
    (hnone : ∀ k, (t.tasks k).pc ≠ .connected) :
    failures ⟨t, r.state.mark a :: r.log⟩ = t.reconnectAttempts := by
  have hcount := step_attempts opts h.waiters hs
  have hold : (∀ k, a = .resume k → (r.state.tasks k).pc ≠ .connected) →
      failures ⟨r.state, r.log⟩ = r.state.reconnectAttempts := fun hother => by
    refine h.settled fun k hk => hnone k ?_
    have hpc : (r.state.link.tasks k).pc = .connected := hk
    exact ((step_link opts hs).pc_stays h.begun (by rw [hpc]; rfl) (by simp [hpc])
      fun ha => hother k ha hk).trans hpc
  rw [failures_cons t _ _ r.state, hcount]
  cases hmark : r.state.mark a with
  | connected =>
      obtain ⟨i, rfl⟩ := connected_of_mark hmark
      obtain ⟨k, hk⟩ := h.connected_next opts hs
      exact absurd hk (hnone k)
  | noticed =>
      obtain ⟨k, -, hk⟩ := noticed_of_mark hmark
      have hzero : failures ⟨r.state, r.log⟩ = 0 := h.pending k hk
      rw [hzero]
      rfl
  | failed =>
      obtain ⟨k, rfl, hk⟩ := failed_of_mark hmark
      rw [hold fun j ha => by cases ha; rw [hk]; simp]
      rfl
  | called =>
      rw [hold fun j ha hj => by
        subst ha
        have hmark' : (r.state.tasks j).pc.mark = .called := hmark
        rw [hj] at hmark'
        cases hmark']
      rfl
  | other =>
      rw [hold fun j ha hj => by
        subst ha
        have hmark' : (r.state.tasks j).pc.mark = .other := hmark
        rw [hj] at hmark'
        cases hmark']
      rfl

/-- A failure that is dealt with excludes a timer and a stored socket. -/
theorem of_failed_mark (h : Counts opts r) (hmark : r.state.mark a = .failed) :
    r.state.reconnectTimer = false ∧ r.state.socket = none ∧
      (∀ j, (r.state.tasks j).pc ≠ .connected) ∧
        r.state.reconnectAttempts < opts.maxReconnectAttempts ∧ ∃ k, a = .resume k ∧
          (r.state.tasks k).pc = .failed := by
  obtain ⟨k, ha, hk⟩ := failed_of_mark hmark
  have hattempt := attempting_of_failed hk
  obtain ⟨htimer, hsocket, hconn⟩ := h.single.of_attempting hattempt
  exact ⟨htimer, hsocket, hconn, h.room (Or.inr (Or.inr ⟨k, hattempt⟩)), k, ha, hk⟩

/-- Where something may fail, there is room for a failure. -/
theorem room_next (hmax : 0 < opts.maxReconnectAttempts) (h : Counts opts r)
    (hcalls : r.CallsOnce a) (hs : NodeTcp.step opts r.state a = some t)
    (hsome : t.reconnectTimer = true ∨ t.socket.isSome = true ∨
      ∃ k, (t.tasks k).pc.attempting = true) :
    t.reconnectAttempts < opts.maxReconnectAttempts := by
  have hlink := step_link opts hs
  have hcount := step_attempts opts h.waiters hs
  have hroom : r.state.reconnectAttempts < opts.maxReconnectAttempts →
      r.state.mark a ≠ .failed → t.reconnectAttempts < opts.maxReconnectAttempts := by
    intro hlt hne
    rw [hcount]
    cases hmark : r.state.mark a with
    | noticed => exact hmax
    | failed => exact absurd hmark hne
    | _ => exact hlt
  rcases hsome with ht | hsocket | ⟨k, hk⟩
  · rcases step_timer opts ⟨0, 0⟩ h.waiters hs ht with htimer | harmed
    · refine hroom (h.room (Or.inl htimer)) fun hmark => ?_
      rw [(h.of_failed_mark opts hmark).1] at htimer
      cases htimer
    · obtain ⟨d, hd⟩ := Option.isSome_iff_exists.mp harmed
      rw [hcount]
      exact (armedDelay_some opts _ hd).2.2.1 hmax
  · obtain ⟨i, hi⟩ := Option.isSome_iff_exists.mp hsocket
    rcases hlink.socket_some hi with hstored | rfl
    · have hstored : r.state.socket = some i := hstored
      refine hroom (h.room (Or.inr (Or.inl (by rw [hstored]; rfl)))) fun hmark => ?_
      rw [(h.of_failed_mark opts hmark).2.1] at hstored
      cases hstored
    · obtain ⟨-, hphase⟩ := idle_of_sockConnected opts hs
      have hattempt : (r.state.link.tasks (r.state.link.socks i).task).pc.attempting = true := by
        rw [h.single.live i hphase]
        rfl
      exact hroom (h.room (Or.inr (Or.inr ⟨_, hattempt⟩))) (by simp [State.mark])
  · rcases hlink.attempting_of (fun j ha => by
      subst ha
      exact (resume_rests opts (step_resume opts hs)).1) hk with
        ⟨hattempt, hother⟩ | ⟨created, rfl⟩ | ⟨htimer, created, rfl⟩
    · refine hroom (h.room (Or.inr (Or.inr ⟨k, hattempt⟩))) fun hmark => ?_
      obtain ⟨-, -, -, -, j, rfl, hj⟩ := h.of_failed_mark opts hmark
      exact hother (congrArg Action.resume (h.single.unique j k (attempting_of_failed hj) hattempt))
    · refine hroom ?_ (by simp [State.mark])
      rw [(h.unused hcalls).2]
      exact hmax
    · exact hroom (h.room (Or.inl htimer)) (by simp [State.mark])

theorem next (hmax : 0 < opts.maxReconnectAttempts) (h : Counts opts r) (hcalls : r.CallsOnce a)
    (hs : NodeTcp.step opts r.state a = some t) :
    Counts opts ⟨t, r.state.mark a :: r.log⟩ where
  begun := step_begun opts h.begun hs
  waiters := step_waiterInv opts h.waiters hs
  sound := (step_link opts hs).sound h.sound
  single := h.single_next opts hcalls hs
  unused := h.unused_next opts hs
  counter := by
    rw [failuresNoticed_cons t _ _ r.state]
    exact (step_attempts opts h.waiters hs).trans (congrArg (Mark.count · _) h.counter)
  pending := h.pending_next opts hs
  settled := h.settled_next opts hs
  room := h.room_next opts hmax hcalls hs
  le := by
    change t.reconnectAttempts ≤ opts.maxReconnectAttempts
    rw [step_attempts opts h.waiters hs]
    cases hmark : r.state.mark a with
    | noticed => exact Nat.zero_le _
    | failed => exact (h.of_failed_mark opts hmark).2.2.2.1
    | _ => exact h.le

/-- A step of the recorded client is one of the client. -/
theorem step_eq {r' : Recorded} (hs : r.step opts a = some r') :
    ∃ t, NodeTcp.step opts r.state a = some t ∧ r' = ⟨t, r.state.mark a :: r.log⟩ := by
  obtain ⟨t, ht, rfl⟩ := Option.map_eq_some_iff.mp hs
  exact ⟨t, ht, rfl⟩

theorem of_reachable (hmax : 0 < opts.maxReconnectAttempts) (h : Counts opts r) {r' : Recorded}
    (hreach : Reachable (step opts) CallsOnce r r') : Counts opts r' := by
  refine hreach.invariant (I := fun r => Counts opts r) h ?_
  intro r a r' h hcalls hs
  obtain ⟨t, ht, rfl⟩ := step_eq opts hs
  exact h.next opts hmax hcalls ht

theorem failures_le (h : Counts opts r) : r.failures ≤ opts.maxReconnectAttempts := by
  by_cases hconn : ∃ k, (r.state.tasks k).pc = .connected
  · obtain ⟨k, hk⟩ := hconn
    rw [h.pending k hk]
    exact Nat.zero_le _
  · rw [h.settled (not_exists.mp hconn)]
    exact h.le

/-- After the last failure nothing is left that may fail. -/
theorem exhausted (hmax : 0 < opts.maxReconnectAttempts) (h : Counts opts r)
    (hall : r.failures = opts.maxReconnectAttempts) :
    r.state.reconnectTimer = false ∧ r.state.socket = none ∧
      ∀ k, (r.state.tasks k).pc.attempting = false := by
  have hconn : ∀ k, (r.state.tasks k).pc ≠ .connected := fun k hk => by
    rw [h.pending k hk] at hall
    exact absurd hall (Nat.ne_of_lt hmax)
  have hfull : ¬ r.state.reconnectAttempts < opts.maxReconnectAttempts := by
    rw [← h.settled hconn, hall]
    exact Nat.lt_irrefl _
  refine ⟨?_, ?_, fun k => ?_⟩
  · exact eq_false_of_ne_true fun ht => hfull (h.room (Or.inl ht))
  · rcases Option.eq_none_or_eq_some r.state.socket with hnone | ⟨i, hi⟩
    · exact hnone
    · exact absurd (h.room (Or.inr (Or.inl (by rw [hi]; rfl)))) hfull
  · exact eq_false_of_ne_true fun hk => hfull (h.room (Or.inr (Or.inr ⟨k, hk⟩)))

/-- No attempt fails after the last one. -/
theorem exhausted_next (hmax : 0 < opts.maxReconnectAttempts) (h : Counts opts r)
    (hall : r.failures = opts.maxReconnectAttempts)
    (hs : NodeTcp.step opts r.state a = some t) :
    failures ⟨t, r.state.mark a :: r.log⟩ = opts.maxReconnectAttempts := by
  obtain ⟨-, -, hnone⟩ := h.exhausted opts hmax hall
  rw [failures_cons t _ _ r.state, if_neg, if_neg]
  · exact hall
  · intro hmark
    obtain ⟨k, -, hk⟩ := failed_of_mark hmark
    have hfalse := hnone k
    rw [hk] at hfalse
    cases hfalse
  · intro hmark
    obtain ⟨i, rfl⟩ := connected_of_mark hmark
    exact h.single.not_connecting hnone i (idle_of_sockConnected opts hs).2

/-- The last failure rejects what is queued. -/
theorem emptied (hmax : 0 < opts.maxReconnectAttempts) (h : Counts opts r) {k : ℕ}
    (hk : (r.state.tasks k).pc = .failed) (hs : NodeTcp.step opts r.state (.resume k) = some t)
    (hall : failures ⟨t, r.state.mark (.resume k) :: r.log⟩ = opts.maxReconnectAttempts) :
    t.offlineQueue = [] ∧
      ∀ w ∈ r.state.offlineQueue, ∃ e, (t.waiters w).outcomes = [.rejected e] := by
  have hmark : r.state.mark (.resume k) = .failed := congrArg Pc.mark hk
  obtain ⟨htimer, -, hconn, -⟩ := h.of_failed_mark opts hmark
  have hlast : r.state.reconnectAttempts + 1 = opts.maxReconnectAttempts := by
    rw [failures_cons t _ _ r.state, hmark] at hall
    rw [← h.settled hconn]
    exact hall
  have hidle : r.state.reconnecting = false := eq_false_of_ne_true fun hr => by
    have htrue : r.state.reconnectTimer = true := h.sound.timer hr
    rw [htimer] at htrue
    cases htrue
  have hrejected : ∀ (err : Err) (n : ℕ),
      ((rejectOfflineQueue err { r.state with socket := none, reconnectAttempts := n }).setPc k
        (.done none)).offlineQueue = [] ∧
      ∀ w ∈ r.state.offlineQueue, ∃ e,
        (((rejectOfflineQueue err { r.state with socket := none, reconnectAttempts := n }).setPc k
          (.done none)).waiters w).outcomes = [.rejected e] := by
    intro err n
    rw [rejectOfflineQueue_eq]
    refine ⟨rfl, fun w hw => ⟨err, ?_⟩⟩
    obtain ⟨-, hunsettled, -⟩ := h.waiters.queued w hw
    have hnil := (h.waiters.sound w).unsettled hunsettled
    simp [State.setPc, hw, Waiter.finish, Waiter.clearTimeout, Waiter.settle, hunsettled, hnil]
  have hresume := step_resume opts hs
  unfold resume at hresume
  rw [hk] at hresume
  cases hresume
  unfold connectFailed
  dsimp only
  split
  · next hretry =>
      simp only [Bool.and_eq_true, Bool.not_eq_true'] at hretry
      unfold scheduleReconnect
      rw [if_neg (by simp [hidle, hretry.2]), if_pos ⟨hmax, Nat.le_of_eq hlast.symm⟩]
      exact hrejected _ _
  · exact hrejected _ _

theorem delay (h : Counts opts r) (t : State) {d : ℚ}
    (hd : armedDelay opts b r.state a = some d) : r.state.reconnectTimer = false ∧
      d = min (b.baseBackoffMs * 2 ^ failuresNoticed ⟨t, r.state.mark a :: r.log⟩)
        b.maxBackoffMs ∧
        ((∀ k, (r.state.tasks k).pc ≠ .connected) →
          d = min (b.baseBackoffMs * 2 ^ failures ⟨t, r.state.mark a :: r.log⟩)
            b.maxBackoffMs) := by
  obtain ⟨-, -, -, hcount, hcause⟩ := armedDelay_some opts b hd
  have hnoticed : failuresNoticed ⟨t, r.state.mark a :: r.log⟩ =
      (r.state.mark a).count r.state.reconnectAttempts := by
    rw [failuresNoticed_cons t _ _ r.state]
    exact congrArg (Mark.count · _) h.counter.symm
  refine ⟨?_, ?_, fun hconn => ?_⟩
  · rcases hcause with ⟨hsocket, -⟩ | ⟨hmark, -⟩
    · refine eq_false_of_ne_true fun htimer => ?_
      have hnone : r.state.socket = none := (h.single.timer htimer).1
      rw [hnone] at hsocket
      cases hsocket
    · exact (h.of_failed_mark opts hmark).1
  · rw [hnoticed, hcount]
    rfl
  · have hfailures : failures ⟨t, r.state.mark a :: r.log⟩ =
        (r.state.mark a).count r.state.reconnectAttempts := by
      rw [failures_cons t _ _ r.state, ← h.settled hconn]
      rcases hcause with ⟨-, hmark⟩ | ⟨hmark, -⟩
      · rw [hmark]
        rfl
      · rw [hmark]
        rfl
    rw [hfailures, hcount]
    rfl

theorem bounded (hmax : 0 < opts.maxReconnectAttempts) (h : Counts opts r) :
    Bounded opts b r := by
  have hunarmed : ∀ {r : Recorded}, r.state.socket = none →
      (∀ k, (r.state.tasks k).pc.attempting = false) → ∀ a, armedDelay opts b r.state a = none := by
    intro r hsocket hnone a
    refine Option.eq_none_iff_forall_ne_some.mpr fun d hd => ?_
    obtain ⟨-, -, -, -, ⟨hsome, -⟩ | ⟨-, k, -, hk⟩⟩ := armedDelay_some opts b hd
    · rw [hsocket] at hsome
      cases hsome
    · have hfalse := hnone k
      rw [hk] at hfalse
      cases hfalse
  refine ⟨fun ht => (h.single.timer ht).2, h.single.unique, h.failures_le opts,
    fun hall r' hreach => ?_, fun k r' hk hs hall => ?_, fun a r' hcalls hs hoff hon => ?_,
    fun a r' d hcalls hs hd => ?_, fun hdestroyed r' hreach => ?_⟩
  · have hend : Counts opts r' ∧ r'.failures = opts.maxReconnectAttempts := by
      refine hreach.invariant
        (I := fun r => Counts opts r ∧ r.failures = opts.maxReconnectAttempts) ⟨h, hall⟩ ?_
      intro r a r' ⟨h, hall⟩ hcalls hs
      obtain ⟨t, ht, rfl⟩ := step_eq opts hs
      exact ⟨h.next opts hmax hcalls ht, h.exhausted_next opts hmax hall ht⟩
    obtain ⟨htimer, hsocket, hnone⟩ := hend.1.exhausted opts hmax hend.2
    exact ⟨htimer, hunarmed hsocket hnone⟩
  · obtain ⟨t, ht, rfl⟩ := step_eq opts hs
    exact h.emptied opts hmax hk ht hall
  · obtain ⟨t, ht, rfl⟩ := step_eq opts hs
    rcases step_timer opts b h.waiters ht hon with htimer | harmed
    · rw [hoff] at htimer
      cases htimer
    · exact harmed
  · obtain ⟨t, ht, rfl⟩ := step_eq opts hs
    exact h.delay opts b t hd
  · have hend : Counts opts r' ∧ r'.state.destroyed = true := by
      refine hreach.invariant (I := fun r => Counts opts r ∧ r.state.destroyed = true)
        ⟨h, hdestroyed⟩ ?_
      intro r a r' ⟨h, hd⟩ hcalls hs
      obtain ⟨t, ht, rfl⟩ := step_eq opts hs
      exact ⟨h.next opts hmax hcalls ht, (step_link opts ht).destroyed hd⟩
    refine ⟨?_, fun a => Option.eq_none_iff_forall_ne_some.mpr fun d hd => ?_⟩
    · refine eq_false_of_ne_true fun ht => ?_
      have hfalse : r'.state.destroyed = false := hend.1.sound.alive ht
      rw [hend.2] at hfalse
      cases hfalse
    · have hfalse := (armedDelay_some opts b hd).2.1
      rw [hend.2] at hfalse
      cases hfalse

end Counts

end Counting

/-- If `connect` is called once, a client that gives up after a number of failures has one timer or
one attempt at a time, lets no more attempts than that fail between two connections, arms the timer
with the delay that the number of the failures gives, rejects what is queued with the last one, and
arms no timer after that or after `close`. -/
theorem reconnection_bounded (hmax : 0 < opts.maxReconnectAttempts) {r : Recorded}
    (h : Reachable (step opts) CallsOnce init r) : Bounded opts b r :=
  ((counts_init opts).of_reachable opts hmax h).bounded opts b hmax

/-- The options of a client that gives up after two failures. -/
def twoAttempts : Options :=
  { Options.defaults with autoReconnect := true, maxReconnectAttempts := 2 }

/-- A client whose first attempt fails waits for twice the base delay, and gives up when the second
one fails as well. -/
theorem reconnection_bounded_twice :
    ∃ r s, exec (step twoAttempts) CallsOnce init
        [.connect true, .sockError 0 (.error "connect ECONNREFUSED 127.0.0.1:7777"), .resume 0] =
          some r ∧
      exec (step twoAttempts) CallsOnce r
        [.sockClose 0, .request .ping, .reconnectTimer true,
          .sockError 1 (.error "connect ECONNREFUSED 127.0.0.1:7777"), .resume 1] = some s ∧
      r.failures = 1 ∧ s.failures = 2 ∧ Bounded twoAttempts ⟨200, 30000⟩ r ∧
        s.state.reconnectTimer = false := by
  obtain ⟨r, s, hr, hs, hone, htwo⟩ : ∃ r s, exec (step twoAttempts) CallsOnce init
        [.connect true, .sockError 0 (.error "connect ECONNREFUSED 127.0.0.1:7777"), .resume 0] =
          some r ∧
      exec (step twoAttempts) CallsOnce r
        [.sockClose 0, .request .ping, .reconnectTimer true,
          .sockError 1 (.error "connect ECONNREFUSED 127.0.0.1:7777"), .resume 1] = some s ∧
      r.failures = 1 ∧ s.failures = 2 := ⟨_, _, rfl, rfl, rfl, rfl⟩
  have hrun := (run_of_exec hr).append (run_of_exec hs)
  have hbounded := reconnection_bounded twoAttempts ⟨200, 30000⟩ (by decide) ⟨_, run_of_exec hr⟩
  have hlast := reconnection_bounded twoAttempts ⟨200, 30000⟩ (by decide) ⟨_, hrun⟩
  exact ⟨r, s, hr, hs, hone, htwo, hbounded, (hlast.exhausted htwo s ⟨_, .nil s⟩).1⟩

end Recorded

end NodeTcp

end DittoClient
