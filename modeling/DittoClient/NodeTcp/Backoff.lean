import DittoClient.NodeTcp.Attempts
import DittoClient.NodeTcp.Connecting
import Mathlib.Algebra.Order.Ring.Rat

/-!
# The counter and the timer of reconnection

A client that reconnects waits longer before each attempt. `armedDelay` is the delay with which a
step sets the timer, which depends on the number of failures that `reconnectAttempts` counts. A step
resets the counter when a run of `doConnect` goes on connected, and increases it when one deals with
its failure.
-/

namespace DittoClient

namespace NodeTcp

open DittoClient.Wire
open DittoClient.Transition

/-- The options for the delays. -/
structure Backoff where
  baseBackoffMs : ℚ
  maxBackoffMs : ℚ

def Backoff.delay (b : Backoff) (reconnectAttempts : ℕ) : ℚ :=
  min (b.baseBackoffMs * 2 ^ reconnectAttempts) b.maxBackoffMs

variable (opts : Options) (b : Backoff)

/-- The delay with which `scheduleReconnect` sets the timer, if it sets it. -/
def scheduleReconnectDelay (s : State) : Option ℚ :=
  if s.reconnecting || s.destroyed then none
  else if 0 < opts.maxReconnectAttempts ∧ opts.maxReconnectAttempts ≤ s.reconnectAttempts then none
  else some (b.delay s.reconnectAttempts)

/-- The delay with which a step sets the timer, if it sets it: when the stored socket is lost, or
when a run of `doConnect` could not connect. -/
def armedDelay (s : State) : Action → Option ℚ
  | .resume k =>
      if (s.tasks k).pc = .failed ∧ opts.autoReconnect ∧ ¬ s.destroyed then
        scheduleReconnectDelay opts b { s with reconnectAttempts := s.reconnectAttempts + 1 }
      else none
  | .sockError _ _ =>
      if s.socket.isSome ∧ opts.autoReconnect ∧ ¬ s.destroyed then scheduleReconnectDelay opts b s
      else none
  | .sockClose _ =>
      if s.socket.isSome ∧ opts.autoReconnect ∧ ¬ s.destroyed then scheduleReconnectDelay opts b s
      else none
  | _ => none

/-- What happens to the attempts to connect in a step. -/
inductive Mark
  | called
  | connected
  | noticed
  | failed
  | other
  deriving DecidableEq, Repr

/-- What the resumption of a run of `doConnect` does to the attempts. -/
def Pc.mark : Pc → Mark
  | .connected => .noticed
  | .failed => .failed
  | _ => .other

def State.mark (s : State) : Action → Mark
  | .connect _ => .called
  | .sockConnected _ => .connected
  | .resume k => (s.tasks k).pc.mark
  | _ => .other

section Counter

variable {s t : State}

theorem attempts_rejectOfflineQueue (err : Err) (s : State) :
    (rejectOfflineQueue err s).reconnectAttempts = s.reconnectAttempts := by
  rw [rejectOfflineQueue_eq]

theorem attempts_scheduleReconnect (s : State) :
    (scheduleReconnect opts s).reconnectAttempts = s.reconnectAttempts := by
  unfold scheduleReconnect
  split
  · rfl
  · split
    · exact attempts_rejectOfflineQueue _ s
    · rfl

theorem attempts_handleDisconnect (h : WaiterInv s) (err : Err) :
    (handleDisconnect opts err s).reconnectAttempts = s.reconnectAttempts := by
  rw [handleDisconnect_eq opts h.inflight]
  split
  · rfl
  · split
    · rw [attempts_scheduleReconnect]
      rfl
    · rw [attempts_rejectOfflineQueue]
      rfl

theorem attempts_close (s : State) : (close s).reconnectAttempts = s.reconnectAttempts := by
  have hreject := attempts_rejectOfflineQueue (.error "Client closed.")
    (cancelReconnectTimer { s with destroyed := true })
  unfold close
  dsimp only
  split
  · exact hreject
  · exact hreject

theorem attempts_connect (created : Bool) (s : State) :
    (connect created s).reconnectAttempts = s.reconnectAttempts := by
  unfold connect doConnect
  split
  · rfl
  · split
    · rfl
    · cases created with
      | true => rfl
      | false => rfl

theorem attempts_writeInflight (req : Request) (w : ℕ) (s : State) :
    (writeInflight opts req w s).1.reconnectAttempts = s.reconnectAttempts := by
  rw [writeInflight_eq]

theorem attempts_send (req : Request) (s : State) :
    (send opts req s).reconnectAttempts = s.reconnectAttempts := by
  unfold send
  split
  · rfl
  · split
    · split
      · rfl
      · rfl
    · exact attempts_writeInflight opts _ _ _

theorem attempts_watch (key : String) (ns : Option String) (callback : ℕ) (s : State) :
    (watch opts key ns callback s).reconnectAttempts = s.reconnectAttempts := by
  unfold watch setCallback
  dsimp only
  split
  · exact attempts_send opts _ _
  · exact attempts_send opts _ _

theorem attempts_unwatch (key : String) (ns : Option String) (s : State) :
    (unwatch opts key ns s).reconnectAttempts = s.reconnectAttempts := by
  unfold unwatch
  dsimp only
  split
  · rfl
  · exact attempts_send opts _ _

theorem attempts_reRegisterWatches (k pos : ℕ) (s : State) :
    (reRegisterWatches opts k pos s).reconnectAttempts = s.reconnectAttempts := by
  unfold reRegisterWatches
  split
  · exact attempts_writeInflight opts _ _ _
  · rfl

theorem attempts_connected (k : ℕ) (s : State) : (connected opts k s).reconnectAttempts = 0 := by
  unfold connected
  dsimp only
  split
  · exact attempts_reRegisterWatches opts _ _ _
  · exact attempts_writeInflight opts _ _ _

theorem attempts_flushOfflineQueue (s : State) :
    (flushOfflineQueue opts s).reconnectAttempts = s.reconnectAttempts := by
  have hone : ∀ (w : ℕ) (s : State),
      (flushWaiter opts s w).reconnectAttempts = s.reconnectAttempts := by
    intro w s
    unfold flushWaiter
    split
    · rfl
    · exact attempts_writeInflight opts _ _ _
  have hall : ∀ (ws : List ℕ) (s : State),
      (ws.foldl (flushWaiter opts) s).reconnectAttempts = s.reconnectAttempts := by
    intro ws
    induction ws with
    | nil => exact fun _ => rfl
    | cons w ws ih => exact fun s => (ih _).trans (hone w s)
  unfold flushOfflineQueue
  split
  · rfl
  · exact hall _ _

theorem attempts_connectFailed (s : State) :
    (connectFailed opts s).reconnectAttempts = s.reconnectAttempts + 1 := by
  unfold connectFailed
  dsimp only
  split
  · exact attempts_scheduleReconnect opts _
  · exact attempts_rejectOfflineQueue _ _

theorem attempts_handlePayload (i : ℕ) (payload : List UInt8) (s : State) :
    (handlePayload i payload s).reconnectAttempts = s.reconnectAttempts := by
  have hshift : ∀ o, (shiftWaiter i payload o s).reconnectAttempts = s.reconnectAttempts := by
    intro o
    unfold shiftWaiter
    split
    · rfl
    · rfl
  unfold handlePayload
  split
  · exact hshift _
  · rfl
  · exact hshift _

theorem attempts_onDataRound (i : ℕ) (s : State) :
    (onDataRound opts i s).reconnectAttempts = s.reconnectAttempts := by
  unfold onDataRound
  dsimp only
  split
  · rfl
  · generalize Err.error _ = e
    split
    · split
      · rfl
      · rfl
    · split
      · rfl
      · exact attempts_handlePayload _ _ _

theorem attempts_settleConnection (i : ℕ) (pc : Pc) (s : State) :
    (settleConnection i pc s).reconnectAttempts = s.reconnectAttempts := by
  unfold settleConnection
  split
  · rfl
  · rfl

/-- The counter after a step. -/
def Mark.count (n : ℕ) : Mark → ℕ
  | .noticed => 0
  | .failed => n + 1
  | _ => n

theorem resume_attempts {k : ℕ} (hr : resume opts k s = some t) :
    t.reconnectAttempts = (s.mark (.resume k)).count s.reconnectAttempts := by
  change _ = ((s.tasks k).pc.mark).count s.reconnectAttempts
  unfold resume at hr
  split at hr
  · cases hr
  · next hpc =>
      cases hr
      rw [attempts_connected, hpc]
      rfl
  · next hpc =>
      cases hr
      rw [hpc]
      exact attempts_connectFailed opts s
  · next w hpc =>
      rw [hpc]
      split at hr
      · cases hr
      · cases hr
        rfl
      · cases hr
        unfold authenticated
        split
        · exact attempts_reRegisterWatches opts _ _ _
        · exact attempts_close s
        · exact attempts_close s
  · next hpc =>
      cases hr
      rw [hpc]
      rfl
  · next hpc =>
      cases hr
      rw [hpc]
      exact attempts_rejectOfflineQueue _ s
  · next pos w hpc =>
      rw [hpc]
      split at hr
      · cases hr
      · cases hr
        rfl
      · cases hr
        exact attempts_reRegisterWatches opts _ _ _
  · next hpc =>
      cases hr
      rw [hpc]
      exact attempts_flushOfflineQueue opts s
  · cases hr

theorem step_attempts {a : Action} (h : WaiterInv s) (hs : step opts s a = some t) :
    t.reconnectAttempts = (s.mark a).count s.reconnectAttempts := by
  have hphase : ∀ (i : ℕ) (f : Sock → Sock), WaiterInv (s.updateSock i f) := fun i f =>
    h.settles (State.Settles.of_eq rfl)
  cases a with
  | connect created =>
      cases hs
      exact attempts_connect created s
  | close =>
      cases hs
      exact attempts_close s
  | request req =>
      simp only [step] at hs
      split at hs
      · split at hs
        · cases hs
          exact attempts_send opts req s
        · cases hs
          rfl
      · cases hs
  | watch key ns callback =>
      simp only [step] at hs
      split at hs
      · cases hs
        exact attempts_watch opts key ns callback s
      · cases hs
        rfl
  | unwatch key ns =>
      simp only [step] at hs
      split at hs
      · cases hs
        exact attempts_unwatch opts key ns s
      · cases hs
        rfl
  | resume k => exact resume_attempts opts (step_resume opts hs)
  | sockError i e =>
      simp only [step, Option.ite_none_right_eq_some, Option.some.injEq] at hs
      rw [← hs.2, onError, attempts_settleConnection, attempts_handleDisconnect opts (hphase i _)]
      rfl
  | sockClose i =>
      simp only [step, Option.ite_none_right_eq_some, Option.some.injEq] at hs
      rw [← hs.2, onClose, attempts_handleDisconnect opts (hphase i _)]
      rfl
  | sockConnected i =>
      simp only [step, Option.ite_none_right_eq_some, Option.some.injEq] at hs
      rw [← hs.2, onConnected, attempts_settleConnection]
      rfl
  | round =>
      simp only [step, Option.map_eq_some_iff] at hs
      obtain ⟨i, -, rfl⟩ := hs
      exact attempts_onDataRound opts i s
  | reconnectTimer created =>
      simp only [step, Option.ite_none_right_eq_some, Option.some.injEq] at hs
      rw [← hs.2]
      unfold doConnect
      split
      · rfl
      · split
        · rfl
        · rfl
  | _ =>
      simp only [step, Option.ite_none_right_eq_some, Option.some.injEq] at hs
      rw [← hs.2]
      rfl

end Counter

section Timer

variable {s t : State}

theorem scheduleReconnect_timer (h : (scheduleReconnect opts s).reconnectTimer = true) :
    s.reconnectTimer = true ∨ (scheduleReconnectDelay opts b s).isSome = true := by
  unfold scheduleReconnect at h
  unfold scheduleReconnectDelay
  split at h
  · exact Or.inl h
  · next hidle =>
      rw [if_neg hidle]
      split at h
      · rw [rejectOfflineQueue_eq] at h
        exact Or.inl h
      · next hopen =>
          rw [if_neg hopen]
          exact Or.inr rfl

theorem handleDisconnect_timer (hw : WaiterInv s) {err : Err}
    (h : (handleDisconnect opts err s).reconnectTimer = true) :
    s.reconnectTimer = true ∨ (s.socket.isSome = true ∧ opts.autoReconnect = true ∧
      ¬ s.destroyed = true) ∧ (scheduleReconnectDelay opts b s).isSome = true := by
  rw [handleDisconnect_eq opts hw.inflight] at h
  split at h
  · exact Or.inl h
  · next hsocket =>
      split at h
      · next hretry =>
          simp only [Bool.and_eq_true, Bool.not_eq_true'] at hretry
          rcases scheduleReconnect_timer opts b h with ht | ht
          · exact Or.inl ht
          · refine Or.inr ⟨⟨?_, hretry.1, by simp [hretry.2]⟩, ht⟩
            simpa [Option.isSome_iff_ne_none] using hsocket
      · rw [rejectOfflineQueue_eq] at h
        exact Or.inl h

/-- A timer that is pending after the resumption of a run was pending before, or was set. -/
theorem resume_timer {k : ℕ} (hr : resume opts k s = some t) (h : t.reconnectTimer = true) :
    s.reconnectTimer = true ∨ (armedDelay opts b s (.resume k)).isSome = true := by
  have hset : ∀ {pc : Pc}, t.link = s.link.setPc k pc →
      s.reconnectTimer = true ∨ (armedDelay opts b s (.resume k)).isSome = true :=
    fun hl => Or.inl ((congrArg Link.reconnectTimer hl).symm.trans h)
  have hclosed : ∀ {pc : Pc}, t.link = s.link.closed.setPc k pc →
      s.reconnectTimer = true ∨ (armedDelay opts b s (.resume k)).isSome = true := by
    intro pc hl
    have hfalse := (congrArg Link.reconnectTimer hl).symm.trans h
    cases hfalse
  unfold resume at hr
  split at hr
  · cases hr
  · cases hr
    obtain ⟨pc, -, -, hlink⟩ := link_connected opts k s
    exact hset hlink
  · next hpc =>
      cases hr
      have hfailed : (connectFailed opts s).reconnectTimer = true := h
      unfold connectFailed at hfailed
      dsimp only at hfailed
      split at hfailed
      · next hretry =>
          simp only [Bool.and_eq_true, Bool.not_eq_true'] at hretry
          simp only [armedDelay]
          rw [if_pos ⟨hpc, hretry.1, by simp [hretry.2]⟩]
          exact scheduleReconnect_timer opts b hfailed
      · rw [rejectOfflineQueue_eq] at hfailed
        exact Or.inl hfailed
  · split at hr
    · cases hr
    · cases hr
      exact hset rfl
    · next r _ =>
        cases hr
        have hauth : (∃ pc, (authenticated opts k r s).link = s.link.setPc k pc) ∨
            ∃ pc, (authenticated opts k r s).link = s.link.closed.setPc k pc := by
          unfold authenticated
          split
          · obtain ⟨pc, -, hlink⟩ := link_reRegisterWatches opts k 0 s
            exact Or.inl ⟨pc, hlink⟩
          · exact Or.inr ⟨_, by rw [link_setPc, link_close]⟩
          · exact Or.inr ⟨_, by rw [link_setPc, link_close]⟩
        rcases hauth with ⟨pc, hlink⟩ | ⟨pc, hlink⟩
        · exact hset hlink
        · exact hclosed hlink
  · cases hr
    exact hset rfl
  · cases hr
    have hreject : (rejectOfflineQueue _ s).reconnectTimer = true := h
    rw [rejectOfflineQueue_eq] at hreject
    exact Or.inl hreject
  · next pos w _ =>
      split at hr
      · cases hr
      · cases hr
        exact hset rfl
      · cases hr
        obtain ⟨pc, -, hlink⟩ := link_reRegisterWatches opts k pos s
        exact hset hlink
  · cases hr
    have hlink : ((flushOfflineQueue opts s).setPc k (.done none)).link =
        s.link.setPc k (.done none) := by
      rw [link_setPc, link_flushOfflineQueue]
    exact hset hlink
  · cases hr

/-- A timer is set by the loss of a connection or by the resumption of a run. -/
theorem Link.Step.timer_kept {l l' : Link} {a : Action} (hs : Link.Step l a l')
    (h : l'.reconnectTimer = true) :
    l.reconnectTimer = true ∨ a.ends = true ∨ ∃ k, a = .resume k := by
  cases hs with
  | same => exact Or.inl h
  | connect created _ _ =>
      rw [Link.dialed_reconnectTimer] at h
      exact Or.inl h
  | close => cases h
  | goOn _ _ => exact Or.inl h
  | failed _ _ => exact Or.inr (Or.inr ⟨_, rfl⟩)
  | refused _ _ => cases h
  | sockConnected _ =>
      rw [Link.settled_eq] at h
      exact Or.inl h
  | sockError _ _ => exact Or.inr (Or.inl rfl)
  | sockClose _ _ => exact Or.inr (Or.inl rfl)
  | destroySock a e _ => exact Or.inl h
  | reconnectTimer created _ =>
      rw [Link.dialed_reconnectTimer] at h
      cases h

/-- A timer that is pending after a step was pending before, or was set with a delay. -/
theorem step_timer {a : Action} (hw : WaiterInv s) (hs : step opts s a = some t)
    (h : t.reconnectTimer = true) :
    s.reconnectTimer = true ∨ (armedDelay opts b s a).isSome = true := by
  have hlink := step_link opts hs
  have hlost : ∀ {i : ℕ} {f : Sock → Sock} {e : Err},
      (handleDisconnect opts e (s.updateSock i f)).reconnectTimer = true →
        s.reconnectTimer = true ∨ (s.socket.isSome = true ∧ opts.autoReconnect = true ∧
          ¬ s.destroyed = true) ∧ (scheduleReconnectDelay opts b s).isSome = true :=
    fun {i f e} ht => handleDisconnect_timer opts b (s := s.updateSock i f) (hw.settles (State.Settles.of_eq rfl)) ht
  cases a with
  | resume k => exact resume_timer opts b (step_resume opts hs) h
  | sockError i e =>
      simp only [step, Option.ite_none_right_eq_some, Option.some.injEq] at hs
      obtain ⟨-, rfl⟩ := hs
      have ht : (handleDisconnect opts e
          (s.updateSock i fun k => { k with phase := .errored })).reconnectTimer = true := by
        have hsettled := congrArg Link.reconnectTimer (link_settleConnection i .failed
          (handleDisconnect opts e (s.updateSock i fun k => { k with phase := .errored })))
        rw [Link.settled_eq] at hsettled
        exact hsettled.symm.trans h
      simp only [armedDelay]
      rcases hlost ht with ht | ⟨hguard, hd⟩
      · exact Or.inl ht
      · rw [if_pos hguard]
        exact Or.inr hd
  | sockClose i =>
      simp only [step, Option.ite_none_right_eq_some, Option.some.injEq] at hs
      obtain ⟨-, rfl⟩ := hs
      simp only [armedDelay]
      rcases hlost h with ht | ⟨hguard, hd⟩
      · exact Or.inl ht
      · rw [if_pos hguard]
        exact Or.inr hd
  | _ =>
      refine Or.inl ((hlink.timer_kept h).resolve_right ?_)
      rintro (hends | ⟨k, hk⟩)
      · cases hends
      · cases hk

/-- What a delay says about the step that sets the timer. -/
theorem armedDelay_some {a : Action} {d : ℚ} (h : armedDelay opts b s a = some d) :
    s.reconnecting = false ∧ s.destroyed = false ∧
      (0 < opts.maxReconnectAttempts →
        (s.mark a).count s.reconnectAttempts < opts.maxReconnectAttempts) ∧
      d = b.delay ((s.mark a).count s.reconnectAttempts) ∧
      (s.socket.isSome = true ∧ s.mark a = .other ∨ s.mark a = .failed ∧
        ∃ k, a = .resume k ∧ (s.tasks k).pc = .failed) := by
  have hdelay : ∀ {u : State}, scheduleReconnectDelay opts b u = some d → u.reconnecting = false ∧
      u.destroyed = false ∧ (0 < opts.maxReconnectAttempts →
        u.reconnectAttempts < opts.maxReconnectAttempts) ∧ d = b.delay u.reconnectAttempts := by
    intro u hu
    unfold scheduleReconnectDelay at hu
    split at hu
    · cases hu
    · next hidle =>
        simp only [Bool.or_eq_true, not_or, Bool.not_eq_true] at hidle
        split at hu
        · cases hu
        · next hopen =>
            cases hu
            exact ⟨hidle.1, hidle.2, fun hmax => by omega, rfl⟩
  cases a with
  | resume k =>
      simp only [armedDelay] at h
      split at h
      · next hguard =>
          obtain ⟨hreconnecting, hdestroyed, hroom, hd⟩ := hdelay h
          have hmark : s.mark (.resume k) = .failed := congrArg Pc.mark hguard.1
          rw [hmark]
          exact ⟨hreconnecting, hdestroyed, hroom, hd, Or.inr ⟨rfl, k, rfl, hguard.1⟩⟩
      · cases h
  | sockError i e =>
      simp only [armedDelay] at h
      split at h
      · next hguard =>
          obtain ⟨hreconnecting, hdestroyed, hroom, hd⟩ := hdelay h
          exact ⟨hreconnecting, hdestroyed, hroom, hd, Or.inl ⟨hguard.1, rfl⟩⟩
      · cases h
  | sockClose i =>
      simp only [armedDelay] at h
      split at h
      · next hguard =>
          obtain ⟨hreconnecting, hdestroyed, hroom, hd⟩ := hdelay h
          exact ⟨hreconnecting, hdestroyed, hroom, hd, Or.inl ⟨hguard.1, rfl⟩⟩
      · cases h
  | _ => cases h

end Timer

end NodeTcp

end DittoClient
