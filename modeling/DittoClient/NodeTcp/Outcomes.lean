import DittoClient.NodeTcp.Chunks

/-!
# What a waiter is given

A waiter is given what a frame holds when it is shifted for this frame, and otherwise an error: by
its timeout, when the connection is lost while it is in flight, or when the queue is rejected while
it is queued. `Cause` lists these cases for one step, with the texts of the errors.
-/

namespace DittoClient

namespace NodeTcp

open DittoClient.Wire
open DittoClient.Transition

/-- What a waiter is settled with for a payload. -/
def settlementOf (payload : List UInt8) : Settlement :=
  match decodeResponse payload with
  | .error e => .rejected (errorOf e)
  | .ok r => .resolved r

/-- The error that ends a connection. -/
def Action.loss : Action → Option Err
  | .sockError _ e => some e
  | .sockClose _ => some (.error "Connection closed by server.")
  | _ => none

theorem Action.ends_of_loss {a : Action} {e : Err} (h : a.loss = some e) : a.ends = true := by
  cases a <;> first | rfl | cases h

variable (opts : Options)

def timeoutErr : Err :=
  .error s!"Request timeout after {opts.requestTimeoutMs}ms"

def circuitErr (attempts : ℕ) : Err :=
  .error (s!"Circuit open: {attempts} reconnect attempts " ++
    s!"failed for {opts.host}:{opts.port}")

def failedErr : Err :=
  .error s!"Failed to connect to {opts.host}:{opts.port}"

/-- Whether the client connects again when it has lost its connection, or could not connect. -/
def State.returns (s : State) : Bool :=
  opts.autoReconnect && !s.destroyed

/-- The number of attempts to connect that have failed when the step sees to the next one. -/
def State.failures (s : State) : Action → Option ℕ
  | .resume t => if (s.tasks t).pc = .failed then some (s.reconnectAttempts + 1) else none
  | a => if a.loss.isSome = true ∧ s.socket.isSome = true then some s.reconnectAttempts else none

/-- No attempt is left when the step sees to the next one. -/
def State.Exhausts (s : State) (a : Action) (attempts : ℕ) : Prop :=
  s.failures a = some attempts ∧ s.returns opts = true ∧ s.reconnecting = false ∧
    0 < opts.maxReconnectAttempts ∧ opts.maxReconnectAttempts ≤ attempts

/-- The errors that the queue is rejected with. -/
inductive Drains (s : State) : Action → Err → Prop
  | closed (a : Action) : Drains s a (.error "Client closed.")
  | exhausted {a : Action} {attempts : ℕ} (h : s.Exhausts opts a attempts) :
      Drains s a (circuitErr opts attempts)
  | failed (a : Action) (h : s.returns opts = false) : Drains s a (failedErr opts)
  | lost {a : Action} {e : Err} (h : a.loss = some e) (hends : s.returns opts = false) :
      Drains s a e
  | refused {t : ℕ} {e : Err} (hpc : (s.tasks t).pc = .authClosing e) : Drains s (.resume t) e

/-- Why a waiter is given something in a step. -/
inductive Cause (s : State) : Action → ℕ → Settlement → Prop
  | timeout (w : ℕ) : Cause s (.requestTimeout w) w (.rejected (timeoutErr opts))
  | replied {i w : ℕ} {ws : List ℕ} {payload rest : List UInt8} (hparsing : s.parsing = some i)
      (hin : s.inflight = w :: ws)
      (hcut : cutFrame opts.maxFrameBytes s.recvBuf = some (payload, rest))
      (hreply : ∀ name value version, decodeResponse payload ≠ .ok (.watchEvent name value version)) :
      Cause s .round w (settlementOf payload)
  | lost {a : Action} {w : ℕ} {e : Err} (h : a.loss = some e) (hsocket : s.socket.isSome = true)
      (hin : w ∈ s.inflight) : Cause s a w (.rejected (lostErr e))
  | drained {a : Action} {w : ℕ} {e : Err} (hq : w ∈ s.offlineQueue) (he : Drains opts s a e) :
      Cause s a w (.rejected e)

/-- The waiters of `s` have been given nothing more in `t`, but what `P` says to those that were
not settled. -/
def State.Awards (s t : State) (P : ℕ → Settlement → Prop) : Prop :=
  ∀ w < s.nextWaiter, (t.waiters w).outcomes = (s.waiters w).outcomes ∨
    (s.waiters w).settled = false ∧ ∃ o, P w o ∧ (t.waiters w).outcomes = [o]

section Awards

variable {s t u : State} {P Q : ℕ → Settlement → Prop}

theorem State.Awards.of_eq (h : ∀ w < s.nextWaiter, (t.waiters w).outcomes =
    (s.waiters w).outcomes) : s.Awards t P :=
  fun w hw => Or.inl (h w hw)

theorem State.Awards.mono (h : s.Awards t P) (hPQ : ∀ w o, P w o → Q w o) : s.Awards t Q :=
  fun w hw => (h w hw).imp_right fun ⟨hs, o, ho, hout⟩ => ⟨hs, o, hPQ w o ho, hout⟩

theorem Waiter.finish_outcomes {x : Waiter} (h : x.Sound) (o : Settlement) :
    (x.finish o).outcomes = x.outcomes ∨ x.settled = false ∧ (x.finish o).outcomes = [o] := by
  unfold finish settle
  split
  · exact Or.inl rfl
  · next hsettled =>
      have hopen : x.settled = false := by simpa [clearTimeout] using hsettled
      refine Or.inr ⟨hopen, ?_⟩
      have hnil : x.clearTimeout.outcomes = [] := h.unsettled hopen
      simp [hnil]

/-- A waiter that was given something is settled, so that it is given nothing more. -/
theorem State.Awards.trans (hs : ∀ w, (s.waiters w).Sound) (ht : ∀ w, (t.waiters w).Sound)
    (hnext : t.nextWaiter = s.nextWaiter) (h : s.Awards t P) (h' : t.Awards u P) :
    s.Awards u P := by
  intro w hw
  rcases h' w (hnext ▸ hw) with hsame | ⟨hopen, o, ho, hout⟩
  · rw [hsame]
    exact h w hw
  · have hnil := (ht w).unsettled hopen
    rcases h w hw with hold | ⟨-, o', -, hold⟩
    · refine Or.inr ⟨?_, o, ho, hout⟩
      cases hsettled : (s.waiters w).settled with
      | false => rfl
      | true => exact absurd (hold.symm.trans hnil) ((hs w).answered hsettled)
    · rw [hnil] at hold
      cases hold

theorem awards_rejectOfflineQueue (hs : ∀ w, (s.waiters w).Sound) {e : Err}
    (he : ∀ w ∈ s.offlineQueue, P w (.rejected e)) : s.Awards (rejectOfflineQueue e s) P := by
  intro w _
  rw [rejectOfflineQueue_eq]
  dsimp only
  split
  · next hq =>
      exact (Waiter.finish_outcomes (hs w) _).imp_right fun ⟨hopen, hout⟩ =>
        ⟨hopen, _, he w hq, hout⟩
  · exact Or.inl rfl

theorem awards_scheduleReconnect (hs : ∀ w, (s.waiters w).Sound)
    (he : s.reconnecting = false → 0 < opts.maxReconnectAttempts →
      opts.maxReconnectAttempts ≤ s.reconnectAttempts →
        ∀ w ∈ s.offlineQueue, P w (.rejected (circuitErr opts s.reconnectAttempts))) :
    s.Awards (scheduleReconnect opts s) P := by
  unfold scheduleReconnect
  split
  · exact .of_eq fun _ _ => rfl
  · next hidle =>
      have hreconnecting : s.reconnecting = false := by
        cases h : s.reconnecting with
        | false => rfl
        | true => simp [h] at hidle
      split
      · next hmax => exact awards_rejectOfflineQueue hs (he hreconnecting hmax.1 hmax.2)
      · exact .of_eq fun _ _ => rfl

theorem awards_disconnected (hs : ∀ w, (s.waiters w).Sound) {e : Err}
    (he : ∀ w ∈ s.inflight, P w (.rejected (lostErr e))) : s.Awards (disconnected e s) P := by
  intro w _
  dsimp only [disconnected]
  split
  · next hin =>
      exact (Waiter.finish_outcomes (hs w) _).imp_right fun ⟨hopen, hout⟩ =>
        ⟨hopen, _, he w hin, hout⟩
  · exact Or.inl rfl

theorem awards_close (hs : ∀ w, (s.waiters w).Sound)
    (he : ∀ w ∈ s.offlineQueue, P w (.rejected (.error "Client closed."))) :
    s.Awards (close s) P := by
  have hreject : s.Awards (rejectOfflineQueue (.error "Client closed.")
      (cancelReconnectTimer { s with destroyed := true })) P :=
    awards_rejectOfflineQueue (s := cancelReconnectTimer { s with destroyed := true }) hs he
  unfold close
  dsimp only
  split
  · exact hreject
  · exact hreject

/-- When the connection is lost, the waiters in flight are told so, and those in the queue are
rejected if there is no way back. -/
theorem awards_handleDisconnect (h : WaiterInv s) {e : Err}
    (hlost : s.socket.isSome = true → ∀ w ∈ s.inflight, P w (.rejected (lostErr e)))
    (hcircuit : s.socket.isSome = true → s.returns opts = true → s.reconnecting = false →
      0 < opts.maxReconnectAttempts → opts.maxReconnectAttempts ≤ s.reconnectAttempts →
        ∀ w ∈ s.offlineQueue, P w (.rejected (circuitErr opts s.reconnectAttempts)))
    (hqueue : s.returns opts = false → ∀ w ∈ s.offlineQueue, P w (.rejected e)) :
    s.Awards (handleDisconnect opts e s) P := by
  rw [handleDisconnect_eq opts h.inflight]
  split
  · exact .of_eq fun _ _ => rfl
  · next hsome =>
      have hsocket : s.socket.isSome = true := by
        simpa [Option.isSome_iff_ne_none] using hsome
      have hinv : WaiterInv (disconnected e s) := h.settles (disconnected_settles h e)
      have hfirst := awards_disconnected h.sound (hlost hsocket)
      split
      · next hreturns =>
          exact hfirst.trans h.sound hinv.sound rfl
            (awards_scheduleReconnect opts hinv.sound (hcircuit hsocket hreturns))
      · next hends =>
          exact hfirst.trans h.sound hinv.sound rfl
            (awards_rejectOfflineQueue hinv.sound (hqueue (eq_false_of_ne_true hends)))

theorem awards_connectFailed (hs : ∀ w, (s.waiters w).Sound)
    (hcircuit : s.returns opts = true → s.reconnecting = false → 0 < opts.maxReconnectAttempts →
      opts.maxReconnectAttempts ≤ s.reconnectAttempts + 1 →
        ∀ w ∈ s.offlineQueue, P w (.rejected (circuitErr opts (s.reconnectAttempts + 1))))
    (hfailed : s.returns opts = false → ∀ w ∈ s.offlineQueue, P w (.rejected (failedErr opts))) :
    s.Awards (connectFailed opts s) P := by
  unfold connectFailed
  dsimp only
  split
  · next hreturns =>
      exact awards_scheduleReconnect opts
        (s := { s with socket := none, reconnectAttempts := s.reconnectAttempts + 1 }) hs
          (hcircuit hreturns)
  · next hends =>
      exact awards_rejectOfflineQueue
        (s := { s with socket := none, reconnectAttempts := s.reconnectAttempts + 1 }) hs
          (hfailed (eq_false_of_ne_true hends))

end Awards

section Writing

variable {s : State} {P : ℕ → Settlement → Prop}

/-- Sending settles nothing, also after the watches were changed. -/
theorem awards_send (req : Request) (watches : List WatchEntry) (n : ℕ) :
    s.Awards (send opts req { s with watchCallbacks := watches, nextWatch := n }) P := by
  unfold send
  split
  · exact .of_eq fun _ _ => rfl
  · split
    · split
      · refine .of_eq fun w hw => ?_
        simp [State.newWaiter, Nat.ne_of_lt hw]
      · exact .of_eq fun _ _ => rfl
    · refine .of_eq fun w hw => ?_
      have hsame := (writeNew_adds opts { s with watchCallbacks := watches, nextWatch := n } .caller
        req).others w (Nat.ne_of_lt hw)
      exact congrArg Waiter.outcomes hsame

theorem awards_reRegisterWatches (t pos : ℕ) : s.Awards (reRegisterWatches opts t pos s) P := by
  unfold reRegisterWatches
  split
  · next e _ _ _ =>
      refine .of_eq fun w hw => ?_
      have hsame := (writeNew_adds opts s (.task t) (.watch e.key e.ns)).others w (Nat.ne_of_lt hw)
      exact congrArg Waiter.outcomes hsame
  · exact .of_eq fun _ _ => rfl

theorem awards_connected (t : ℕ) : s.Awards (connected opts t s) P := by
  unfold connected
  dsimp only
  split
  · exact awards_reRegisterWatches opts (s := { s with reconnectAttempts := 0 }) t 0
  · next token _ =>
      refine .of_eq fun w hw => ?_
      have hsame := (writeNew_adds opts { s with reconnectAttempts := 0 } (.task t)
        (.auth token)).others w (Nat.ne_of_lt hw)
      exact congrArg Waiter.outcomes hsame

theorem waiters_doConnect (created : Bool) (s : State) :
    (doConnect created s).waiters = s.waiters := by
  unfold doConnect
  split
  · rfl
  · cases created with
    | true => rfl
    | false => rfl

theorem awards_flushOfflineQueue (h : WaiterInv s) : s.Awards (flushOfflineQueue opts s) P := by
  unfold flushOfflineQueue
  split
  · exact .of_eq fun _ _ => rfl
  · next i hsocket =>
      have hknows := (flush_ledger opts s.offlineQueue (s := { s with offlineQueue := [] }) hsocket
        (fun _ hw => h.frame_of_queued hw) (List.nodup_append.mp h.nodup).2.1).1
      exact .of_eq fun w _ => hknows.outcomes w

end Writing

section Step

variable {s t : State} {P : ℕ → Settlement → Prop}

theorem awards_resume (h : WaiterInv s) {k : ℕ} (hr : resume opts k s = some t) :
    s.Awards t (Cause opts s (.resume k)) := by
  have hclosed : s.Awards (close s) (Cause opts s (.resume k)) :=
    awards_close h.sound fun w hw => .drained hw (.closed _)
  unfold resume at hr
  split at hr
  · cases hr
  · cases hr
    exact awards_connected opts k
  · next hpc =>
      cases hr
      exact awards_connectFailed opts h.sound (fun hreturns hidle hpos hmax w hw => .drained hw
        (.exhausted ⟨by simp [State.failures, hpc], hreturns, hidle, hpos, hmax⟩))
          fun hends w hw => .drained hw (.failed _ hends)
  · split at hr
    · cases hr
    · cases hr
      exact .of_eq fun _ _ => rfl
    · cases hr
      unfold authenticated
      split
      · exact awards_reRegisterWatches opts k 0
      · exact hclosed
      · exact hclosed
  · cases hr
    exact .of_eq fun _ _ => rfl
  · next e hpc =>
      cases hr
      exact awards_rejectOfflineQueue h.sound fun w hw => .drained hw (.refused hpc)
  · split at hr
    · cases hr
    · cases hr
      exact .of_eq fun _ _ => rfl
    · cases hr
      exact awards_reRegisterWatches opts k _
  · cases hr
    exact awards_flushOfflineQueue opts h
  · cases hr

theorem failures_of_loss {a : Action} {e : Err} (ha : a.loss = some e)
    (hsocket : s.socket.isSome = true) : s.failures a = some s.reconnectAttempts := by
  cases a with
  | sockError i e' => simp [State.failures, Action.loss, hsocket]
  | sockClose i => simp [State.failures, Action.loss, hsocket]
  | _ => cases ha

/-- The events that end a connection. -/
theorem awards_loss (h : WaiterInv s) {a : Action} {e : Err} (ha : a.loss = some e) (i : ℕ)
    (f : Sock → Sock) :
    s.Awards (handleDisconnect opts e (s.updateSock i f)) (Cause opts s a) := by
  have hphase : WaiterInv (s.updateSock i f) := h.settles (State.Settles.of_eq rfl)
  exact awards_handleDisconnect opts (s := s.updateSock i f) hphase
    (fun hsocket w hw => .lost ha hsocket hw) (fun hsocket hreturns hidle hpos hmax w hw =>
      .drained hw (.exhausted ⟨failures_of_loss ha hsocket, hreturns, hidle, hpos, hmax⟩))
    fun hends w hw => .drained hw (.lost ha hends)

/-- A round of `onData` cuts a frame off the buffer and handles it, or ends the loop. -/
theorem onDataRound_cases {i : ℕ} (hparsing : s.parsing = some i) :
    (cutFrame opts.maxFrameBytes s.recvBuf = none ∧
      onDataRound opts i s = settleBuffer opts s.recvBuf s) ∨
    ∃ payload rest, cutFrame opts.maxFrameBytes s.recvBuf = some (payload, rest) ∧
      onDataRound opts i s = (handlePayload i payload s).buffered rest (some i) := by
  have hself : s.buffered s.recvBuf (some i) = s := by rw [State.buffered, ← hparsing]
  cases hcut : cutFrame opts.maxFrameBytes s.recvBuf with
  | none =>
      have hround := onDataRound_of_none opts i (s := s) hcut
      rw [hself] at hround
      exact Or.inl ⟨rfl, hround⟩
  | some cut =>
      obtain ⟨payload, rest⟩ := cut
      have hround := onDataRound_of_some opts i (s := s) hcut
      rw [hself] at hround
      exact Or.inr ⟨payload, rest, rfl, hround⟩

theorem settleBuffer_eq (left : List UInt8) (s : State) : ∃ socks, settleBuffer opts left s =
    { s with socks := socks, recvBuf := left, parsing := none } := by
  unfold settleBuffer refuseFrame
  split
  · split
    · exact ⟨s.socks, rfl⟩
    · exact ⟨_, rfl⟩
  · exact ⟨s.socks, rfl⟩

theorem settleBuffer_waiters (left : List UInt8) (s : State) :
    (settleBuffer opts left s).waiters = s.waiters := by
  obtain ⟨socks, hsettle⟩ := settleBuffer_eq opts left s
  rw [hsettle]

/-- What is done with a payload: a watch event settles nothing, and any other payload settles the
waiter at the front. -/
theorem handlePayload_eq (i : ℕ) (payload : List UInt8) (s : State) :
    (∃ name value version, decodeResponse payload = .ok (.watchEvent name value version) ∧
      ∃ callback, handlePayload i payload s =
        { s with received := s.received ++ [⟨i, payload, none, callback⟩] }) ∨
    (∀ name value version, decodeResponse payload ≠ .ok (.watchEvent name value version)) ∧
      handlePayload i payload s = shiftWaiter i payload (settlementOf payload) s := by
  unfold handlePayload settlementOf
  split
  · next e hdecode =>
      refine Or.inr ⟨fun _ _ _ h => ?_, by rw [hdecode]⟩
      rw [hdecode] at h
      cases h
  · next name value version hdecode =>
      exact Or.inl ⟨name, value, version, hdecode, _, rfl⟩
  · next r hnot hdecode =>
      refine Or.inr ⟨fun name value version h => ?_, by rw [hdecode]⟩
      rw [hdecode] at h
      cases h
      exact hnot name value version rfl

theorem awards_shiftWaiter (h : WaiterInv s) (i : ℕ) (payload : List UInt8) (o : Settlement)
    (ho : ∀ w ws, s.inflight = w :: ws → P w o) : s.Awards (shiftWaiter i payload o s) P := by
  unfold shiftWaiter
  split
  · exact .of_eq fun _ _ => rfl
  · next w ws hin =>
      intro v _
      by_cases hv : v = w
      · subst hv
        have hself : (s.updateWaiter v (Waiter.finish o)).waiters v = (s.waiters v).finish o := by
          simp [State.updateWaiter]
        dsimp only
        rw [hself]
        exact (Waiter.finish_outcomes (h.sound v) o).imp_right
          (And.imp_right fun hout => ⟨o, ho v ws hin, hout⟩)
      · exact Or.inl (by simp [State.updateWaiter, hv])

theorem awards_round (h : WaiterInv s) {i : ℕ} (hparsing : s.parsing = some i) :
    s.Awards (onDataRound opts i s) (Cause opts s .round) := by
  rcases onDataRound_cases opts hparsing with ⟨-, hround⟩ | ⟨payload, rest, hcut, hround⟩
  · rw [hround]
    exact .of_eq fun w _ => by rw [settleBuffer_waiters]
  · rw [hround]
    rcases handlePayload_eq i payload s with ⟨_, _, _, -, callback, heq⟩ | ⟨hreply, heq⟩
    · rw [heq]
      exact .of_eq fun _ _ => rfl
    · rw [heq]
      exact awards_shiftWaiter h i payload _ fun w ws hin => .replied hparsing hin hcut hreply

/-- What is given to a waiter in a step has a cause. -/
theorem step_awards (h : WaiterInv s) {a : Action} (hs : step opts s a = some t) :
    s.Awards t (Cause opts s a) := by
  cases a with
  | connect created =>
      cases hs
      refine .of_eq fun w _ => ?_
      unfold connect
      split
      · rfl
      · split
        · rfl
        · rw [waiters_doConnect]
  | close =>
      cases hs
      exact awards_close h.sound fun w hw => .drained hw (.closed _)
  | request req =>
      simp only [step] at hs
      split at hs
      · split at hs
        · cases hs
          exact awards_send opts req s.watchCallbacks s.nextWatch
        · cases hs
          exact .of_eq fun _ _ => rfl
      · cases hs
  | watch key ns callback =>
      simp only [step] at hs
      split at hs
      · cases hs
        unfold watch setCallback
        dsimp only
        split
        · exact awards_send opts _ _ s.nextWatch
        · exact awards_send opts _ _ _
      · cases hs
        exact .of_eq fun _ _ => rfl
  | unwatch key ns =>
      simp only [step] at hs
      split at hs
      · cases hs
        unfold unwatch
        dsimp only
        split
        · exact .of_eq fun _ _ => rfl
        · exact awards_send opts _ _ s.nextWatch
      · cases hs
        exact .of_eq fun _ _ => rfl
  | resume k =>
      simp only [step] at hs
      split at hs
      · exact awards_resume opts h hs
      · cases hs
  | sockConnected i =>
      simp only [step, Option.ite_none_right_eq_some, Option.some.injEq] at hs
      rw [← hs.2]
      refine .of_eq fun w _ => ?_
      unfold onConnected settleConnection
      split
      · rfl
      · rfl
  | sockData i chunk =>
      simp only [step, Option.ite_none_right_eq_some, Option.some.injEq] at hs
      rw [← hs.2]
      exact .of_eq fun _ _ => rfl
  | sockError i e =>
      simp only [step, Option.ite_none_right_eq_some, Option.some.injEq] at hs
      rw [← hs.2]
      have hloss : s.Awards (handleDisconnect opts e (s.updateSock i fun k =>
          { k with phase := .errored })) (Cause opts s (.sockError i e)) :=
        awards_loss opts h rfl i _
      unfold onError settleConnection
      split
      · exact hloss
      · exact hloss
  | sockClose i =>
      simp only [step, Option.ite_none_right_eq_some, Option.some.injEq] at hs
      rw [← hs.2]
      exact awards_loss opts h rfl i _
  | connectTimeout i =>
      simp only [step, Option.ite_none_right_eq_some, Option.some.injEq] at hs
      rw [← hs.2]
      exact .of_eq fun _ _ => rfl
  | idleTimeout i =>
      simp only [step, Option.ite_none_right_eq_some, Option.some.injEq] at hs
      rw [← hs.2]
      exact .of_eq fun _ _ => rfl
  | requestTimeout w =>
      simp only [step, Option.ite_none_right_eq_some, Option.some.injEq] at hs
      rw [← hs.2]
      intro v _
      by_cases hv : v = w
      · subst hv
        have hself : (s.updateWaiter v (Waiter.finish (.rejected (timeoutErr opts)))).waiters v =
            (s.waiters v).finish (.rejected (timeoutErr opts)) := by
          simp [State.updateWaiter]
        change ((s.updateWaiter v (Waiter.finish (.rejected (timeoutErr opts)))).waiters v).outcomes =
          _ ∨ _
        rw [hself]
        exact (Waiter.finish_outcomes (h.sound v) _).imp_right
          (And.imp_right fun hout => ⟨_, .timeout v, by rw [← hself] at hout; exact hout⟩)
      · exact Or.inl (by simp [State.updateWaiter, hv])
  | reconnectTimer created =>
      simp only [step, Option.ite_none_right_eq_some, Option.some.injEq] at hs
      rw [← hs.2]
      exact .of_eq fun w _ => by rw [waiters_doConnect]
  | round =>
      simp only [step, Option.map_eq_some_iff] at hs
      obtain ⟨i, hi, rfl⟩ := hs
      exact awards_round opts h hi
  | callbackThrow =>
      simp only [step, Option.ite_none_right_eq_some, Option.some.injEq] at hs
      rw [← hs.2]
      exact .of_eq fun _ _ => rfl

end Step

end NodeTcp

end DittoClient
