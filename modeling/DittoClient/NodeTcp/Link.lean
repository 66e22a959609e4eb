import DittoClient.NodeTcp.Machine

/-!
# The link of the Node.js TCP client

The part of the state that says how the client is connected: the stored socket, the
reconnect timer, the sockets and the runs of `doConnect`. Requests, replies, queues and
watches do not change it. What is left are the functions that open, lose and close a
connection, and the points where a run of `doConnect` is suspended next.
-/

namespace DittoClient

namespace NodeTcp

open DittoClient.Wire

/-- How a client is connected. -/
structure Link where
  socket : Option ℕ
  reconnecting : Bool
  destroyed : Bool
  reconnectTimer : Bool
  socks : ℕ → Sock
  nextSock : ℕ
  tasks : ℕ → Task
  nextTask : ℕ

def State.link (s : State) : Link :=
  ⟨s.socket, s.reconnecting, s.destroyed, s.reconnectTimer, s.socks, s.nextSock, s.tasks,
    s.nextTask⟩

/-- Whether a run of `doConnect` is not connected yet, or has not dealt with its failure. -/
def Pc.attempting : Pc → Bool
  | .connecting _ => true
  | .failed => true
  | _ => false

/-- Whether a run of `doConnect` is connected and may yet send the queue. -/
def Pc.late : Pc → Bool
  | .connected => true
  | .auth _ => true
  | .rewatch _ _ => true
  | .rewatched => true
  | _ => false

theorem Pc.not_attempting_of_late {pc : Pc} (h : pc.late = true) : pc.attempting = false := by
  cases pc <;> first | rfl | cases h

namespace Link

def setPc (l : Link) (t : ℕ) (pc : Pc) : Link :=
  { l with tasks := Function.update l.tasks t { l.tasks t with pc := pc } }

def setPhase (l : Link) (i : ℕ) (ph : Phase) : Link :=
  { l with socks := Function.update l.socks i { l.socks i with phase := ph } }

/-- The connection is lost, and a timer is set for the next attempt or not. -/
def lost (l : Link) (retry : Bool) : Link :=
  { l with
    socket := none
    reconnecting := l.reconnecting || retry
    reconnectTimer := l.reconnectTimer || retry }

/-- The client is closed, and the stored socket is ended. -/
def closed (l : Link) : Link :=
  { l with
    socket := none
    reconnecting := false
    destroyed := true
    reconnectTimer := false
    socks := match l.socket with
      | none => l.socks
      | some i => Function.update l.socks i { l.socks i with ended := true } }

/-- The connection promise for socket `i` is settled. -/
def settled (l : Link) (i : ℕ) (pc : Pc) : Link :=
  if (l.tasks (l.socks i).task).pc = .connecting i then l.setPc (l.socks i).task pc else l

/-- A run of `doConnect` begins. -/
def dialed (l : Link) (created : Bool) : Link :=
  if l.destroyed then
    { l with
      tasks := Function.update l.tasks l.nextTask ⟨.done none, none⟩
      nextTask := l.nextTask + 1 }
  else if created then
    { l with
      socks := Function.update l.socks l.nextSock ⟨.connecting, false, l.nextTask⟩
      nextSock := l.nextSock + 1
      tasks := Function.update l.tasks l.nextTask ⟨.connecting l.nextSock, some l.nextSock⟩
      nextTask := l.nextTask + 1 }
  else
    { l with
      tasks := Function.update l.tasks l.nextTask ⟨.failed, none⟩
      nextTask := l.nextTask + 1 }

variable (l : Link)

theorem setPhase_phase (i : ℕ) (ph : Phase) (j : ℕ) :
    ((l.setPhase i ph).socks j).phase = if j = i then ph else (l.socks j).phase := by
  by_cases hj : j = i
  · simp [hj, setPhase]
  · simp [hj, setPhase]

@[simp] theorem setPhase_task (i : ℕ) (ph : Phase) (j : ℕ) :
    ((l.setPhase i ph).socks j).task = (l.socks j).task := by
  by_cases hj : j = i
  · simp [hj, setPhase]
  · simp [hj, setPhase]

@[simp] theorem closed_phase (j : ℕ) : (l.closed.socks j).phase = (l.socks j).phase := by
  unfold closed
  dsimp only
  cases l.socket with
  | none => rfl
  | some i =>
      by_cases hj : j = i
      · simp [hj]
      · simp [hj]

@[simp] theorem closed_task (j : ℕ) : (l.closed.socks j).task = (l.socks j).task := by
  unfold closed
  dsimp only
  cases l.socket with
  | none => rfl
  | some i =>
      by_cases hj : j = i
      · simp [hj]
      · simp [hj]

/-- Settling a connection promise changes where a run is suspended, and nothing else. -/
theorem settled_eq (i : ℕ) (pc : Pc) :
    l.settled i pc = { l with tasks := (l.settled i pc).tasks } := by
  unfold settled
  split
  · rfl
  · rfl

@[simp] theorem settled_socks (i : ℕ) (pc : Pc) : (l.settled i pc).socks = l.socks := by
  rw [settled_eq]

@[simp] theorem settled_destroyed (i : ℕ) (pc : Pc) :
    (l.settled i pc).destroyed = l.destroyed := by
  rw [settled_eq]

/-- The beginning of a run leaves alone what is stored. -/
theorem dialed_eq (created : Bool) :
    l.dialed created =
      { l with
        socks := (l.dialed created).socks
        nextSock := (l.dialed created).nextSock
        tasks := (l.dialed created).tasks
        nextTask := (l.dialed created).nextTask } := by
  unfold dialed
  split
  · rfl
  · split
    · rfl
    · rfl

@[simp] theorem dialed_destroyed (created : Bool) :
    (l.dialed created).destroyed = l.destroyed := by
  rw [dialed_eq]

@[simp] theorem dialed_socket (created : Bool) : (l.dialed created).socket = l.socket := by
  rw [dialed_eq]

@[simp] theorem dialed_reconnecting (created : Bool) :
    (l.dialed created).reconnecting = l.reconnecting := by
  rw [dialed_eq]

@[simp] theorem dialed_reconnectTimer (created : Bool) :
    (l.dialed created).reconnectTimer = l.reconnectTimer := by
  rw [dialed_eq]

end Link

variable (opts : Options)

section Unlinked

@[simp] theorem link_updateWaiter (s : State) (w : ℕ) (f : Waiter → Waiter) :
    (s.updateWaiter w f).link = s.link :=
  rfl

@[simp] theorem link_newWaiter (s : State) (frame : Option Request) (owner : Owner)
    (req : Request) : (s.newWaiter frame owner req).link = s.link :=
  rfl

@[simp] theorem link_setPc (s : State) (t : ℕ) (pc : Pc) :
    (s.setPc t pc).link = s.link.setPc t pc :=
  rfl

/-- A loop that leaves the link alone in each round. -/
theorem link_foldl {f : State → ℕ → State} (hf : ∀ s w, (f s w).link = s.link) (ws : List ℕ)
    (s : State) : (ws.foldl f s).link = s.link := by
  induction ws generalizing s with
  | nil => rfl
  | cons w ws ih => rw [List.foldl_cons, ih, hf]

@[simp] theorem link_rejectOfflineQueue (err : Err) (s : State) :
    (rejectOfflineQueue err s).link = s.link :=
  link_foldl (fun s w => link_updateWaiter s w _) s.offlineQueue _

@[simp] theorem link_writeInflight (frame : Request) (w : ℕ) (s : State) :
    (writeInflight opts frame w s).1.link = s.link := by
  unfold writeInflight armRequestTimeout
  cases hs : s.socket with
  | none => split <;> simp [State.link, State.updateWaiter, hs]
  | some i => split <;> simp [State.link, State.updateWaiter, hs]

@[simp] theorem link_send (req : Request) (s : State) :
    (send opts req s).link = s.link := by
  unfold send
  split
  · rfl
  · split
    · split
      · rfl
      · rfl
    · simp

@[simp] theorem link_setCallback (name key : String) (ns : Option String) (callback : ℕ)
    (s : State) : (setCallback name key ns callback s).link = s.link := by
  unfold setCallback
  split
  · rfl
  · rfl

@[simp] theorem link_watch (key : String) (ns : Option String) (callback : ℕ) (s : State) :
    (watch opts key ns callback s).link = s.link := by
  simp [watch]

@[simp] theorem link_unwatch (key : String) (ns : Option String) (s : State) :
    (unwatch opts key ns s).link = s.link := by
  unfold unwatch
  dsimp only
  split
  · rfl
  · rw [link_send]
    rfl

@[simp] theorem link_shiftWaiter (i : ℕ) (payload : List UInt8) (o : Settlement)
    (s : State) : (shiftWaiter i payload o s).link = s.link := by
  unfold shiftWaiter
  split
  · rfl
  · rfl

@[simp] theorem link_handlePayload (i : ℕ) (payload : List UInt8) (s : State) :
    (handlePayload i payload s).link = s.link := by
  unfold handlePayload
  split
  · simp
  · rfl
  · simp

@[simp] theorem link_onData (i : ℕ) (chunk : List UInt8) (s : State) :
    (onData i chunk s).link = s.link :=
  rfl

theorem link_flushWaiter (s : State) (w : ℕ) : (flushWaiter opts s w).link = s.link := by
  unfold flushWaiter
  split
  · rfl
  · simp

@[simp] theorem link_flushOfflineQueue (s : State) :
    (flushOfflineQueue opts s).link = s.link := by
  unfold flushOfflineQueue
  split
  · rfl
  · exact link_foldl (link_flushWaiter opts) _ _

end Unlinked

section Linked

/-- The registration of the watches stops at a reply, or behind the last watch. -/
theorem link_reRegisterWatches (t pos : ℕ) (s : State) :
    ∃ pc, pc.late = true ∧
      (reRegisterWatches opts t pos s).link = s.link.setPc t pc := by
  unfold reRegisterWatches
  split
  · next e _ _ _ => exact ⟨.rewatch (e.index + 1) s.nextWaiter, rfl, by simp⟩
  · exact ⟨.rewatched, rfl, rfl⟩

/-- A write throws without a socket. -/
theorem writeInflight_threw (frame : Request) (w : ℕ) (s : State) :
    (writeInflight opts frame w s).2 = s.socket.isNone := by
  have hsocket : (armRequestTimeout opts w { s with inflight := s.inflight ++ [w] }).socket =
      s.socket := by
    unfold armRequestTimeout
    split
    · rfl
    · rfl
  unfold writeInflight
  dsimp only
  rw [hsocket]
  cases s.socket with
  | none => rfl
  | some i => rfl

/-- A run that is connected waits for the reply to Auth or for one to Watch, or is through
with both, unless the connection was lost. -/
theorem link_connected (t : ℕ) (s : State) :
    ∃ pc, pc.attempting = false ∧ (pc.late = true ∨ s.socket = none) ∧
      (connected opts t s).link = s.link.setPc t pc := by
  unfold connected
  dsimp only
  split
  · obtain ⟨pc, hlate, hlink⟩ := link_reRegisterWatches opts t 0
      { s with reconnectAttempts := 0 }
    exact ⟨pc, Pc.not_attempting_of_late hlate, Or.inl hlate, hlink⟩
  · refine ⟨if s.socket.isNone then .authThrew else .auth s.nextWaiter, ?_, ?_, ?_⟩
    · split
      · rfl
      · rfl
    · split
      · next hnone => exact Or.inr (by simpa using hnone)
      · exact Or.inl rfl
    · rw [link_setPc, link_writeInflight, writeInflight_threw]
      rfl

theorem link_scheduleReconnect (s : State) :
    ∃ retry : Bool, (retry = true → s.destroyed = false ∧ s.reconnecting = false) ∧
      (scheduleReconnect opts s).link =
        { s.link with
          reconnecting := s.link.reconnecting || retry
          reconnectTimer := s.link.reconnectTimer || retry } := by
  unfold scheduleReconnect
  split
  · exact ⟨false, by simp, by simp⟩
  · next hidle =>
      split
      · exact ⟨false, by simp, by simp⟩
      · exact ⟨true, by simpa [and_comm] using hidle, by simp [State.link]⟩

theorem link_disconnectWaiter (err : Err) (s : State) (w : ℕ) :
    (disconnectWaiter err s w).link = s.link := by
  unfold disconnectWaiter
  dsimp only
  split
  · rfl
  · rfl

/-- The stored socket is gone, and a timer is set only for a client that has none. -/
theorem link_handleDisconnect (err : Err) (s : State) :
    ∃ retry : Bool, (retry = true → s.destroyed = false ∧ s.reconnecting = false ∧
        s.socket.isSome = true) ∧
      (handleDisconnect opts err s).link = s.link.lost retry := by
  unfold handleDisconnect
  split
  · next hsocket =>
      refine ⟨false, by simp, ?_⟩
      simpa [State.link, Link.lost] using hsocket
  · next hsocket =>
      have hsome : s.socket.isSome = true := by simpa [Option.isSome_iff_ne_none] using hsocket
      have hloop := link_foldl (link_disconnectWaiter err) s.inflight
        { s with socket := none, recvBuf := [], inflight := [] }
      dsimp only
      split
      · obtain ⟨retry, hretry, hlink⟩ := link_scheduleReconnect opts
          (s.inflight.foldl (disconnectWaiter err)
            { s with socket := none, recvBuf := [], inflight := [] })
        have hdestroyed := congrArg Link.destroyed hloop
        have hreconnecting := congrArg Link.reconnecting hloop
        refine ⟨retry, fun hr => ?_, ?_⟩
        · exact ⟨hdestroyed.symm.trans (hretry hr).1, hreconnecting.symm.trans (hretry hr).2,
            hsome⟩
        · rw [hlink, hloop]
          rfl
      · refine ⟨false, by simp, ?_⟩
        rw [link_rejectOfflineQueue, hloop]
        simp [State.link, Link.lost]

theorem link_connectFailed (s : State) :
    ∃ retry : Bool, (retry = true → s.destroyed = false ∧ s.reconnecting = false) ∧
      (connectFailed opts s).link = s.link.lost retry := by
  unfold connectFailed
  dsimp only
  split
  · obtain ⟨retry, hretry, hlink⟩ := link_scheduleReconnect opts
      { s with socket := none, reconnectAttempts := s.reconnectAttempts + 1 }
    exact ⟨retry, hretry, hlink⟩
  · refine ⟨false, by simp, ?_⟩
    rw [link_rejectOfflineQueue]
    simp [State.link, Link.lost]

theorem link_close (s : State) : (close s).link = s.link.closed := by
  have hreject : (rejectOfflineQueue (.error "Client closed.")
      (cancelReconnectTimer { s with destroyed := true })).link =
        { s.link with reconnecting := false, destroyed := true, reconnectTimer := false } :=
    link_rejectOfflineQueue _ _
  unfold close
  dsimp only
  generalize rejectOfflineQueue (.error "Client closed.")
    (cancelReconnectTimer { s with destroyed := true }) = u at hreject ⊢
  have hsocket : u.socket = s.link.socket := congrArg Link.socket hreject
  have hsocks : u.socks = s.link.socks := congrArg Link.socks hreject
  cases hs : s.link.socket with
  | none =>
      rw [hsocket, hs]
      simp [hreject, Link.closed, hs]
  | some i =>
      rw [hsocket, hs]
      have hended : ({ u.updateSock i fun k => { k with ended := true } with
          socket := none } : State).link = { u.link with
            socket := none
            socks := Function.update u.socks i { u.socks i with ended := true } } := rfl
      simp [hended, hreject, hsocks, Link.closed, hs]

@[simp] theorem link_doConnect (created : Bool) (s : State) :
    (doConnect created s).link = s.link.dialed created := by
  unfold doConnect Link.dialed
  by_cases hd : s.destroyed = true
  · simp [hd, State.link, State.newTask]
  · cases created with
    | true => simp [hd, State.link, State.newTask, State.newSock]
    | false => simp [hd, State.link, State.newTask]

@[simp] theorem link_settleConnection (i : ℕ) (pc : Pc) (s : State) :
    (settleConnection i pc s).link = s.link.settled i pc := by
  unfold settleConnection Link.settled
  split
  · next h => simp [State.link, h, State.setPc, Link.setPc]
  · next h => simp [State.link, h]

theorem link_onConnected (i : ℕ) (s : State) :
    (onConnected i s).link =
      { s.link.setPhase i .connected with socket := some i }.settled i .connected := by
  rw [onConnected, link_settleConnection]
  rfl

theorem link_onError (i : ℕ) (e : Err) (s : State) :
    ∃ retry : Bool, (retry = true → s.destroyed = false ∧ s.reconnecting = false ∧
        s.socket.isSome = true) ∧
      (onError opts i e s).link = ((s.link.setPhase i .errored).lost retry).settled i .failed := by
  obtain ⟨retry, hretry, hlink⟩ := link_handleDisconnect opts e
    (s.updateSock i fun k => { k with phase := .errored })
  refine ⟨retry, hretry, ?_⟩
  rw [onError, link_settleConnection, hlink]
  rfl

/-- A socket is destroyed while it connects or is open. -/
theorem link_destroySock (i : ℕ) (e : Err) (s : State) :
    (destroySock i e s).link = s.link ∨ ((s.socks i).phase.isLive = true ∧
      (destroySock i e s).link = s.link.setPhase i (.destroyed e)) := by
  cases h : (s.socks i).phase.isLive with
  | true => exact Or.inr ⟨rfl, by simp [destroySock, State.updateSock, State.link, Link.setPhase, h]⟩
  | false => exact Or.inl (by simp [destroySock, State.updateSock, State.link, h])

/-- A round of `onData` may destroy the stored socket. -/
theorem link_onDataRound (i : ℕ) (s : State) :
    (onDataRound opts i s).link = s.link ∨ ∃ j e, s.socket = some j ∧
      (s.socks j).phase.isLive = true ∧
        (onDataRound opts i s).link = s.link.setPhase j (.destroyed e) := by
  unfold onDataRound
  dsimp only
  split
  · exact Or.inl rfl
  · split
    · generalize Err.error _ = e
      split
      · exact Or.inl rfl
      · next j hj =>
          rcases link_destroySock j e s with h | ⟨hlive, h⟩
          · exact Or.inl h
          · exact Or.inr ⟨j, e, hj, hlive, h⟩
    · split
      · exact Or.inl rfl
      · exact Or.inl (link_handlePayload i _ _)

end Linked

section Step

/-- How an action changes the link. -/
inductive Link.Step : Link → Action → Link → Prop
  | same (l : Link) (a : Action) : Link.Step l a l
  | connect {l : Link} (created : Bool) (hdestroyed : l.destroyed = false)
      (hsocket : l.socket = none) : Link.Step l (.connect created) (l.dialed created)
  | close (l : Link) : Link.Step l .close l.closed
  | goOn {l : Link} {t : ℕ} {pc : Pc} (hfrom : (l.tasks t).pc.attempting = false)
      (hto : pc.attempting = false) : Link.Step l (.resume t) (l.setPc t pc)
  | failed {l : Link} {t : ℕ} {retry : Bool} (hpc : (l.tasks t).pc = .failed)
      (hretry : retry = true → l.destroyed = false ∧ l.reconnecting = false) :
      Link.Step l (.resume t) ((l.lost retry).setPc t (.done none))
  | refused {l : Link} {t w : ℕ} (e : Err) (hpc : (l.tasks t).pc = .auth w) :
      Link.Step l (.resume t) (l.closed.setPc t (.authClosing e))
  | sockConnected {l : Link} {i : ℕ} (hphase : (l.socks i).phase = .connecting) :
      Link.Step l (.sockConnected i)
        ({ l.setPhase i .connected with socket := some i }.settled i .connected)
  | sockError {l : Link} {i : ℕ} {e : Err} {retry : Bool}
      (hphase : (l.socks i).phase.emits e = true)
      (hretry : retry = true →
        l.destroyed = false ∧ l.reconnecting = false ∧ l.socket.isSome = true) :
      Link.Step l (.sockError i e) (((l.setPhase i .errored).lost retry).settled i .failed)
  | sockClose {l : Link} {i : ℕ} {retry : Bool}
      (hphase : (l.socks i).phase = .connected ∨ (l.socks i).phase = .errored)
      (hretry : retry = true →
        l.destroyed = false ∧ l.reconnecting = false ∧ l.socket.isSome = true) :
      Link.Step l (.sockClose i) ((l.setPhase i .closed).lost retry)
  | destroySock {l : Link} {i : ℕ} (a : Action) (e : Err)
      (hphase : (l.socks i).phase.isLive = true)
      (hfrom : a = .connectTimeout i ∧ (l.socks i).phase = .connecting ∨ a = .idleTimeout i ∨
        a = .round ∧ l.socket = some i) : Link.Step l a (l.setPhase i (.destroyed e))
  | reconnectTimer {l : Link} (created : Bool) (htimer : l.reconnectTimer = true) :
      Link.Step l (.reconnectTimer created)
        ({ l with reconnectTimer := false, reconnecting := false }.dialed created)

theorem resume_link {s t : State} {k : ℕ} (hr : resume opts k s = some t) :
    Link.Step s.link (.resume k) t.link := by
  have hnot : ∀ {pc : Pc}, (s.tasks k).pc = pc → pc.attempting = false →
      (s.link.tasks k).pc.attempting = false := by
    intro pc hpc hfrom
    rw [← hfrom, ← hpc]
    rfl
  unfold resume at hr
  split at hr
  · cases hr
  · next hpc =>
      cases hr
      obtain ⟨pc, hto, -, hlink⟩ := link_connected opts k s
      rw [hlink]
      exact .goOn (hnot hpc rfl) hto
  · next hpc =>
      cases hr
      obtain ⟨retry, hretry, hlink⟩ := link_connectFailed opts s
      rw [link_setPc, hlink]
      exact .failed hpc hretry
  · next w hpc =>
      split at hr
      · cases hr
      · cases hr
        exact .goOn (hnot hpc rfl) rfl
      · cases hr
        unfold authenticated
        split
        · obtain ⟨pc, hlate, hlink⟩ := link_reRegisterWatches opts k 0 s
          rw [hlink]
          exact .goOn (hnot hpc rfl) (Pc.not_attempting_of_late hlate)
        · rw [link_setPc, link_close]
          exact .refused _ hpc
        · rw [link_setPc, link_close]
          exact .refused _ hpc
  · next hpc =>
      cases hr
      exact .goOn (hnot hpc rfl) rfl
  · next hpc =>
      cases hr
      rw [link_setPc, link_rejectOfflineQueue]
      exact .goOn (hnot hpc rfl) rfl
  · next pos w hpc =>
      split at hr
      · cases hr
      · cases hr
        exact .goOn (hnot hpc rfl) rfl
      · cases hr
        obtain ⟨pc, hlate, hlink⟩ := link_reRegisterWatches opts k pos s
        rw [hlink]
        exact .goOn (hnot hpc rfl) (Pc.not_attempting_of_late hlate)
  · next hpc =>
      cases hr
      rw [link_setPc, link_flushOfflineQueue]
      exact .goOn (hnot hpc rfl) rfl
  · cases hr

/-- The link of the client is a machine of its own. -/
theorem step_link {s t : State} {a : Action} (hs : step opts s a = some t) :
    Link.Step s.link a t.link := by
  cases a with
  | connect created =>
      cases hs
      unfold connect
      split
      · exact .same _ _
      · next hdestroyed =>
          split
          · exact .same _ _
          · next hsocket =>
              rw [link_doConnect]
              exact .connect created (by simpa [State.link] using hdestroyed)
                (by simpa [State.link] using hsocket)
  | close =>
      cases hs
      rw [link_close]
      exact .close _
  | request req =>
      simp only [step] at hs
      split at hs
      · split at hs
        · cases hs
          rw [link_send]
          exact .same _ _
        · cases hs
          exact .same _ _
      · cases hs
  | watch key ns callback =>
      simp only [step] at hs
      split at hs
      · cases hs
        rw [link_watch]
        exact .same _ _
      · cases hs
        exact .same _ _
  | unwatch key ns =>
      simp only [step] at hs
      split at hs
      · cases hs
        rw [link_unwatch]
        exact .same _ _
      · cases hs
        exact .same _ _
  | resume k =>
      simp only [step] at hs
      split at hs
      · exact resume_link opts hs
      · cases hs
  | sockConnected i =>
      simp only [step, Option.ite_none_right_eq_some, Option.some.injEq] at hs
      obtain ⟨⟨-, hphase⟩, rfl⟩ := hs
      rw [link_onConnected]
      exact .sockConnected hphase
  | sockData i chunk =>
      simp only [step, Option.ite_none_right_eq_some, Option.some.injEq] at hs
      rw [← hs.2]
      exact .same _ _
  | sockError i e =>
      simp only [step, Option.ite_none_right_eq_some, Option.some.injEq] at hs
      obtain ⟨⟨-, hphase⟩, rfl⟩ := hs
      obtain ⟨retry, hretry, hlink⟩ := link_onError opts i e s
      rw [hlink]
      exact .sockError hphase hretry
  | sockClose i =>
      simp only [step, Option.ite_none_right_eq_some, Option.some.injEq] at hs
      obtain ⟨⟨-, hphase⟩, rfl⟩ := hs
      obtain ⟨retry, hretry, hlink⟩ := link_handleDisconnect opts
        (.error "Connection closed by server.")
          (s.updateSock i fun k => { k with phase := .closed })
      rw [onClose, hlink]
      exact .sockClose hphase hretry
  | connectTimeout i =>
      simp only [step, Option.ite_none_right_eq_some, Option.some.injEq] at hs
      obtain ⟨⟨-, hphase⟩, rfl⟩ := hs
      rcases link_destroySock i _ s with hlink | ⟨hlive, hlink⟩
      · rw [hlink]
        exact .same _ _
      · rw [hlink]
        exact .destroySock _ _ hlive (.inl ⟨rfl, hphase⟩)
  | idleTimeout i =>
      simp only [step, Option.ite_none_right_eq_some, Option.some.injEq] at hs
      obtain ⟨⟨-, -, hphase⟩, rfl⟩ := hs
      rcases link_destroySock i _ s with hlink | ⟨hlive, hlink⟩
      · rw [hlink]
        exact .same _ _
      · rw [hlink]
        exact .destroySock _ _ hlive (.inr (.inl rfl))
  | requestTimeout w =>
      simp only [step, Option.ite_none_right_eq_some, Option.some.injEq] at hs
      rw [← hs.2]
      exact .same _ _
  | reconnectTimer created =>
      simp only [step, Option.ite_none_right_eq_some, Option.some.injEq] at hs
      obtain ⟨⟨-, htimer⟩, rfl⟩ := hs
      rw [link_doConnect]
      exact .reconnectTimer created htimer
  | round =>
      simp only [step, Option.map_eq_some_iff] at hs
      obtain ⟨i, -, rfl⟩ := hs
      rcases link_onDataRound opts i s with hlink | ⟨j, e, hsocket, hlive, hlink⟩
      · rw [hlink]
        exact .same _ _
      · rw [hlink]
        exact .destroySock _ e hlive (.inr (.inr ⟨rfl, hsocket⟩))
  | callbackThrow =>
      simp only [step, Option.ite_none_right_eq_some, Option.some.injEq] at hs
      rw [← hs.2]
      exact .same _ _

end Step

end NodeTcp

end DittoClient
