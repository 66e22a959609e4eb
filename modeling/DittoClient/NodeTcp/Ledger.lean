import DittoClient.NodeTcp.Link
import DittoClient.NodeTcp.Waiters

/-!
# What a step does to the requests

Each step of the client settles waiters and leaves the queues as they are, or loses the
connection with what is in flight, or reads from the socket, or queues a request, or writes
one frame, or sends the queue. `Ledger` lists these cases with what the step needs and what
becomes of the queues, the waiters and the wire.
-/

namespace DittoClient

namespace NodeTcp

open DittoClient.Wire
open DittoClient.Transition

/-- What `onData` works on. -/
structure Inbox where
  recvBuf : List UInt8
  parsing : Option ℕ
  received : List Delivery
  inflight : List ℕ

namespace State

def inbox (s : State) : Inbox :=
  ⟨s.recvBuf, s.parsing, s.received, s.inflight⟩

/-- `t` has one more waiter than `s`. -/
structure Adds (s t : State) (owner : Owner) (req : Request) : Prop where
  nextWaiter : t.nextWaiter = s.nextWaiter + 1
  owner : (t.waiters s.nextWaiter).owner = owner
  request : (t.waiters s.nextWaiter).request = req
  settled : (t.waiters s.nextWaiter).settled = false
  outcomes : (t.waiters s.nextWaiter).outcomes = []
  others : ∀ w, w ≠ s.nextWaiter → t.waiters w = s.waiters w

/-- `t` has the waiters of `s`, perhaps without their frames. -/
structure Knows (s t : State) : Prop where
  nextWaiter : t.nextWaiter = s.nextWaiter
  owner : ∀ w, (t.waiters w).owner = (s.waiters w).owner
  request : ∀ w, (t.waiters w).request = (s.waiters w).request
  settled : ∀ w, (t.waiters w).settled = (s.waiters w).settled
  outcomes : ∀ w, (t.waiters w).outcomes = (s.waiters w).outcomes

end State

/-- The calls that send a request. -/
def Action.sends : Action → Bool
  | .request _ => true
  | .watch _ _ _ => true
  | .unwatch _ _ => true
  | _ => false

/-- The steps of `onData`. -/
def Action.reads : Action → Bool
  | .sockData _ _ => true
  | .round => true
  | .callbackThrow => true
  | _ => false

/-- The events that end a connection. -/
def Action.ends : Action → Bool
  | .sockError _ _ => true
  | .sockClose _ => true
  | _ => false

theorem Action.not_ends {a : Action} (h : a.sends = true) : a.ends = false := by
  cases a <;> first | rfl | cases h

variable (opts : Options)

/-- A run of `doConnect` is where it registers the next watch. -/
def State.Behind (s : State) (t : ℕ) : Prop :=
  ((s.tasks t).pc = .connected ∧ opts.token? = none) ∨
    (∃ w, (s.tasks t).pc = .auth w ∧
      (s.waiters w).outcomes.head? = some (.resolved .authOk)) ∨
      ∃ pos w r, (s.tasks t).pc = .rewatch pos w ∧
        (s.waiters w).outcomes.head? = some (.resolved r)

/-- Who sends a new frame, and which one. -/
inductive Sends (s : State) : Action → Owner → Request → Prop
  | call {a : Action} (req : Request) (ha : a.sends = true) (hdestroyed : s.destroyed = false) :
      Sends s a .caller req
  | auth {t : ℕ} {token : String} (hpc : (s.tasks t).pc = .connected)
      (htoken : opts.token? = some token) : Sends s (.resume t) (.task t) (.auth token)
  | watch {t : ℕ} (key : String) (ns : Option String) (hpc : s.Behind opts t) :
      Sends s (.resume t) (.task t) (.watch key ns)

/-- What a step does to the requests. -/
inductive Ledger (s : State) : Action → State → Prop
  | kept {a : Action} {t : State} (ha : a.ends = false) (hset : s.Settles t)
      (hinbox : t.inbox = s.inbox) : Ledger s a t
  | lost {a : Action} {t : State} (ha : a.ends = true) (hset : s.Settles t)
      (hinbox : t.inbox = { s.inbox with
        recvBuf := []
        inflight := if s.socket.isSome then [] else s.inflight }) : Ledger s a t
  | read {a : Action} {t : State} (ha : a.reads = true) (hset : s.Settles t) : Ledger s a t
  | queued {a : Action} {t : State} {req : Request} (ha : a.sends = true)
      (hdestroyed : s.destroyed = false) (hsocket : s.socket = none)
      (hauto : opts.autoReconnect = true) (hadds : s.Adds t .caller req)
      (hqueue : t.offlineQueue = s.offlineQueue ++ [s.nextWaiter]) (hwire : t.wire = s.wire)
      (hinbox : t.inbox = s.inbox) : Ledger s a t
  | sent {a : Action} {t : State} {i : ℕ} {owner : Owner} {req : Request}
      (hsends : Sends opts s a owner req) (hsocket : s.socket = some i)
      (hadds : s.Adds t owner req) (hqueue : t.offlineQueue = s.offlineQueue)
      (hwire : t.wire = s.wire ++ [⟨i, s.nextWaiter, req⟩])
      (hinbox : t.inbox = { s.inbox with inflight := s.inflight ++ [s.nextWaiter] }) :
      Ledger s a t
  | unsent {k : ℕ} {t : State} {token : String} (hpc : (s.tasks k).pc = .connected)
      (htoken : opts.token? = some token) (hsocket : s.socket = none)
      (hadds : s.Adds t (.task k) (.auth token)) (hqueue : t.offlineQueue = s.offlineQueue)
      (hwire : t.wire = s.wire)
      (hinbox : t.inbox = { s.inbox with inflight := s.inflight ++ [s.nextWaiter] }) :
      Ledger s (.resume k) t
  | flushed {k i : ℕ} {t : State} (hpc : (s.tasks k).pc = .rewatched)
      (hsocket : s.socket = some i) (hknows : s.Knows t) (hqueue : t.offlineQueue = [])
      (hwire : t.wire = s.wire ++ s.offlineQueue.map fun w => ⟨i, w, (s.waiters w).request⟩)
      (hinbox : t.inbox = { s.inbox with inflight := s.inflight ++ s.offlineQueue }) :
      Ledger s (.resume k) t

section Inbox

@[simp] theorem inbox_rejectOfflineQueue (err : Err) (s : State) :
    (rejectOfflineQueue err s).inbox = s.inbox := by
  rw [rejectOfflineQueue_eq]
  rfl

@[simp] theorem inbox_scheduleReconnect (s : State) :
    (scheduleReconnect opts s).inbox = s.inbox := by
  unfold scheduleReconnect
  split
  · rfl
  · split
    · simp
    · rfl

@[simp] theorem inbox_close (s : State) : (close s).inbox = s.inbox := by
  have hreject := inbox_rejectOfflineQueue (.error "Client closed.")
    (cancelReconnectTimer { s with destroyed := true })
  unfold close
  dsimp only
  split
  · exact hreject
  · exact hreject

@[simp] theorem inbox_doConnect (created : Bool) (s : State) :
    (doConnect created s).inbox = s.inbox := by
  unfold doConnect
  split
  · rfl
  · split
    · rfl
    · rfl

@[simp] theorem inbox_connect (created : Bool) (s : State) :
    (connect created s).inbox = s.inbox := by
  unfold connect
  split
  · rfl
  · split
    · rfl
    · exact inbox_doConnect created s

@[simp] theorem inbox_setPc (t : ℕ) (pc : Pc) (s : State) : (s.setPc t pc).inbox = s.inbox :=
  rfl

@[simp] theorem inbox_settleConnection (i : ℕ) (pc : Pc) (s : State) :
    (settleConnection i pc s).inbox = s.inbox := by
  unfold settleConnection
  split
  · rfl
  · rfl

@[simp] theorem inbox_connectFailed (s : State) : (connectFailed opts s).inbox = s.inbox := by
  unfold connectFailed
  dsimp only
  split
  · exact inbox_scheduleReconnect opts _
  · exact inbox_rejectOfflineQueue _ _

theorem inbox_handleDisconnect {s : State} (h : WaiterInv s) (err : Err) :
    (handleDisconnect opts err s).inbox = { s.inbox with
      recvBuf := []
      inflight := if s.socket.isSome then [] else s.inflight } := by
  rw [handleDisconnect_eq opts h.inflight]
  cases hs : s.socket with
  | none => simp [State.inbox]
  | some i =>
      simp only [Option.isNone_some, Option.isSome_some, if_true]
      split
      · simp at *
      · split
        · rw [inbox_scheduleReconnect]
          rfl
        · rw [inbox_rejectOfflineQueue]
          rfl

end Inbox

section Writing

/-- A new frame is written on the stored socket. -/
theorem writeNew_adds (s : State) (owner : Owner) (req : Request) :
    s.Adds (writeInflight opts req s.nextWaiter (s.newWaiter none owner req)).1 owner req := by
  have heq := writeInflight_eq opts req s.nextWaiter (s.newWaiter none owner req)
  have hself : ∃ armed, (writeInflight opts req s.nextWaiter
      (s.newWaiter none owner req)).1.waiters s.nextWaiter =
        ⟨none, armed, false, owner, req, []⟩ := by
    rw [heq]
    dsimp only
    split
    · exact ⟨false, by simp [State.newWaiter]⟩
    · exact ⟨true, by simp [State.newWaiter]⟩
  obtain ⟨armed, hself⟩ := hself
  refine ⟨?_, ?_, ?_, ?_, ?_, fun w hw => ?_⟩
  · rw [heq]
    rfl
  · rw [hself]
  · rw [hself]
  · rw [hself]
  · rw [hself]
  · rw [heq]
    dsimp only
    split
    · simp [State.newWaiter, hw]
    · simp [State.newWaiter, hw]

theorem State.Adds.congr {s s' t t' : State} {owner : Owner} {req : Request}
    (h : s.Adds t owner req) (hs : s'.waiters = s.waiters) (hs' : s'.nextWaiter = s.nextWaiter)
    (ht : t'.waiters = t.waiters) (ht' : t'.nextWaiter = t.nextWaiter) :
    s'.Adds t' owner req := by
  obtain ⟨hnext, howner, hreq, hsettled, hout, hothers⟩ := h
  rw [← hs', ← ht] at howner hreq hsettled hout
  refine ⟨?_, howner, hreq, hsettled, hout, fun w hw => ?_⟩
  · rw [ht', hnext, hs']
  · rw [ht, hs, hothers w (hs' ▸ hw)]

theorem writeNew_queue (s : State) (owner : Owner) (req : Request) :
    (writeInflight opts req s.nextWaiter (s.newWaiter none owner req)).1.offlineQueue =
      s.offlineQueue := by
  rw [writeInflight_eq]
  rfl

theorem writeNew_inbox (s : State) (owner : Owner) (req : Request) :
    (writeInflight opts req s.nextWaiter (s.newWaiter none owner req)).1.inbox =
      { s.inbox with inflight := s.inflight ++ [s.nextWaiter] } := by
  rw [writeInflight_eq]
  rfl

theorem writeNew_wire {s : State} {i : ℕ} (hsocket : s.socket = some i) (owner : Owner)
    (req : Request) :
    (writeInflight opts req s.nextWaiter (s.newWaiter none owner req)).1.wire =
      s.wire ++ [⟨i, s.nextWaiter, req⟩] := by
  rw [writeInflight_eq]
  simp [State.newWaiter, hsocket]

theorem writeNew_wire_of_none {s : State} (hsocket : s.socket = none) (owner : Owner)
    (req : Request) :
    (writeInflight opts req s.nextWaiter (s.newWaiter none owner req)).1.wire = s.wire := by
  rw [writeInflight_eq]
  simp [State.newWaiter, hsocket]

/-- A request is sent, perhaps after the watches were changed. -/
theorem send_ledger (s : State) {a : Action} (ha : a.sends = true) (req : Request)
    (watches : List WatchEntry) (n : ℕ) :
    Ledger opts s a (send opts req { s with watchCallbacks := watches, nextWatch := n }) := by
  unfold send
  split
  · exact .kept (Action.not_ends ha) (State.Settles.of_eq rfl) rfl
  · next hdestroyed =>
      have hopen : s.destroyed = false := eq_false_of_ne_true hdestroyed
      split
      · next hsocket =>
          have hnone : s.socket = none := hsocket
          split
          · next hauto =>
              have hadds : s.Adds (s.newWaiter (some req) .caller req) .caller req := by
                refine ⟨rfl, ?_, ?_, ?_, ?_, fun w hw => ?_⟩
                · simp [State.newWaiter]
                · simp [State.newWaiter]
                · simp [State.newWaiter]
                · simp [State.newWaiter]
                · simp [State.newWaiter, hw]
              exact .queued ha hopen hnone hauto (hadds.congr rfl rfl rfl rfl) rfl rfl rfl
          · exact .kept (Action.not_ends ha) (State.Settles.of_eq rfl) rfl
      · next i hsocket =>
          have hsome : s.socket = some i := hsocket
          let u : State := { s with watchCallbacks := watches, nextWatch := n }
          exact .sent (.call req ha hopen) hsome
            ((writeNew_adds opts u _ _).congr rfl rfl rfl rfl) (writeNew_queue opts u _ _)
              (writeNew_wire opts (s := u) hsocket _ _) (writeNew_inbox opts u _ _)

theorem watch_ledger (s : State) (key : String) (ns : Option String) (callback : ℕ) :
    Ledger opts s (.watch key ns callback) (watch opts key ns callback s) := by
  unfold watch setCallback
  dsimp only
  split
  · exact send_ledger opts s rfl _ _ s.nextWatch
  · exact send_ledger opts s rfl _ _ _

theorem unwatch_ledger (s : State) (key : String) (ns : Option String) :
    Ledger opts s (.unwatch key ns) (unwatch opts key ns s) := by
  unfold unwatch
  dsimp only
  split
  · exact .kept rfl (State.Settles.of_eq rfl) rfl
  · exact send_ledger opts s rfl _ _ s.nextWatch

/-- The next watch is registered, or none is left. -/
theorem reRegisterWatches_ledger {s : State} {k : ℕ} (hpc : s.Behind opts k) (pos n : ℕ) :
    Ledger opts s (.resume k)
      (reRegisterWatches opts k pos { s with reconnectAttempts := n }) := by
  unfold reRegisterWatches
  split
  · next e i _ hsocket =>
      have hsome : s.socket = some i := hsocket
      exact .sent (.watch e.key e.ns hpc) hsome
        ((writeNew_adds opts { s with reconnectAttempts := n } _ _).congr rfl rfl rfl rfl)
          (writeNew_queue opts { s with reconnectAttempts := n } _ _)
            (writeNew_wire opts (s := { s with reconnectAttempts := n }) hsocket _ _)
              (writeNew_inbox opts { s with reconnectAttempts := n } _ _)
  · exact .kept rfl (State.Settles.of_eq rfl) rfl

theorem connected_ledger {s : State} {k : ℕ} (hpc : (s.tasks k).pc = .connected) :
    Ledger opts s (.resume k) (connected opts k s) := by
  unfold connected
  dsimp only
  split
  · next htoken => exact reRegisterWatches_ledger opts (Or.inl ⟨hpc, htoken⟩) 0 0
  · next token htoken =>
      have hadds : s.Adds _ (.task k) (.auth token) :=
        (writeNew_adds opts { s with reconnectAttempts := 0 } (.task k) (.auth token)).congr
          rfl rfl rfl rfl
      have hqueue := writeNew_queue opts { s with reconnectAttempts := 0 } (.task k)
        (.auth token)
      have hinbox := writeNew_inbox opts { s with reconnectAttempts := 0 } (.task k)
        (.auth token)
      rcases Option.eq_none_or_eq_some s.socket with hsocket | ⟨i, hsocket⟩
      · exact .unsent hpc htoken hsocket (hadds.congr rfl rfl rfl rfl) hqueue
          (writeNew_wire_of_none opts (s := { s with reconnectAttempts := 0 }) hsocket _ _)
            hinbox
      · exact .sent (.auth hpc htoken) hsocket (hadds.congr rfl rfl rfl rfl) hqueue
          (writeNew_wire opts (s := { s with reconnectAttempts := 0 }) hsocket _ _) hinbox

/-- One queued request is sent. -/
theorem flushWaiter_eq {s : State} {w i : ℕ} {req : Request} (hsocket : s.socket = some i)
    (hframe : (s.waiters w).frame = some req) :
    s.Knows (flushWaiter opts s w) ∧
      (∀ v, v ≠ w → (flushWaiter opts s w).waiters v = s.waiters v) ∧
        (flushWaiter opts s w).offlineQueue = s.offlineQueue ∧
          (flushWaiter opts s w).wire = s.wire ++ [⟨i, w, req⟩] ∧
            (flushWaiter opts s w).inbox = { s.inbox with inflight := s.inflight ++ [w] } := by
  have heq : flushWaiter opts s w =
      (writeInflight opts req w (s.updateWaiter w Waiter.takeFrame)).1 := by
    unfold flushWaiter
    rw [hframe]
  have hother : ∀ v, v ≠ w → (flushWaiter opts s w).waiters v = s.waiters v := by
    intro v hv
    rw [heq, writeInflight_eq]
    dsimp only
    split
    · simp [State.updateWaiter, hv]
    · simp [State.updateWaiter, hv]
  have hself : ∃ armed, (flushWaiter opts s w).waiters w =
      { s.waiters w with frame := none, armed := armed } := by
    rw [heq, writeInflight_eq]
    dsimp only
    split
    · exact ⟨(s.waiters w).armed, by simp [State.updateWaiter, Waiter.takeFrame]⟩
    · exact ⟨true, by simp [State.updateWaiter, Waiter.takeFrame]⟩
  obtain ⟨armed, hself⟩ := hself
  refine ⟨⟨?_, fun v => ?_, fun v => ?_, fun v => ?_, fun v => ?_⟩, hother, ?_, ?_, ?_⟩
  · rw [heq, writeInflight_eq]
    rfl
  · by_cases hv : v = w
    · rw [hv, hself]
    · rw [hother v hv]
  · by_cases hv : v = w
    · rw [hv, hself]
    · rw [hother v hv]
  · by_cases hv : v = w
    · rw [hv, hself]
    · rw [hother v hv]
  · by_cases hv : v = w
    · rw [hv, hself]
    · rw [hother v hv]
  · rw [heq, writeInflight_eq]
    rfl
  · rw [heq, writeInflight_eq]
    simp [State.updateWaiter, hsocket]
  · rw [heq, writeInflight_eq]
    rfl

theorem State.Knows.trans {s t u : State} (h : s.Knows t) (h' : t.Knows u) : s.Knows u where
  nextWaiter := h'.nextWaiter.trans h.nextWaiter
  owner w := (h'.owner w).trans (h.owner w)
  request w := (h'.request w).trans (h.request w)
  settled w := (h'.settled w).trans (h.settled w)
  outcomes w := (h'.outcomes w).trans (h.outcomes w)

/-- The whole queue is sent, in its order. -/
theorem flush_ledger {i : ℕ} (ws : List ℕ) {s : State} (hsocket : s.socket = some i)
    (hframe : ∀ w ∈ ws, (s.waiters w).frame = some (s.waiters w).request) (hnodup : ws.Nodup) :
    s.Knows (ws.foldl (flushWaiter opts) s) ∧
      (ws.foldl (flushWaiter opts) s).offlineQueue = s.offlineQueue ∧
        (ws.foldl (flushWaiter opts) s).wire =
          s.wire ++ ws.map (fun w => ⟨i, w, (s.waiters w).request⟩) ∧
          (ws.foldl (flushWaiter opts) s).inbox =
            { s.inbox with inflight := s.inflight ++ ws } := by
  induction ws generalizing s with
  | nil => exact ⟨⟨rfl, fun _ => rfl, fun _ => rfl, fun _ => rfl, fun _ => rfl⟩, rfl,
      by simp, by simp [State.inbox]⟩
  | cons w ws ih =>
      obtain ⟨hknows, hother, hqueue, hwire, hinbox⟩ := flushWaiter_eq opts hsocket
        (hframe w List.mem_cons_self)
      obtain ⟨hnot, hrest⟩ := List.nodup_cons.mp hnodup
      have hsocket' : (flushWaiter opts s w).socket = some i :=
        (congrArg Link.socket (link_flushWaiter opts s w)).trans hsocket
      have hframe' : ∀ v ∈ ws, ((flushWaiter opts s w).waiters v).frame =
          some ((flushWaiter opts s w).waiters v).request := fun v hv => by
        rw [hother v fun he => hnot (he ▸ hv)]
        exact hframe v (List.mem_cons_of_mem _ hv)
      obtain ⟨hknows', hqueue', hwire', hinbox'⟩ := ih hsocket' hframe' hrest
      have hin : (flushWaiter opts s w).inflight = s.inflight ++ [w] :=
        congrArg Inbox.inflight hinbox
      refine ⟨hknows.trans hknows', hqueue'.trans hqueue, ?_, ?_⟩
      · rw [List.foldl_cons, hwire', hwire, List.append_assoc]
        congr 1
        simp [hknows.request]
      · rw [List.foldl_cons, hinbox', hinbox, hin, List.append_assoc]
        rfl

/-- A queued request has its frame. -/
theorem WaiterInv.frame_of_queued {s : State} (h : WaiterInv s) {w : ℕ}
    (hw : w ∈ s.offlineQueue) : (s.waiters w).frame = some (s.waiters w).request := by
  obtain ⟨req, hreq⟩ := Option.isSome_iff_exists.mp (h.queued w hw).1
  rw [hreq, h.own w req hreq]

/-- Without a socket nothing is flushed, and with one everything. -/
theorem flushOfflineQueue_queue {s : State} (h : WaiterInv s) :
    s.socket = none ∨ (flushOfflineQueue opts s).offlineQueue = [] := by
  unfold flushOfflineQueue
  split
  · next hnone => exact Or.inl hnone
  · next i hsome =>
      exact Or.inr (flush_ledger opts s.offlineQueue (s := { s with offlineQueue := [] }) hsome
        (fun _ hw => h.frame_of_queued hw) (List.nodup_append.mp h.nodup).2.1).2.1

theorem flushOfflineQueue_ledger {s : State} (h : WaiterInv s) {k : ℕ}
    (hpc : (s.tasks k).pc = .rewatched) :
    Ledger opts s (.resume k) ((flushOfflineQueue opts s).setPc k (.done none)) := by
  unfold flushOfflineQueue
  split
  · exact .kept rfl (State.Settles.of_eq rfl) rfl
  · next i hsocket =>
      obtain ⟨hknows, hqueue, hwire, hinbox⟩ := flush_ledger opts s.offlineQueue
        (s := { s with offlineQueue := [] }) hsocket (fun _ hw => h.frame_of_queued hw)
          (List.nodup_append.mp h.nodup).2.1
      exact .flushed hpc hsocket
        ⟨hknows.nextWaiter, hknows.owner, hknows.request, hknows.settled, hknows.outcomes⟩
          hqueue hwire hinbox

end Writing

section Step

theorem resume_ledger {s t : State} (h : WaiterInv s) {k : ℕ} (hr : resume opts k s = some t) :
    Ledger opts s (.resume k) t := by
  unfold resume at hr
  split at hr
  · cases hr
  · next hpc =>
      cases hr
      exact connected_ledger opts hpc
  · cases hr
    exact .kept rfl ((connectFailed_settles opts s).trans (setPc_settles _ _ _))
      (inbox_connectFailed opts s)
  · next w hpc =>
      split at hr
      · cases hr
      · cases hr
        exact .kept rfl (setPc_settles _ _ _) rfl
      · next r hout =>
          cases hr
          unfold authenticated
          split
          · exact reRegisterWatches_ledger opts (Or.inr (Or.inl ⟨w, hpc, hout⟩)) 0
              s.reconnectAttempts
          · exact .kept rfl ((close_settles s).trans (setPc_settles _ _ _)) (inbox_close s)
          · exact .kept rfl ((close_settles s).trans (setPc_settles _ _ _)) (inbox_close s)
  · cases hr
    exact .kept rfl (setPc_settles _ _ _) rfl
  · cases hr
    exact .kept rfl ((rejectOfflineQueue_settles _ s).trans (setPc_settles _ _ _))
      (inbox_rejectOfflineQueue _ s)
  · next pos w hpc =>
      split at hr
      · cases hr
      · cases hr
        exact .kept rfl (setPc_settles _ _ _) rfl
      · next r hout =>
          cases hr
          exact reRegisterWatches_ledger opts (Or.inr (Or.inr ⟨pos, w, r, hpc, hout⟩)) pos
            s.reconnectAttempts
  · next hpc =>
      cases hr
      exact flushOfflineQueue_ledger opts h hpc
  · cases hr

theorem onError_ledger {s : State} (h : WaiterInv s) (i : ℕ) (e : Err) :
    Ledger opts s (.sockError i e) (onError opts i e s) := by
  have hphase : s.Settles (s.updateSock i fun k => { k with phase := .errored }) :=
    State.Settles.of_eq rfl
  refine .lost rfl ((hphase.trans (handleDisconnect_settles opts (h.settles hphase) e)).trans
    (settleConnection_settles i .failed _)) ?_
  rw [onError, inbox_settleConnection, inbox_handleDisconnect opts (h.settles hphase)]
  rfl

/-- What the steps of a client do to its requests. -/
theorem step_ledger {s t : State} {a : Action} (h : WaiterInv s) (hs : step opts s a = some t) :
    Ledger opts s a t := by
  cases a with
  | connect created =>
      cases hs
      exact .kept rfl (connect_settles created s) (inbox_connect created s)
  | close =>
      cases hs
      exact .kept rfl (close_settles s) (inbox_close s)
  | request req =>
      simp only [step] at hs
      split at hs
      · split at hs
        · cases hs
          exact send_ledger opts s rfl req s.watchCallbacks s.nextWatch
        · cases hs
          exact .kept rfl (State.Settles.refl s) rfl
      · cases hs
  | watch key ns callback =>
      simp only [step] at hs
      split at hs
      · cases hs
        exact watch_ledger opts s key ns callback
      · cases hs
        exact .kept rfl (State.Settles.refl s) rfl
  | unwatch key ns =>
      simp only [step] at hs
      split at hs
      · cases hs
        exact unwatch_ledger opts s key ns
      · cases hs
        exact .kept rfl (State.Settles.refl s) rfl
  | resume k =>
      simp only [step] at hs
      split at hs
      · exact resume_ledger opts h hs
      · cases hs
  | sockConnected i =>
      simp only [step, Option.ite_none_right_eq_some, Option.some.injEq] at hs
      rw [← hs.2]
      have hset : s.Settles { s.updateSock i fun k => { k with phase := .connected } with
          socket := some i } := State.Settles.of_eq rfl
      exact .kept rfl (hset.trans (settleConnection_settles i .connected _))
        (inbox_settleConnection i .connected _)
  | sockData i chunk =>
      simp only [step, Option.ite_none_right_eq_some, Option.some.injEq] at hs
      rw [← hs.2]
      exact .read rfl (State.Settles.of_eq rfl)
  | sockError i e =>
      simp only [step, Option.ite_none_right_eq_some, Option.some.injEq] at hs
      rw [← hs.2]
      exact onError_ledger opts h i e
  | sockClose i =>
      simp only [step, Option.ite_none_right_eq_some, Option.some.injEq] at hs
      rw [← hs.2]
      have hphase : s.Settles (s.updateSock i fun k => { k with phase := .closed }) :=
        State.Settles.of_eq rfl
      refine .lost rfl (hphase.trans
        (handleDisconnect_settles opts (h.settles hphase) _)) ?_
      rw [onClose, inbox_handleDisconnect opts (h.settles hphase)]
      rfl
  | connectTimeout i =>
      simp only [step, Option.ite_none_right_eq_some, Option.some.injEq] at hs
      rw [← hs.2]
      exact .kept rfl (destroySock_settles _ _ s) rfl
  | idleTimeout i =>
      simp only [step, Option.ite_none_right_eq_some, Option.some.injEq] at hs
      rw [← hs.2]
      exact .kept rfl (destroySock_settles _ _ s) rfl
  | requestTimeout w =>
      simp only [step, Option.ite_none_right_eq_some, Option.some.injEq] at hs
      obtain ⟨⟨-, harmed⟩, rfl⟩ := hs
      refine .kept rfl (reject_settles (fun hq => ?_) _) rfl
      rw [(h.queued w hq).2.2] at harmed
      cases harmed
  | reconnectTimer created =>
      simp only [step, Option.ite_none_right_eq_some, Option.some.injEq] at hs
      rw [← hs.2]
      have hfire : s.Settles { s with reconnectTimer := false, reconnecting := false } :=
        State.Settles.of_eq rfl
      exact .kept rfl (hfire.trans (doConnect_settles created _)) (inbox_doConnect created _)
  | round =>
      simp only [step, Option.map_eq_some_iff] at hs
      obtain ⟨i, -, rfl⟩ := hs
      exact .read rfl (onDataRound_settles opts h i)
  | callbackThrow =>
      simp only [step, Option.ite_none_right_eq_some, Option.some.injEq] at hs
      rw [← hs.2]
      exact .read rfl (State.Settles.of_eq rfl)

/-- The requests of the waiters stay, and a new waiter was given nothing. -/
theorem Ledger.waiters {s t : State} {a : Action} (hs : Ledger opts s a t) :
    (∀ w < s.nextWaiter, (t.waiters w).request = (s.waiters w).request) ∧
      ∀ w < t.nextWaiter, s.nextWaiter ≤ w → (t.waiters w).outcomes = [] := by
  have hset : s.Settles t → (∀ w < s.nextWaiter, (t.waiters w).request = (s.waiters w).request) ∧
      ∀ w < t.nextWaiter, s.nextWaiter ≤ w → (t.waiters w).outcomes = [] := fun h =>
    ⟨fun w _ => (h.waiters w).request, fun w hw hle => by
      rw [h.nextWaiter] at hw
      omega⟩
  have hadds : ∀ {owner : Owner} {req : Request}, s.Adds t owner req →
      (∀ w < s.nextWaiter, (t.waiters w).request = (s.waiters w).request) ∧
        ∀ w < t.nextWaiter, s.nextWaiter ≤ w → (t.waiters w).outcomes = [] := fun h =>
    ⟨fun w hw => by rw [h.others w (Nat.ne_of_lt hw)], fun w hw hle => by
      rw [h.nextWaiter] at hw
      obtain rfl : w = s.nextWaiter := by omega
      exact h.outcomes⟩
  cases hs with
  | kept _ h _ => exact hset h
  | lost _ h _ => exact hset h
  | read _ h => exact hset h
  | queued _ _ _ _ h _ _ _ => exact hadds h
  | sent _ _ h _ _ _ => exact hadds h
  | unsent _ _ _ h _ _ _ => exact hadds h
  | flushed _ _ h _ _ _ =>
      refine ⟨fun w _ => h.request w, fun w hw hle => ?_⟩
      rw [h.nextWaiter] at hw
      omega

end Step

end NodeTcp

end DittoClient
