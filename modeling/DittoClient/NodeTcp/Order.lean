import DittoClient.NodeTcp.Ledger
import DittoClient.NodeTcp.Sockets

/-!
# The order of writing

The requests of the callers go to the wire in the order of the calls, if a call finds the
queue empty whenever it finds a socket: the waiters written and queued then stay in the
order in which they were created. Nothing but Auth goes to the wire before AuthOk was
received, if a call that finds a socket finds it authenticated: a run of `doConnect` that
is past Auth writes to the socket on which its AuthOk was received, as long as attempts to
connect do not overlap.
-/

namespace DittoClient

namespace NodeTcp

open DittoClient.Wire
open DittoClient.Transition

/-- AuthOk was received on a socket. -/
def State.Authed (s : State) (i : ℕ) : Prop :=
  ∃ d ∈ s.received, d.sock = i ∧ decodeResponse d.payload = .ok .authOk

/-- The waiters of the callers whose frames were written, in the order of writing. -/
def State.sends (s : State) : List ℕ :=
  (s.wire.filter fun x => decide ((s.waiters x.waiter).owner = .caller)).map Sent.waiter

/-- The requests are written in the order of the calls, which is the order of their
waiters, and on a connection with a token nothing but Auth is written before AuthOk was
received. -/
structure WritesInOrder (opts : Options) (C : State → Action → Prop) : Prop where
  sends : ∀ s, Reachable (step opts) C State.init s → s.sends.Pairwise (· < ·)
  auth : ∀ s a t new, Reachable (step opts) C State.init s → C s a → step opts s a = some t →
    opts.token?.isSome = true → t.wire = s.wire ++ new →
      ∀ x ∈ new, (∃ token, x.frame = .auth token) ∨ s.Authed x.sock

/-- A call finds no socket, or an authenticated one and an empty queue. -/
def State.Clear (opts : Options) (s : State) : Prop :=
  ∀ i, s.socket = some i → s.destroyed = false →
    s.offlineQueue = [] ∧ (opts.token?.isSome = true → s.Authed i)

/-- Attempts to connect do not overlap, and a call does not overtake the queue or Auth. -/
def SendsClear (opts : Options) (s : State) (a : Action) : Prop :=
  OneAttempt s a ∧ match a with
    | .request req => opts.validate req = true → s.Clear opts
    | .watch key ns _ => opts.validate (.watch key ns) = true → s.Clear opts
    | .unwatch key ns => opts.validate (.unwatch key ns) = true → s.Clear opts
    | _ => True

variable (opts : Options)

section Sends

/-- What is written or queued, in the order of the waiters. -/
structure SendsInv (s : State) : Prop where
  sorted : (s.sends ++ s.offlineQueue).Pairwise (· < ·)
  owner : ∀ w ∈ s.offlineQueue, (s.waiters w).owner = .caller

theorem sends_lt {s : State} (h : WaiterInv s) {w : ℕ} (hw : w ∈ s.sends ++ s.offlineQueue) :
    w < s.nextWaiter := by
  rcases List.mem_append.mp hw with hw | hw
  · obtain ⟨x, hx, rfl⟩ := List.mem_map.mp hw
    exact (h.written x (List.mem_of_mem_filter hx)).1
  · exact h.bound w (List.mem_append_right _ hw)

/-- The waiters written before keep their owners. -/
theorem sends_append {s t : State} {new : List Sent} (hwire : t.wire = s.wire ++ new)
    (howner : ∀ x ∈ s.wire, (t.waiters x.waiter).owner = (s.waiters x.waiter).owner) :
    t.sends = s.sends ++
      (new.filter fun x => decide ((t.waiters x.waiter).owner = .caller)).map Sent.waiter := by
  have hold : (s.wire.filter fun x => decide ((t.waiters x.waiter).owner = .caller)) =
      s.wire.filter fun x => decide ((s.waiters x.waiter).owner = .caller) :=
    List.filter_congr fun x hx => by rw [howner x hx]
  unfold State.sends
  rw [hwire, List.filter_append, hold, List.map_append]

theorem sends_eq {s t : State} (hwire : t.wire = s.wire)
    (howner : ∀ x ∈ s.wire, (t.waiters x.waiter).owner = (s.waiters x.waiter).owner) :
    t.sends = s.sends := by
  have hnil : t.wire = s.wire ++ [] := by rw [hwire, List.append_nil]
  simpa using sends_append hnil howner

theorem SendsInv.settles {s t : State} (h : SendsInv s) (hset : s.Settles t) : SendsInv t where
  sorted := by
    rw [sends_eq hset.wire fun x _ => (hset.waiters x.waiter).owner]
    exact h.sorted.sublist ((List.Sublist.refl _).append hset.offlineQueue)
  owner w hw := by
    rw [(hset.waiters w).owner]
    exact h.owner w (hset.offlineQueue.subset hw)

/-- A step keeps the order, if a caller that writes finds the queue empty. -/
theorem SendsInv.ledger {s t : State} {a : Action} (h : SendsInv s) (hw : WaiterInv s)
    (hs : Ledger opts s a t)
    (hclear : a.sends = true → s.destroyed = false → s.socket.isSome = true →
      s.offlineQueue = []) : SendsInv t := by
  have hadds : ∀ {owner : Owner} {req : Request}, s.Adds t owner req → ∀ v < s.nextWaiter,
      (t.waiters v).owner = (s.waiters v).owner := fun hadds v hv => by
    rw [hadds.others v (Nat.ne_of_lt hv)]
  have hqueued : ∀ v ∈ s.offlineQueue, v < s.nextWaiter := fun v hv =>
    hw.bound v (List.mem_append_right _ hv)
  have hnext : (s.sends ++ s.offlineQueue ++ [s.nextWaiter]).Pairwise (· < ·) := by
    refine List.pairwise_append.mpr ⟨h.sorted, List.pairwise_singleton _ _, fun v hv u hu => ?_⟩
    rw [List.mem_singleton.mp hu]
    exact sends_lt hw hv
  cases hs with
  | kept _ hset _ => exact h.settles hset
  | lost _ hset _ => exact h.settles hset
  | read _ hset => exact h.settles hset
  | queued _ _ _ _ hadd hqueue hwire _ =>
      refine ⟨?_, fun v hv => ?_⟩
      · rw [sends_eq hwire fun x hx => hadds hadd _ (hw.written x hx).1, hqueue,
          ← List.append_assoc]
        exact hnext
      · rw [hqueue] at hv
        rcases List.mem_append.mp hv with hv | hv
        · rw [hadds hadd v (hqueued v hv)]
          exact h.owner v hv
        · rw [List.mem_singleton.mp hv]
          exact hadd.owner
  | sent hsends hsocket hadd hqueue hwire _ =>
      refine ⟨?_, fun v hv => ?_⟩
      · rw [sends_append hwire fun x hx => hadds hadd _ (hw.written x hx).1, hqueue]
        cases hsends with
        | call req ha hd =>
            rw [hclear ha hd (by simp [hsocket])] at hnext ⊢
            simpa [hadd.owner] using hnext
        | auth _ _ => simpa [hadd.owner] using h.sorted
        | watch _ _ _ => simpa [hadd.owner] using h.sorted
      · rw [hqueue] at hv
        rw [hadds hadd v (hqueued v hv)]
        exact h.owner v hv
  | unsent _ _ _ hadd hqueue hwire _ =>
      refine ⟨?_, fun v hv => ?_⟩
      · rw [sends_eq hwire fun x hx => hadds hadd _ (hw.written x hx).1, hqueue]
        exact h.sorted
      · rw [hqueue] at hv
        rw [hadds hadd v (hqueued v hv)]
        exact h.owner v hv
  | @flushed _ i _ _ _ hknows hqueue hwire _ =>
      refine ⟨?_, fun v hv => ?_⟩
      · have hall : ∀ v ∈ s.offlineQueue, (t.waiters v).owner = .caller := fun v hv => by
          rw [hknows.owner]
          exact h.owner v hv
        have hnew : ((s.offlineQueue.map fun v => (⟨i, v, (s.waiters v).request⟩ : Sent)).filter
            fun x => decide ((t.waiters x.waiter).owner = .caller)).map Sent.waiter =
              s.offlineQueue := by
          rw [List.filter_eq_self.mpr]
          · simp [List.map_map, Function.comp_def]
          · intro x hx
            obtain ⟨v, hv, rfl⟩ := List.mem_map.mp hx
            simpa using hall v hv
        rw [sends_append hwire fun x _ => hknows.owner x.waiter, hqueue, hnew, List.append_nil]
        exact h.sorted
      · rw [hqueue] at hv
        cases hv

end Sends

section Resuming

theorem mem_writeNew (s : State) (owner : Owner) (req : Request) :
    s.nextWaiter ∈
      (writeInflight opts req s.nextWaiter (s.newWaiter none owner req)).1.inflight := by
  have hin := congrArg Inbox.inflight (writeNew_inbox opts s owner req)
  exact (congrArg (s.nextWaiter ∈ ·) hin).mpr
    (List.mem_append_right _ (List.mem_singleton.mpr rfl))

/-- Where the registration of the watches leaves a run of `doConnect`. -/
theorem reRegisterWatches_late (k pos n : ℕ) (s : State) :
    ((reRegisterWatches opts k pos { s with reconnectAttempts := n }).tasks k).pc =
        .rewatched ∨
      ∃ p, ((reRegisterWatches opts k pos { s with reconnectAttempts := n }).tasks k).pc =
          .rewatch p s.nextWaiter ∧
        s.nextWaiter ∈
          (reRegisterWatches opts k pos { s with reconnectAttempts := n }).inflight ∧
        s.socket.isSome = true := by
  unfold reRegisterWatches
  split
  · next e i _ hsocket =>
      refine Or.inr ⟨e.index + 1, by simp [State.setPc], ?_, ?_⟩
      · exact mem_writeNew opts { s with reconnectAttempts := n } _ _
      · have hsome : s.socket = some i := hsocket
        simp [hsome]
  · exact Or.inl (by simp [State.setPc])

/-- Where a run of `doConnect` stands when it was resumed. -/
structure Resumed (s : State) (k : ℕ) (t : State) : Prop where
  auth : ∀ w, (t.tasks k).pc = .auth w → w = s.nextWaiter ∧ w ∈ t.inflight ∧
    s.socket.isSome = true
  rewatch : ∀ pos w, (t.tasks k).pc = .rewatch pos w → s.Behind opts k ∧ w = s.nextWaiter ∧
    w ∈ t.inflight ∧ s.socket.isSome = true
  rewatched : (t.tasks k).pc = .rewatched → s.Behind opts k

theorem resumed_done {s t : State} {k : ℕ} {pc : Pc} (hpc : (t.tasks k).pc = pc)
    (hauth : ∀ w, pc ≠ .auth w) (hrewatch : ∀ pos w, pc ≠ .rewatch pos w)
    (hrewatched : pc ≠ .rewatched) : Resumed opts s k t where
  auth w hw := absurd (hpc.symm.trans hw) (hauth w)
  rewatch pos w hw := absurd (hpc.symm.trans hw) (hrewatch pos w)
  rewatched hw := absurd (hpc.symm.trans hw) hrewatched

theorem resumed_reRegister {s : State} {k : ℕ} (hbehind : s.Behind opts k) (pos n : ℕ) :
    Resumed opts s k (reRegisterWatches opts k pos { s with reconnectAttempts := n }) := by
  rcases reRegisterWatches_late opts k pos n s with hpc | ⟨p, hpc, hin, hsocket⟩
  · refine ⟨fun w hw => ?_, fun pos w hw => ?_, fun _ => hbehind⟩
    · rw [hpc] at hw
      cases hw
    · rw [hpc] at hw
      cases hw
  · refine ⟨fun w hw => ?_, fun pos w hw => ?_, fun hw => ?_⟩
    · rw [hpc] at hw
      cases hw
    · rw [hpc] at hw
      cases hw
      exact ⟨hbehind, rfl, hin, hsocket⟩
    · rw [hpc] at hw
      cases hw

theorem resumed_connected {s : State} {k : ℕ} (hpc : (s.tasks k).pc = .connected) :
    Resumed opts s k (connected opts k s) := by
  unfold connected
  dsimp only
  split
  · next htoken => exact resumed_reRegister opts (Or.inl ⟨hpc, htoken⟩) 0 0
  · next token _ =>
      rcases Option.eq_none_or_eq_some s.socket with hsocket | ⟨i, hsocket⟩
      · refine @resumed_done opts s _ k .authThrew ?_ (by simp) (by simp) (by simp)
        rw [writeInflight_threw]
        simp [State.setPc, State.newWaiter, hsocket]
      · -- the write does not throw, since there is a socket
        have hpc' : ∀ u : State, ((u.setPc k (if (writeInflight opts (.auth token) s.nextWaiter
            (({ s with reconnectAttempts := 0 } : State).newWaiter none (.task k)
              (.auth token))).2 then .authThrew else .auth s.nextWaiter)).tasks k).pc =
              .auth s.nextWaiter := by
          intro u
          rw [writeInflight_threw]
          simp [State.setPc, State.newWaiter, hsocket]
        have hafter := hpc' (writeInflight opts (.auth token) s.nextWaiter
          (({ s with reconnectAttempts := 0 } : State).newWaiter none (.task k) (.auth token))).1
        refine ⟨fun w hw => ?_, fun pos w hw => ?_, fun hw => ?_⟩
        · cases hafter.symm.trans hw
          exact ⟨rfl, mem_writeNew opts { s with reconnectAttempts := 0 } _ _, by simp [hsocket]⟩
        · cases hafter.symm.trans hw
        · cases hafter.symm.trans hw

theorem resume_resumed {s t : State} {k : ℕ} (hr : resume opts k s = some t) :
    Resumed opts s k t := by
  have hdone : ∀ {u : State} {pc : Pc}, pc.late = false → Resumed opts s k (u.setPc k pc) := by
    intro u pc hlate
    refine resumed_done opts (by simp [State.setPc] : ((u.setPc k pc).tasks k).pc = pc) ?_ ?_ ?_
    · intro w he
      rw [he] at hlate
      cases hlate
    · intro pos w he
      rw [he] at hlate
      cases hlate
    · intro he
      rw [he] at hlate
      cases hlate
  unfold resume at hr
  split at hr
  · cases hr
  · next hpc =>
      cases hr
      exact resumed_connected opts hpc
  · cases hr
    exact hdone rfl
  · next w hpc =>
      split at hr
      · cases hr
      · cases hr
        exact hdone rfl
      · next r hout =>
          cases hr
          unfold authenticated
          split
          · exact resumed_reRegister opts (Or.inr (Or.inl ⟨w, hpc, hout⟩)) 0
              s.reconnectAttempts
          · exact hdone rfl
          · exact hdone rfl
  · cases hr
    exact hdone rfl
  · cases hr
    exact hdone rfl
  · next pos w hpc =>
      split at hr
      · cases hr
      · cases hr
        exact hdone rfl
      · next r hout =>
          cases hr
          exact resumed_reRegister opts (Or.inr (Or.inr ⟨pos, w, r, hpc, hout⟩)) pos
            s.reconnectAttempts
  · cases hr
    exact hdone rfl
  · cases hr

end Resuming

section Links

/-- Whether a run of `doConnect` waits for a reply, or is behind the registration. -/
def Pc.waits : Pc → Bool
  | .auth _ => true
  | .rewatch _ _ => true
  | .rewatched => true
  | _ => false

variable {l l' : Link} {a : Action}

/-- Where a run of `doConnect` begins. -/
def Link.firstPc (l : Link) (created : Bool) : Pc :=
  if l.destroyed then .done none else if created then .connecting l.nextSock else .failed

/-- Where a step takes a run of `doConnect`: it stays, is resumed, begins, or learns what became of
its socket. -/
inductive Link.Moves (l l' : Link) (k : ℕ) (a : Action) : Prop
  | stays (hpc : (l'.tasks k).pc = (l.tasks k).pc)
  | resumed (ha : a = .resume k) (hto : (l'.tasks k).pc.attempting = false)
  | begun {created : Bool} (hnew : k = l.nextTask) (hnext : l'.nextTask = l.nextTask + 1)
      (ha : a = .connect created ∨ l.reconnectTimer = true ∧ a = .reconnectTimer created)
      (hpc : (l'.tasks k).pc = l.firstPc created)
  | connected {i : ℕ} (ha : a = .sockConnected i) (hfrom : (l.tasks k).pc = .connecting i)
      (hpc : (l'.tasks k).pc = .connected)
  | failed {i : ℕ} {e : Err} (ha : a = .sockError i e) (hfrom : (l.tasks k).pc = .connecting i)
      (hpc : (l'.tasks k).pc = .failed)

section Moving

variable {m : Link} {k : ℕ}

theorem moves_settled (htasks : m.tasks = l.tasks) {i : ℕ} {pc : Pc}
    (hanswer : (l.tasks k).pc = .connecting i → ((m.settled i pc).tasks k).pc = pc →
      l.Moves (m.settled i pc) k a) : l.Moves (m.settled i pc) k a := by
  by_cases hk : (m.tasks (m.socks i).task).pc = .connecting i ∧ k = (m.socks i).task
  · obtain ⟨hpc, rfl⟩ := hk
    exact hanswer (htasks ▸ hpc) (by simp [Link.settled, hpc, Link.setPc])
  · refine .stays ?_
    unfold Link.settled
    split
    · next hpc =>
        have hne : k ≠ (m.socks i).task := fun he => hk ⟨hpc, he⟩
        simp [Link.setPc, hne, htasks]
    · rw [htasks]

theorem moves_setPc (htasks : m.tasks = l.tasks) {j : ℕ} {pc : Pc} (hto : pc.attempting = false) :
    l.Moves (m.setPc j pc) k (.resume j) := by
  by_cases hk : k = j
  · exact .resumed (by rw [hk]) (by simp [Link.setPc, hk, hto])
  · exact .stays (by simp [Link.setPc, hk, htasks])

theorem moves_dialed (htasks : m.tasks = l.tasks) (hnext : m.nextTask = l.nextTask)
    (hsock : m.nextSock = l.nextSock) (hdestroyed : m.destroyed = l.destroyed) {created : Bool}
    (ha : a = .connect created ∨ l.reconnectTimer = true ∧ a = .reconnectTimer created) :
    l.Moves (m.dialed created) k a := by
  by_cases hk : k = l.nextTask
  · refine .begun hk ?_ ha ?_
    · unfold Link.dialed
      split
      · rw [hnext]
      · split
        · rw [hnext]
        · rw [hnext]
    · rw [Link.firstPc, ← hdestroyed, ← hsock, hk, ← hnext]
      unfold Link.dialed
      split
      · simp
      · split
        · simp
        · simp
  · refine .stays ?_
    have hne : k ≠ m.nextTask := hnext ▸ hk
    unfold Link.dialed
    split
    · simp [hne, htasks]
    · split
      · simp [hne, htasks]
      · simp [hne, htasks]

theorem Link.Step.moves (hs : Link.Step l a l') (k : ℕ) : l.Moves l' k a := by
  cases hs with
  | same => exact .stays rfl
  | connect created _ _ => exact moves_dialed rfl rfl rfl rfl (Or.inl rfl)
  | close => exact .stays rfl
  | goOn _ hto => exact moves_setPc rfl hto
  | failed _ _ => exact moves_setPc (by rfl) (by rfl)
  | refused _ _ => exact moves_setPc (by rfl) (by rfl)
  | sockConnected _ => exact moves_settled (by rfl) fun hfrom hpc => .connected rfl hfrom hpc
  | sockError _ _ => exact moves_settled (by rfl) fun hfrom hpc => .failed rfl hfrom hpc
  | sockClose _ _ => exact .stays rfl
  | destroySock a e _ => exact .stays rfl
  | reconnectTimer created htimer =>
      exact moves_dialed (by rfl) (by rfl) (by rfl) (by rfl) (Or.inr ⟨htimer, rfl⟩)

end Moving

/-- Whether a run of `doConnect` comes there without being resumed, or is over. -/
def Pc.starts : Pc → Bool
  | .connecting _ => true
  | .connected => true
  | .failed => true
  | .done _ => true
  | _ => false

theorem Pc.not_starts_of_waits {pc : Pc} (h : pc.waits = true) : pc.starts = false := by
  cases pc <;> first | rfl | cases h

theorem firstPc_starts (l : Link) (created : Bool) : (l.firstPc created).starts = true := by
  unfold Link.firstPc
  split
  · rfl
  · split
    · rfl
    · rfl

/-- Only a run that is resumed comes further. -/
theorem Link.Step.pc_kept (hs : Link.Step l a l') {k : ℕ} (hk : a ≠ .resume k)
    (hpc : ((l'.tasks k).pc).starts = false) : (l'.tasks k).pc = (l.tasks k).pc := by
  have hnot : ∀ {pc : Pc}, pc.starts = true → (l'.tasks k).pc ≠ pc := fun hstarts he => by
    rw [he, hstarts] at hpc
    cases hpc
  cases hs.moves k with
  | stays hpc => exact hpc
  | resumed ha _ => exact absurd ha hk
  | begun _ _ _ hpc => exact absurd hpc (hnot (firstPc_starts _ _))
  | connected _ _ hpc => exact absurd hpc (hnot rfl)
  | failed _ _ hpc => exact absurd hpc (hnot rfl)

/-- A socket is stored when it is connected, and at no other time. -/
theorem Link.Step.socket_some (hs : Link.Step l a l') {i : ℕ} (h : l'.socket = some i) :
    l.socket = some i ∨ a = .sockConnected i := by
  cases hs with
  | same => exact Or.inl h
  | connect created _ _ =>
      rw [Link.dialed_socket] at h
      exact Or.inl h
  | close => cases h
  | goOn _ _ => exact Or.inl h
  | failed _ _ => cases h
  | refused _ _ => cases h
  | sockConnected _ =>
      rw [Link.settled_eq] at h
      cases h
      exact Or.inr rfl
  | sockError _ _ =>
      rw [Link.settled_eq] at h
      cases h
  | sockClose _ _ => cases h
  | destroySock a e _ => exact Or.inl h
  | reconnectTimer created _ =>
      rw [Link.dialed_socket] at h
      exact Or.inl h

/-- A client that is closed and does not connect. -/
def Link.Idle (l : Link) : Prop :=
  l.destroyed = true ∧ ∀ t, (l.tasks t).pc.attempting = false

/-- A client that is closed stays so. -/
theorem Link.Step.destroyed (hs : Link.Step l a l') (h : l.destroyed = true) :
    l'.destroyed = true := by
  cases hs with
  | same => exact h
  | connect created _ _ => rw [Link.dialed_destroyed, h]
  | close => rfl
  | goOn _ _ => exact h
  | failed _ _ => exact h
  | refused _ _ => rfl
  | sockConnected _ => rw [Link.settled_destroyed]; exact h
  | sockError _ _ => rw [Link.settled_destroyed]; exact h
  | sockClose _ _ => exact h
  | destroySock a e _ => exact h
  | reconnectTimer created _ => rw [Link.dialed_destroyed]; exact h

theorem Link.Step.idle (hs : Link.Step l a l') (h : l.Idle) : l'.Idle := by
  refine ⟨hs.destroyed h.1, fun k => ?_⟩
  have hnot : ∀ {i : ℕ}, (l.tasks k).pc ≠ .connecting i := fun hfrom => by
    have hattempt := h.2 k
    rw [hfrom] at hattempt
    cases hattempt
  cases hs.moves k with
  | stays hpc => exact hpc ▸ h.2 k
  | resumed _ hto => exact hto
  | begun _ _ _ hpc =>
      rw [hpc, Link.firstPc, if_pos h.1]
      rfl
  | connected _ hfrom _ => exact absurd hfrom hnot
  | failed _ hfrom _ => exact absurd hfrom hnot

/-- A stored socket is given up by the events that end it, or by closing the client. -/
theorem Link.Step.socket_none {st : Stage} (hs : Link.Step l a l') (hl : Lifecycle l st)
    (h : l.socket.isSome = true) (h' : l'.socket = none) : a.ends = true ∨ l'.Idle := by
  have hkeep : l'.socket = l.socket → a.ends = true ∨ l'.Idle := fun he => by
    rw [← he, h'] at h
    cases h
  have hnone : ∀ t, (l.tasks t).pc.attempting = false := by
    refine hl.not_attempting ?_
    cases st with
    | opened i => rfl
    | _ =>
        rw [hl.socket] at h
        cases h
  cases hs with
  | same => exact hkeep rfl
  | connect created _ _ => exact hkeep (Link.dialed_socket _ _)
  | close => exact Or.inr ⟨rfl, hnone⟩
  | goOn _ _ => exact hkeep rfl
  | @failed t _ hpc _ =>
      have hattempt := hnone t
      rw [hpc] at hattempt
      cases hattempt
  | @refused t w e hpc =>
      refine Or.inr ⟨rfl, fun k => ?_⟩
      by_cases hk : k = t
      · simp [Link.setPc, hk, Pc.attempting]
      · simpa [Link.setPc, Link.closed, hk] using hnone k
  | sockConnected _ =>
      rw [Link.settled_eq] at h'
      cases h'
  | sockError _ _ => exact Or.inl rfl
  | sockClose _ _ => exact Or.inl rfl
  | destroySock a e _ => exact hkeep rfl
  | reconnectTimer created _ =>
      exact hkeep (Link.dialed_socket { l with reconnectTimer := false, reconnecting := false } _)

end Links

section Received

theorem handlePayload_received (i : ℕ) (payload : List UInt8) (s : State) :
    ∃ d : Delivery, d.sock = i ∧
      (handlePayload i payload s).received = s.received ++ [d] := by
  have hshift : ∀ o, ∃ d : Delivery, d.sock = i ∧
      (shiftWaiter i payload o s).received = s.received ++ [d] := by
    intro o
    unfold shiftWaiter
    split
    · exact ⟨_, rfl, rfl⟩
    · exact ⟨_, rfl, rfl⟩
  unfold handlePayload
  split
  · exact hshift _
  · exact ⟨_, rfl, rfl⟩
  · exact hshift _

/-- A round of `onData` receives from the socket whose data is handled. -/
theorem onDataRound_received (i : ℕ) (s : State) :
    ∀ d ∈ (onDataRound opts i s).received.drop s.received.length, d.sock = i := by
  have hsame : ∀ u : State, u.received = s.received →
      ∀ d ∈ u.received.drop s.received.length, d.sock = i := by
    intro u hu d hd
    rw [hu, List.drop_length] at hd
    cases hd
  unfold onDataRound
  dsimp only
  split
  · exact hsame _ rfl
  · generalize Err.error _ = e
    split
    · split
      · exact hsame _ rfl
      · exact hsame _ rfl
    · split
      · exact hsame _ rfl
      · intro d hd
        obtain ⟨d', hd', hreceived⟩ := handlePayload_received i
          ((s.recvBuf.drop 4).take (Octets.ofBigEndian (s.recvBuf.take 4)))
            { s with recvBuf := s.recvBuf.drop (4 + Octets.ofBigEndian (s.recvBuf.take 4)) }
        rw [hreceived, List.drop_left] at hd
        rw [List.mem_singleton.mp hd]
        exact hd'

theorem handlePayload_parsing (i : ℕ) (payload : List UInt8) (s : State) :
    (handlePayload i payload s).parsing = s.parsing := by
  have hshift : ∀ o, (shiftWaiter i payload o s).parsing = s.parsing := by
    intro o
    unfold shiftWaiter
    split
    · rfl
    · rfl
  unfold handlePayload
  split
  · exact hshift _
  · rfl
  · exact hshift _

theorem onDataRound_parsing (i : ℕ) (s : State) :
    (onDataRound opts i s).parsing = none ∨ (onDataRound opts i s).parsing = s.parsing := by
  unfold onDataRound
  dsimp only
  split
  · exact Or.inl rfl
  · generalize Err.error _ = e
    split
    · split
      · exact Or.inl rfl
      · exact Or.inl rfl
    · split
      · exact Or.inl rfl
      · exact Or.inr (handlePayload_parsing i _ _)

variable {s t : State} {a : Action}

/-- What `onData` works on in a step that does not read. -/
theorem Ledger.inbox_eq (hs : Ledger opts s a t) (ha : a.reads = false) :
    t.received = s.received ∧ t.parsing = s.parsing := by
  cases hs with
  | kept _ _ hinbox => exact ⟨congrArg Inbox.received hinbox, congrArg Inbox.parsing hinbox⟩
  | lost _ _ hinbox => exact ⟨congrArg Inbox.received hinbox, congrArg Inbox.parsing hinbox⟩
  | read hreads _ =>
      rw [ha] at hreads
      cases hreads
  | queued _ _ _ _ _ _ _ hinbox =>
      exact ⟨congrArg Inbox.received hinbox, congrArg Inbox.parsing hinbox⟩
  | sent _ _ _ _ _ hinbox =>
      exact ⟨congrArg Inbox.received hinbox, congrArg Inbox.parsing hinbox⟩
  | unsent _ _ _ _ _ _ hinbox =>
      exact ⟨congrArg Inbox.received hinbox, congrArg Inbox.parsing hinbox⟩
  | flushed _ _ _ _ _ hinbox =>
      exact ⟨congrArg Inbox.received hinbox, congrArg Inbox.parsing hinbox⟩

/-- What was received stays, and is received from the socket whose data is handled. -/
theorem step_received (hw : WaiterInv s) (hs : step opts s a = some t) :
    s.received <+: t.received ∧
      ∀ d ∈ t.received.drop s.received.length, s.parsing = some d.sock := by
  have hledger := step_ledger opts hw hs
  cases hreads : a.reads with
  | false =>
      obtain ⟨hreceived, -⟩ := hledger.inbox_eq opts hreads
      rw [hreceived, List.drop_length]
      exact ⟨List.prefix_refl _, fun d hd => by cases hd⟩
  | true =>
      have hsame : t.received = s.received → s.received <+: t.received := fun h => by
        simp only [h, List.prefix_refl]
      refine ⟨?_, ?_⟩
      · cases hledger with
        | read _ hset => exact hset.received
        | kept _ hset _ => exact hset.received
        | lost _ hset _ => exact hset.received
        | queued _ _ _ _ _ _ _ hinbox => exact hsame (congrArg Inbox.received hinbox)
        | sent _ _ _ _ _ hinbox => exact hsame (congrArg Inbox.received hinbox)
        | unsent _ _ _ _ _ _ hinbox => exact hsame (congrArg Inbox.received hinbox)
        | flushed _ _ _ _ _ hinbox => exact hsame (congrArg Inbox.received hinbox)
      · cases a with
        | sockData i chunk =>
            simp only [step, Option.ite_none_right_eq_some, Option.some.injEq] at hs
            rw [← hs.2]
            intro d hd
            have hnil : d ∈ s.received.drop s.received.length := hd
            rw [List.drop_length] at hnil
            cases hnil
        | round =>
            simp only [step, Option.map_eq_some_iff] at hs
            obtain ⟨i, hi, rfl⟩ := hs
            intro d hd
            rw [hi, onDataRound_received opts i s d hd]
        | callbackThrow =>
            simp only [step, Option.ite_none_right_eq_some, Option.some.injEq] at hs
            rw [← hs.2]
            intro d hd
            have hnil : d ∈ s.received.drop s.received.length := hd
            rw [List.drop_length] at hnil
            cases hnil
        | _ => cases hreads

theorem step_parsing (hw : WaiterInv s) (hs : step opts s a = some t) {p : ℕ}
    (hp : t.parsing = some p) : s.parsing = some p ∨ ∃ chunk, a = .sockData p chunk := by
  cases hreads : a.reads with
  | false => exact Or.inl (((step_ledger opts hw hs).inbox_eq opts hreads).2 ▸ hp)
  | true =>
      cases a with
      | sockData i chunk =>
          simp only [step, Option.ite_none_right_eq_some, Option.some.injEq] at hs
          rw [← hs.2] at hp
          cases hp
          exact Or.inr ⟨chunk, rfl⟩
      | round =>
          simp only [step, Option.map_eq_some_iff] at hs
          obtain ⟨i, -, rfl⟩ := hs
          rcases onDataRound_parsing opts i s with hnone | hsame
          · rw [hnone] at hp
            cases hp
          · exact Or.inl (hsame ▸ hp)
      | callbackThrow =>
          simp only [step, Option.ite_none_right_eq_some, Option.some.injEq] at hs
          rw [← hs.2] at hp
          cases hp
      | _ => cases hreads

/-- A waiter that is not settled was not settled before, and is still in flight if it was. -/
theorem Ledger.unsettled (hs : Ledger opts s a t) {w : ℕ} (hw : w < s.nextWaiter)
    (h : (t.waiters w).settled = false) :
    (s.waiters w).settled = false ∧ (w ∈ s.inflight → w ∈ t.inflight) := by
  have hadds : ∀ {owner : Owner} {req : Request}, s.Adds t owner req →
      (s.waiters w).settled = false := fun hadds => by
    rwa [hadds.others w (Nat.ne_of_lt hw)] at h
  have hmore : ∀ new, t.inflight = s.inflight ++ new → w ∈ s.inflight → w ∈ t.inflight :=
    fun new h hin => by
      rw [h]
      exact List.mem_append_left _ hin
  cases hs with
  | kept _ hset _ => exact ⟨(hset.left w h).1, (hset.left w h).2.1⟩
  | lost _ hset _ => exact ⟨(hset.left w h).1, (hset.left w h).2.1⟩
  | read _ hset => exact ⟨(hset.left w h).1, (hset.left w h).2.1⟩
  | queued _ _ _ _ hadd _ _ hinbox =>
      refine ⟨hadds hadd, hmore [] ?_⟩
      rw [List.append_nil]
      exact congrArg Inbox.inflight hinbox
  | sent _ _ hadd _ _ hinbox =>
      exact ⟨hadds hadd, hmore _ (congrArg Inbox.inflight hinbox)⟩
  | unsent _ _ _ hadd _ _ hinbox =>
      exact ⟨hadds hadd, hmore _ (congrArg Inbox.inflight hinbox)⟩
  | flushed _ _ hknows _ _ hinbox =>
      exact ⟨hknows.settled w ▸ h, hmore _ (congrArg Inbox.inflight hinbox)⟩

/-- The reply that a waiter was given was there before, or has just been received. -/
theorem Ledger.replied (hs : Ledger opts s a t) {w : ℕ} (hw : w < s.nextWaiter)
    {r : ClientResponse} (h : (t.waiters w).outcomes.head? = some (.resolved r)) :
    (s.waiters w).outcomes.head? = some (.resolved r) ∨
      ∃ d ∈ t.received.drop s.received.length, decodeResponse d.payload = .ok r := by
  have hadds : ∀ {owner : Owner} {req : Request}, s.Adds t owner req →
      (s.waiters w).outcomes.head? = some (.resolved r) := fun hadds => by
    rwa [hadds.others w (Nat.ne_of_lt hw)] at h
  have hset : s.Settles t → (s.waiters w).outcomes.head? = some (.resolved r) ∨
      ∃ d ∈ t.received.drop s.received.length, decodeResponse d.payload = .ok r := by
    intro hset
    refine (hset.replied w r h).imp_right fun ⟨d, hd, _, hdecode⟩ => ⟨d, hd, hdecode⟩
  cases hs with
  | kept _ hst _ => exact hset hst
  | lost _ hst _ => exact hset hst
  | read _ hst => exact hset hst
  | queued _ _ _ _ hadd _ _ _ => exact Or.inl (hadds hadd)
  | sent _ _ hadd _ _ _ => exact Or.inl (hadds hadd)
  | unsent _ _ _ hadd _ _ _ => exact Or.inl (hadds hadd)
  | flushed _ _ hknows _ _ _ => exact Or.inl (hknows.outcomes w ▸ h)

/-- A waiter that is in flight at once was given nothing yet. -/
theorem Ledger.fresh (hs : Ledger opts s a t) (hw : WaiterInv s)
    (h : s.nextWaiter ∈ t.inflight) : (t.waiters s.nextWaiter).outcomes = [] := by
  have hnot : ¬ s.nextWaiter ∈ s.inflight ++ s.offlineQueue := fun hin =>
    Nat.lt_irrefl _ (hw.bound _ hin)
  cases hs with
  | kept _ hset _ => exact absurd (List.mem_append_left _ (hset.inflight.subset h)) hnot
  | lost _ hset _ => exact absurd (List.mem_append_left _ (hset.inflight.subset h)) hnot
  | read _ hset => exact absurd (List.mem_append_left _ (hset.inflight.subset h)) hnot
  | queued _ _ _ _ hadd _ _ _ => exact hadd.outcomes
  | sent _ _ hadd _ _ _ => exact hadd.outcomes
  | unsent _ _ _ hadd _ _ _ => exact hadd.outcomes
  | flushed _ _ _ _ _ hinbox =>
      have hflight : t.inflight = s.inflight ++ s.offlineQueue := congrArg Inbox.inflight hinbox
      rw [hflight] at h
      exact absurd h hnot

/-- No waiter is forgotten. -/
theorem Ledger.nextWaiter_le (hs : Ledger opts s a t) : s.nextWaiter ≤ t.nextWaiter := by
  cases hs with
  | kept _ hset _ => exact Nat.le_of_eq hset.nextWaiter.symm
  | lost _ hset _ => exact Nat.le_of_eq hset.nextWaiter.symm
  | read _ hset => exact Nat.le_of_eq hset.nextWaiter.symm
  | queued _ _ _ _ hadd _ _ _ => exact hadd.nextWaiter ▸ Nat.le_succ _
  | sent _ _ hadd _ _ _ => exact hadd.nextWaiter ▸ Nat.le_succ _
  | unsent _ _ _ hadd _ _ _ => exact hadd.nextWaiter ▸ Nat.le_succ _
  | flushed _ _ hknows _ _ _ => exact Nat.le_of_eq hknows.nextWaiter.symm

/-- An event that ends a connection empties the buffer, and leaves nothing in flight if a socket was
stored. -/
theorem Ledger.inbox_of_ends (hs : Ledger opts s a t) (ha : a.ends = true) :
    t.inbox = { s.inbox with
      recvBuf := []
      inflight := if s.socket.isSome then [] else s.inflight } := by
  have hnot : ∀ {p : Prop}, a.ends = false → p := fun h => by
    rw [ha] at h
    cases h
  cases hs with
  | kept hends _ _ => exact hnot hends
  | lost _ _ hinbox => exact hinbox
  | read hreads _ =>
      refine hnot ?_
      cases a <;> first | rfl | cases hreads
  | queued hsends _ _ _ _ _ _ _ => exact hnot (Action.not_ends hsends)
  | sent hsends _ _ _ _ _ =>
      cases hsends with
      | call req hsends _ => exact hnot (Action.not_ends hsends)
      | auth _ _ => exact hnot rfl
      | watch _ _ _ => exact hnot rfl
  | unsent _ _ _ _ _ _ _ => exact hnot rfl
  | flushed _ _ _ _ _ _ => exact hnot rfl

/-- A loss of the stored connection leaves nothing in flight. -/
theorem Ledger.inflight_of_ends (hs : Ledger opts s a t) (ha : a.ends = true)
    (hsocket : s.socket.isSome = true) : t.inflight = [] := by
  have hflight : t.inflight = if s.socket.isSome then [] else s.inflight :=
    congrArg Inbox.inflight (hs.inbox_of_ends opts ha)
  rw [hflight, if_pos hsocket]

end Received

section Authentication

/-- The waiter whose reply a run of `doConnect` awaits. -/
def Pc.reply : Pc → Option ℕ
  | .auth w => some w
  | .rewatch _ w => some w
  | _ => none

theorem Pc.waits_of_reply {pc : Pc} {w : ℕ} (h : pc.reply = some w) : pc.waits = true := by
  cases pc <;> first | rfl | cases h

/-- A run of `doConnect` is past Auth. -/
def State.Past (s : State) (k : ℕ) : Prop :=
  (s.tasks k).pc = .rewatched ∨ (∃ pos w, (s.tasks k).pc = .rewatch pos w) ∨
    ∃ w, (s.tasks k).pc = .auth w ∧
      (s.waiters w).outcomes.head? = some (.resolved .authOk)

theorem State.Past.waits {s : State} {k : ℕ} (h : s.Past k) : (s.tasks k).pc.waits = true := by
  rcases h with hpc | ⟨pos, w, hpc⟩ | ⟨w, hpc, -⟩
  · rw [hpc]
    rfl
  · rw [hpc]
    rfl
  · rw [hpc]
    rfl

/-- With a token, a run that registers the watches is past Auth. -/
theorem State.Behind.past {s : State} {k : ℕ} (h : s.Behind opts k)
    (htoken : opts.token?.isSome = true) : s.Past k := by
  rcases h with ⟨-, hnone⟩ | ⟨w, hpc, hout⟩ | ⟨pos, w, r, hpc, -⟩
  · rw [hnone] at htoken
    cases htoken
  · exact Or.inr (Or.inr ⟨w, hpc, hout⟩)
  · exact Or.inr (Or.inl ⟨pos, w, hpc⟩)

/-- Why a run that is past Auth writes to the socket that AuthOk came from: a run that
waits for a reply ends with the connection it waits on, so none is left when the next
connection is established. -/
structure AuthFirst (s : State) : Prop where
  waiters : WaiterInv s
  lifecycle : ∃ st, Lifecycle s.link st
  begun : ∀ k, s.nextTask ≤ k → (s.tasks k).pc = .done none
  reply : ∀ k w, (s.tasks k).pc.reply = some w → w < s.nextWaiter ∧
    ((s.waiters w).settled = false → w ∈ s.inflight ∧ s.socket.isSome = true ∨ s.link.Idle)
  parsing : ∀ p i, s.parsing = some p → s.socket = some i → i = p
  authed : ∀ i k, opts.token?.isSome = true → s.socket = some i → s.Past k → s.Authed i

theorem authFirst_init : AuthFirst opts State.init where
  waiters := waiterInv_init
  lifecycle := ⟨.rest, lifecycle_init⟩
  begun k _ := rfl
  reply k w h := by cases h
  parsing p i h := by cases h
  authed i k _ h := by cases h

variable {s t : State} {a : Action}

theorem Link.Step.nextTask_le {l l' : Link} (hs : Link.Step l a l') : l.nextTask ≤ l'.nextTask := by
  have hdialed : ∀ (m : Link) (created : Bool), m.nextTask ≤ (m.dialed created).nextTask := by
    intro m created
    unfold Link.dialed
    split
    · exact Nat.le_succ _
    · split
      · exact Nat.le_succ _
      · exact Nat.le_succ _
  cases hs with
  | connect created _ _ => exact hdialed l created
  | reconnectTimer created _ =>
      exact hdialed { l with reconnectTimer := false, reconnecting := false } created
  | sockConnected _ => rw [Link.settled_eq]; exact Nat.le_refl _
  | sockError _ _ => rw [Link.settled_eq]; exact Nat.le_refl _
  | _ => exact Nat.le_refl _

/-- Runs that have not begun are as they were. -/
theorem Link.Step.begun {l l' : Link} (hs : Link.Step l a l')
    (h : ∀ k, l.nextTask ≤ k → (l.tasks k).pc = .done none) (ha : ∀ k, a = .resume k →
      (l.tasks k).pc ≠ .done none) (k : ℕ) (hk : l'.nextTask ≤ k) :
    (l'.tasks k).pc = .done none := by
  have hold := h k (hs.nextTask_le.trans hk)
  cases hs.moves k with
  | stays hpc => exact hpc.trans hold
  | resumed hresume _ => exact absurd hold (ha k hresume)
  | begun hnew hnext _ _ =>
      rw [hnext, hnew] at hk
      exact absurd hk (Nat.not_succ_le_self _)
  | connected _ hfrom _ => cases hfrom.symm.trans hold
  | failed _ hfrom _ => cases hfrom.symm.trans hold

/-- A run that can be resumed is not through. -/
theorem resume_begun {k : ℕ} (hr : resume opts k s = some t) :
    (s.tasks k).pc ≠ .done none := by
  intro hpc
  unfold resume at hr
  rw [hpc] at hr
  cases hr

/-- Nothing waits for a reply when a connection is established. -/
theorem AuthFirst.not_waits (h : AuthFirst opts s) (hidle : s.idle = true) {i : ℕ}
    (hphase : (s.socks i).phase = .connecting) (k : ℕ) : (s.tasks k).pc.waits = false := by
  obtain ⟨st, hst⟩ := h.lifecycle
  obtain ⟨j, rfl⟩ := hst.dialing_of_connecting hphase
  have hsocket : s.socket = none := hst.socket
  have hnot : ¬ s.link.Idle := fun hidle => by
    have hattempt := hidle.2 j
    rw [hst.run j _ rfl] at hattempt
    cases hattempt
  have hready : s.ready k = false := by
    rcases Nat.lt_or_ge k s.nextTask with hlt | hge
    · have hall := (Bool.and_eq_true_iff.mp hidle).2
      have hone := List.all_eq_true.mp hall k (List.mem_range.mpr hlt)
      simpa using hone
    · simp [State.ready, h.begun k hge]
  have hreply : ∀ w, (s.tasks k).pc.reply = some w →
      (s.waiters w).outcomes.head?.isSome = true := by
    intro w hw
    cases hset : (s.waiters w).settled with
    | true =>
        have hne := (h.waiters.sound w).answered hset
        cases hout : (s.waiters w).outcomes with
        | nil => exact absurd hout hne
        | cons o os => rfl
    | false =>
        rcases (h.reply k w hw).2 hset with ⟨-, hsome⟩ | hid
        · rw [hsocket] at hsome
          cases hsome
        · exact absurd hid hnot
  cases hpc : (s.tasks k).pc with
  | auth w => simp [State.ready, hpc, hreply w (by rw [hpc]; rfl)] at hready
  | rewatch pos w => simp [State.ready, hpc, hreply w (by rw [hpc]; rfl)] at hready
  | rewatched => simp [State.ready, hpc] at hready
  | _ => rfl

theorem step_resume {k : ℕ} (hs : step opts s (.resume k) = some t) :
    resume opts k s = some t := by
  simp only [step] at hs
  split at hs
  · exact hs
  · cases hs

theorem idle_of_sockConnected {i : ℕ} (hs : step opts s (.sockConnected i) = some t) :
    s.idle = true ∧ (s.socks i).phase = .connecting := by
  simp only [step, Option.ite_none_right_eq_some, Option.some.injEq] at hs
  exact hs.1

/-- A run waits for the reply to what it has just written, or waited before. -/
theorem step_waits (hlink : Link.Step s.link a t.link) (hs : step opts s a = some t) {k : ℕ}
    (hwaits : (t.tasks k).pc.waits = true) :
    (a = .resume k ∧ Resumed opts s k t) ∨ a ≠ .resume k ∧ (t.tasks k).pc = (s.tasks k).pc := by
  by_cases hk : a = .resume k
  · subst hk
    exact Or.inl ⟨rfl, resume_resumed opts (step_resume opts hs)⟩
  · exact Or.inr ⟨hk, hlink.pc_kept hk (Pc.not_starts_of_waits hwaits)⟩

/-- What a run awaits is in flight on the stored socket. -/
theorem AuthFirst.step_reply (h : AuthFirst opts s) (hlink : Link.Step s.link a t.link)
    (hledger : Ledger opts s a t) (hw : WaiterInv t) (hs : step opts s a = some t) (k w : ℕ)
    (hreply : (t.tasks k).pc.reply = some w) : w < t.nextWaiter ∧
      ((t.waiters w).settled = false →
        w ∈ t.inflight ∧ t.socket.isSome = true ∨ t.link.Idle) := by
  obtain ⟨st, hst⟩ := h.lifecycle
  have hkeeps : s.socket.isSome = true → w ∈ t.inflight →
      w ∈ t.inflight ∧ t.socket.isSome = true ∨ t.link.Idle := by
    intro hsome hin
    rcases Option.eq_none_or_eq_some t.socket with hnone | ⟨i, hi⟩
    · rcases hlink.socket_none hst hsome hnone with hends | hidle
      · rw [hledger.inflight_of_ends opts hends hsome] at hin
        cases hin
      · exact Or.inr hidle
    · exact Or.inl ⟨hin, by simp [hi]⟩
  rcases step_waits opts hlink hs (Pc.waits_of_reply hreply) with ⟨-, hresumed⟩ | ⟨-, hpc⟩
  · have hnew : w ∈ t.inflight ∧ s.socket.isSome = true := by
      cases hpc : (t.tasks k).pc with
      | auth v =>
          rw [hpc] at hreply
          cases hreply
          exact (hresumed.auth w hpc).2
      | rewatch pos v =>
          rw [hpc] at hreply
          cases hreply
          exact (hresumed.rewatch pos w hpc).2.2
      | _ =>
          rw [hpc] at hreply
          cases hreply
    exact ⟨hw.bound w (List.mem_append_left _ hnew.1), fun _ => hkeeps hnew.2 hnew.1⟩
  · rw [hpc] at hreply
    obtain ⟨hlt, hflight⟩ := h.reply k w hreply
    refine ⟨Nat.lt_of_lt_of_le hlt (hledger.nextWaiter_le opts), fun hset => ?_⟩
    obtain ⟨hunsettled, hkept⟩ := hledger.unsettled opts hlt hset
    rcases hflight hunsettled with ⟨hin, hsome⟩ | hidle
    · exact hkeeps hsome (hkept hin)
    · exact Or.inr (hlink.idle hidle)

/-- Data is handled for the stored socket. -/
theorem AuthFirst.step_parsing_socket (h : AuthFirst opts s)
    (hlink : Link.Step s.link a t.link) (hs : step opts s a = some t) (p i : ℕ)
    (hp : t.parsing = some p) (hi : t.socket = some i) : i = p := by
  rcases hlink.socket_some hi with hsocket | rfl
  · rcases step_parsing opts h.waiters hs hp with hparsing | ⟨chunk, rfl⟩
    · exact h.parsing p i hparsing hsocket
    · obtain ⟨st, hst⟩ := h.lifecycle
      simp only [step, Option.ite_none_right_eq_some, Option.some.injEq] at hs
      have hphase : (s.socks p).phase = .connected := hs.1.2.1
      have hallow := hst.socks p
      have hstored := hst.socket.symm.trans hsocket
      cases st with
      | opened j =>
          cases hstored
          rcases hallow with hp | ⟨heq, -⟩
          · cases hphase.symm.trans hp
          · exact heq.symm
      | _ => cases hstored
  · have hidle := (idle_of_sockConnected opts hs).1
    have hnone : s.parsing = none := by
      have hall := (Bool.and_eq_true_iff.mp hidle).1
      simpa using hall
    rcases step_parsing opts h.waiters hs hp with hparsing | ⟨chunk, ha⟩
    · rw [hnone] at hparsing
      cases hparsing
    · cases ha

/-- A run comes past Auth when AuthOk is received on the stored socket. -/
theorem AuthFirst.step_authed (h : AuthFirst opts s) (hlink : Link.Step s.link a t.link)
    (hledger : Ledger opts s a t) (hs : step opts s a = some t) (i k : ℕ)
    (htoken : opts.token?.isSome = true) (hi : t.socket = some i) (hpast : t.Past k) :
    t.Authed i := by
  obtain ⟨hpre, hfresh⟩ := step_received opts h.waiters hs
  rcases hlink.socket_some hi with hsocket | rfl
  · have hsocket : s.socket = some i := hsocket
    have hold : s.Past k → t.Authed i := fun hp => by
      obtain ⟨d, hd, hauth⟩ := h.authed i k htoken hsocket hp
      exact ⟨d, hpre.subset hd, hauth⟩
    rcases step_waits opts hlink hs hpast.waits with ⟨-, hresumed⟩ | ⟨-, hpc⟩
    · rcases hpast with hpc | ⟨pos, w, hpc⟩ | ⟨w, hpc, hout⟩
      · exact hold ((hresumed.rewatched hpc).past opts htoken)
      · exact hold ((hresumed.rewatch pos w hpc).1.past opts htoken)
      · -- Auth has only just been written
        obtain ⟨rfl, hin, -⟩ := hresumed.auth w hpc
        rw [hledger.fresh opts h.waiters hin] at hout
        cases hout
    · rcases hpast with hrewatched | ⟨pos, w, hrewatch⟩ | ⟨w, hauth, hout⟩
      · exact hold (Or.inl (hpc.symm.trans hrewatched))
      · exact hold (Or.inr (Or.inl ⟨pos, w, hpc.symm.trans hrewatch⟩))
      · have hbefore : (s.tasks k).pc = .auth w := hpc.symm.trans hauth
        have hlt := (h.reply k w (by rw [hbefore]; rfl)).1
        rcases hledger.replied opts hlt hout with hout | ⟨d, hd, hdecode⟩
        · exact hold (Or.inr (Or.inr ⟨w, hbefore, hout⟩))
        · exact ⟨d, List.mem_of_mem_drop hd, (h.parsing _ _ (hfresh d hd) hsocket).symm, hdecode⟩
  · obtain ⟨hidle, hphase⟩ := idle_of_sockConnected opts hs
    have hnot := h.not_waits opts hidle hphase k
    rcases step_waits opts hlink hs hpast.waits with ⟨ha, -⟩ | ⟨-, hpc⟩
    · cases ha
    · have hwaits := hpast.waits
      rw [hpc, hnot] at hwaits
      cases hwaits

theorem AuthFirst.next (h : AuthFirst opts s) (halone : OneAttempt s a)
    (hs : step opts s a = some t) : AuthFirst opts t := by
  have hlink := step_link opts hs
  have hledger := step_ledger opts h.waiters hs
  have hw := step_waiterInv opts h.waiters hs
  obtain ⟨st, hst⟩ := h.lifecycle
  refine ⟨hw, hst.next hlink halone, hlink.begun h.begun ?_, h.step_reply opts hlink hledger hw hs,
    h.step_parsing_socket opts hlink hs, h.step_authed opts hlink hledger hs⟩
  rintro k rfl
  exact resume_begun opts (step_resume opts hs)

end Authentication

section WriteOrder

variable {s t : State} {a : Action}

/-- A call that sends finds the client clear, or is refused by validation. -/
theorem SendsClear.clear (h : SendsClear opts s a) (ha : a.sends = true)
    (hs : step opts s a = some t) : t = s ∨ s.Clear opts := by
  cases a with
  | request req =>
      simp only [step] at hs
      split at hs
      · split at hs
        · next hvalid => exact Or.inr (h.2 hvalid)
        · cases hs
          exact Or.inl rfl
      · cases hs
  | watch key ns callback =>
      simp only [step] at hs
      split at hs
      · next hvalid => exact Or.inr (h.2 hvalid)
      · cases hs
        exact Or.inl rfl
  | unwatch key ns =>
      simp only [step] at hs
      split at hs
      · next hvalid => exact Or.inr (h.2 hvalid)
      · cases hs
        exact Or.inl rfl
  | _ => cases ha

theorem SendsInv.next (h : SendsInv s) (hw : WaiterInv s) (hclear : SendsClear opts s a)
    (hs : step opts s a = some t) : SendsInv t := by
  have hledger := step_ledger opts hw hs
  by_cases ha : a.sends = true
  · rcases hclear.clear opts ha hs with rfl | hclear
    · exact h
    · refine h.ledger opts hw hledger fun _ hd hsome => ?_
      obtain ⟨i, hi⟩ := Option.isSome_iff_exists.mp hsome
      exact (hclear i hi hd).1
  · exact h.ledger opts hw hledger fun hsends => absurd hsends ha

/-- What a step writes is Auth, or goes to a socket on which AuthOk was received. -/
theorem AuthFirst.step_wire (h : AuthFirst opts s) (hclear : SendsClear opts s a)
    (hs : step opts s a = some t) (htoken : opts.token?.isSome = true) {new : List Sent}
    (hwire : t.wire = s.wire ++ new) :
    ∀ x ∈ new, (∃ token, x.frame = .auth token) ∨ s.Authed x.sock := by
  have hnone : t.wire = s.wire → ∀ x ∈ new, (∃ token, x.frame = .auth token) ∨
      s.Authed x.sock := by
    intro hsame x hx
    rw [hsame, List.self_eq_append_right] at hwire
    rw [hwire] at hx
    cases hx
  cases step_ledger opts h.waiters hs with
  | kept _ hset _ => exact hnone hset.wire
  | lost _ hset _ => exact hnone hset.wire
  | read _ hset => exact hnone hset.wire
  | queued _ _ _ _ _ _ hsame _ => exact hnone hsame
  | unsent _ _ _ _ _ hsame _ => exact hnone hsame
  | sent hsends hsocket _ _ hsent _ =>
      intro x hx
      rw [← List.append_cancel_left (hsent.symm.trans hwire), List.mem_singleton] at hx
      subst hx
      cases hsends with
      | call req ha hd =>
          rcases hclear.clear opts ha hs with rfl | hclear
          · exact absurd hsent (by simp)
          · exact Or.inr ((hclear _ hsocket hd).2 htoken)
      | auth _ _ => exact Or.inl ⟨_, rfl⟩
      | watch _ _ hpc => exact Or.inr (h.authed _ _ htoken hsocket (hpc.past opts htoken))
  | flushed hpc hsocket _ _ hsent _ =>
      intro x hx
      rw [← List.append_cancel_left (hsent.symm.trans hwire)] at hx
      obtain ⟨w, -, rfl⟩ := List.mem_map.mp hx
      exact Or.inr (h.authed _ _ htoken hsocket (Or.inl hpc))

/-- Requests are written in the order of the calls and behind Auth, if attempts to connect
do not overlap and every call that finds a socket finds it authenticated and the queue
empty. -/
theorem writesInOrder : WritesInOrder opts (SendsClear opts) := by
  have hreach : ∀ s, Reachable (step opts) (SendsClear opts) State.init s →
      AuthFirst opts s ∧ SendsInv s := by
    intro s h
    refine h.invariant (I := fun s => AuthFirst opts s ∧ SendsInv s)
      ⟨authFirst_init opts, ⟨by simp [State.sends, State.init], fun w hw => by cases hw⟩⟩ ?_
    rintro s a t ⟨hauth, hsends⟩ hclear hs
    exact ⟨hauth.next opts hclear.1 hs, hsends.next opts hauth.waiters hclear hs⟩
  refine ⟨fun s hs => ?_, fun s a t new hs hclear hstep htoken hwire => ?_⟩
  · have hsorted := (hreach s hs).2.sorted
    exact (List.pairwise_append.mp hsorted).1
  · exact (hreach s hs).1.step_wire opts hclear hstep htoken hwire

/-- The options of a client with a token that reconnects by itself. -/
def withTokenAndRetry : Options :=
  { Options.defaults with authToken := some "secret", autoReconnect := true }

/-- A request that is called while a connected client waits for AuthOk is written before
AuthOk is received, and overtakes one that was queued before the connection. -/
theorem request_overtakes :
    ¬ WritesInOrder withTokenAndRetry (fun _ _ => True) ∧
      ∃ s t, Reached withTokenAndRetry s ∧ Reached withTokenAndRetry t ∧
        s.received = [] ∧
        s.wire = [⟨0, 1, .auth "secret"⟩, ⟨0, 2, .get "b" none⟩] ∧ t.sends = [2, 0] := by
  obtain ⟨s, t, hs, ht, hreceived, hwire, hsends⟩ : ∃ s t,
      exec (step withTokenAndRetry) (fun _ _ => True) State.init
        [.request (.get "a" none), .connect true, .sockConnected 0, .resume 0,
          .request (.get "b" none)] = some s ∧
      exec (step withTokenAndRetry) (fun _ _ => True) s
        [.sockData 0 [0, 0, 0, 6, 8, 1, 26, 2, 50, 0], .round, .round, .resume 0,
          .resume 0] = some t ∧
      s.received = [] ∧ s.wire = [⟨0, 1, .auth "secret"⟩, ⟨0, 2, .get "b" none⟩] ∧
        t.sends = [2, 0] := ⟨_, _, rfl, rfl, rfl, rfl, rfl⟩
  have hrun := (run_of_exec hs).append (run_of_exec ht)
  refine ⟨fun h => ?_, s, t, ⟨_, run_of_exec hs⟩, ⟨_, hrun⟩, hreceived, hwire, hsends⟩
  have hsorted := h.sends t ⟨_, hrun⟩
  rw [hsends] at hsorted
  cases hsorted with
  | cons hlt _ => exact absurd (hlt 0 (by simp)) (by simp)

end WriteOrder

end NodeTcp

end DittoClient
