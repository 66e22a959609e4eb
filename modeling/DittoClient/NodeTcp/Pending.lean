import DittoClient.NodeTcp.Ledger

/-!
# No request is left behind

A request that is not settled is in flight on a socket that has not emitted `close`, or
queued while a timer or a run of `doConnect` will deal with the queue. The first part rests
on what a step does to the requests, the second one on what is left of the link: with a
request in the queue there is a timer, an attempt to connect, or a connection whose run has
the queue still to send (`Link.Serves`).
-/

namespace DittoClient

namespace NodeTcp

open DittoClient.Wire
open DittoClient.Transition

/-- Whether a run of `doConnect` is through. -/
def Pc.isDone : Pc → Bool
  | .done _ => true
  | _ => false

/-- Every request that is not settled is in flight on a socket that is not closed, or
queued while the client is about to connect. -/
def NoStranded (s : State) : Prop :=
  ∀ w < s.nextWaiter, (s.waiters w).settled = false →
    (w ∈ s.inflight ∧ ∃ x ∈ s.wire, x.waiter = w ∧ (s.socks x.sock).phase ≠ .closed) ∨
      (w ∈ s.offlineQueue ∧
        (s.reconnectTimer = true ∨ ∃ t, (s.tasks t).pc.isDone = false))

/-- In every state that a run under a condition reaches, no request is stranded. -/
def NeverStrands (opts : Options) (C : State → Action → Prop) : Prop :=
  ∀ s, Reachable (step opts) C State.init s → NoStranded s

/-- A request that is queued now will be dealt with. -/
def State.Expects (s : State) : Prop :=
  s.reconnectTimer = true ∨ ∃ t < s.nextTask, (s.tasks t).pc.attempting = true

/-- A run of `doConnect` other than `t` may yet send the queue. -/
def State.OthersSend (s : State) (t : ℕ) : Prop :=
  ∃ k < s.nextTask, k ≠ t ∧ ((s.tasks k).pc.attempting = true ∨ (s.tasks k).pc.late = true)

/-- What a run of `doConnect` waits for was rejected. -/
def State.Rejects (s : State) (t : ℕ) : Prop :=
  ∃ w e, ((s.tasks t).pc = .auth w ∨ ∃ pos, (s.tasks t).pc = .rewatch pos w) ∧
    (s.waiters w).outcomes.head? = some (.rejected e)

/-- A request is queued only when the client is about to connect, a run of `doConnect` that
stops short of the queue leaves it empty or to another one, Auth is written on a socket, and
a socket that is no longer stored closes with nothing in flight on it. -/
def Attends (opts : Options) (s : State) : Action → Prop
  | .request req => opts.validate req = true → s.socket = none → opts.autoReconnect = true →
      s.destroyed = false → s.Expects
  | .watch key ns _ => opts.validate (.watch key ns) = true → s.socket = none →
      opts.autoReconnect = true → s.destroyed = false → s.Expects
  | .resume t =>
      ((s.tasks t).pc = .connected → opts.token? = none ∨ s.socket.isSome = true) ∧
        (s.Rejects t → s.socket = none ∨ s.offlineQueue = [] ∨ s.reconnectTimer = true ∨
          s.OthersSend t)
  | .sockClose i => s.socket.isSome = true ∨ ∀ w ∈ s.inflight, (s.waiters w).settled = false →
      ∀ x ∈ s.wire, x.waiter = w → x.sock ≠ i
  | _ => True

/-- Something will deal with the queue. -/
def Link.Serves (l : Link) : Prop :=
  l.reconnectTimer = true ∨ (∃ t, (l.tasks t).pc.attempting = true) ∨
    l.socket.isSome = true ∧ ∃ t, (l.tasks t).pc.late = true

/-- What holds of every link. -/
structure Link.Sound (l : Link) : Prop where
  opened : ∀ i, l.socket = some i → (l.socks i).phase ≠ .closed
  timer : l.reconnecting = true → l.reconnectTimer = true
  alive : l.reconnectTimer = true → l.destroyed = false

/-- Every request that is not settled is in flight or queued. -/
def Located (s : State) : Prop :=
  ∀ w < s.nextWaiter, (s.waiters w).settled = false →
    (w ∈ s.inflight ∧ ∃ x ∈ s.wire, x.waiter = w ∧ (s.socks x.sock).phase ≠ .closed) ∨
      w ∈ s.offlineQueue

variable (opts : Options)

section Phases

theorem setPhase_closed {l : Link} {i j : ℕ} {ph : Phase} (hph : ph ≠ .closed)
    (h : ((l.setPhase i ph).socks j).phase = .closed) : (l.socks j).phase = .closed := by
  rw [Link.setPhase_phase] at h
  split at h
  · exact absurd h hph
  · exact h

theorem dialed_closed {l : Link} {created : Bool} {j : ℕ}
    (h : ((l.dialed created).socks j).phase = .closed) : (l.socks j).phase = .closed := by
  unfold Link.dialed at h
  split at h
  · exact h
  · split at h
    · by_cases hj : j = l.nextSock
      · simp [hj] at h
      · simpa [hj] using h
    · exact h

/-- Only the event `close` closes a socket. -/
theorem Link.Step.phase_closed {l l' : Link} {a : Action} (hs : Link.Step l a l') {j : ℕ}
    (h : (l'.socks j).phase = .closed) :
    (l.socks j).phase = .closed ∨ a = .sockClose j := by
  cases hs with
  | same => exact Or.inl h
  | connect created _ _ => exact Or.inl (dialed_closed h)
  | close => exact Or.inl ((l.closed_phase j).symm.trans h)
  | goOn _ _ => exact Or.inl h
  | failed _ _ => exact Or.inl h
  | refused _ _ => exact Or.inl ((l.closed_phase j).symm.trans h)
  | sockConnected _ =>
      rw [Link.settled_socks] at h
      exact Or.inl (setPhase_closed (by simp) h)
  | sockError _ _ =>
      rw [Link.settled_socks] at h
      exact Or.inl (setPhase_closed (by simp) h)
  | @sockClose i _ _ _ =>
      by_cases hj : j = i
      · exact Or.inr (by rw [hj])
      · exact Or.inl (by simpa [Link.setPhase, Link.lost, hj] using h)
  | destroySock a e _ => exact Or.inl (setPhase_closed (by simp) h)
  | reconnectTimer created _ => exact Or.inl (dialed_closed (l := { l with
      reconnectTimer := false, reconnecting := false }) h)

end Phases

section Sound

theorem Link.Sound.dialed {l : Link} (h : l.Sound) (created : Bool) : (l.dialed created).Sound where
  opened i hi hphase := by
    rw [Link.dialed_socket] at hi
    exact h.opened i hi (dialed_closed hphase)
  timer hr := by
    rw [Link.dialed_reconnecting] at hr
    rw [Link.dialed_reconnectTimer]
    exact h.timer hr
  alive ht := by
    rw [Link.dialed_reconnectTimer] at ht
    rw [Link.dialed_destroyed]
    exact h.alive ht

theorem Link.Sound.lost {l : Link} (h : l.Sound) {retry : Bool}
    (hretry : retry = true → l.destroyed = false) : (l.lost retry).Sound where
  opened i hi := by cases hi
  timer hr := by
    rcases (Bool.or_eq_true _ _).mp hr with hrec | hretry'
    · exact (Bool.or_eq_true _ _).mpr (Or.inl (h.timer hrec))
    · exact (Bool.or_eq_true _ _).mpr (Or.inr hretry')
  alive ht := by
    rcases (Bool.or_eq_true _ _).mp ht with htimer | hretry'
    · exact h.alive htimer
    · exact hretry hretry'

theorem Link.sound_closed (l : Link) : l.closed.Sound where
  opened i hi := by cases hi
  timer hr := by cases hr
  alive ht := by cases ht

theorem Link.Sound.setPhase {l : Link} (h : l.Sound) {ph : Phase} (hph : ph ≠ .closed)
    (i : ℕ) : (l.setPhase i ph).Sound where
  opened j hj hphase := h.opened j hj (setPhase_closed hph hphase)
  timer := h.timer
  alive := h.alive

theorem Link.Sound.settled {l : Link} (h : l.Sound) (i : ℕ) (pc : Pc) :
    (l.settled i pc).Sound := by
  rw [Link.settled_eq]
  exact ⟨h.opened, h.timer, h.alive⟩

theorem Link.Step.sound {l l' : Link} {a : Action} (hs : Link.Step l a l') (h : l.Sound) :
    l'.Sound := by
  cases hs with
  | same => exact h
  | connect created _ _ => exact h.dialed created
  | close => exact l.sound_closed
  | goOn _ _ => exact ⟨h.opened, h.timer, h.alive⟩
  | failed _ hretry =>
      have hlost := h.lost fun hr => (hretry hr).1
      exact ⟨hlost.opened, hlost.timer, hlost.alive⟩
  | refused _ _ => exact ⟨l.sound_closed.opened, l.sound_closed.timer, l.sound_closed.alive⟩
  | @sockConnected i _ =>
      have hphase := h.setPhase (by simp : Phase.connected ≠ .closed) i
      have hstored : ({ l.setPhase i .connected with socket := some i } : Link).Sound := by
        refine ⟨fun j hj => ?_, hphase.timer, hphase.alive⟩
        cases hj
        simp [Link.setPhase]
      exact hstored.settled i .connected
  | @sockError i _ _ _ hretry =>
      exact ((h.setPhase (by simp : Phase.errored ≠ .closed) i).lost
        fun hr => (hretry hr).1).settled _ _
  | sockClose _ hretry =>
      have hlost := h.lost fun hr => (hretry hr).1
      exact ⟨fun j hj => (by cases hj), hlost.timer, hlost.alive⟩
  | destroySock a e _ => exact h.setPhase (by simp) _
  | reconnectTimer created _ =>
      have hfired : ({ l with reconnectTimer := false, reconnecting := false } : Link).Sound :=
        ⟨h.opened, fun hr => (by cases hr), fun ht => (by cases ht)⟩
      exact hfired.dialed created

end Sound

section Located

/-- A request in flight stays where it is when no socket closes. -/
theorem located_settles {s t : State} (h : Located s) (hset : s.Settles t)
    (hphase : ∀ w ∈ s.inflight, (t.waiters w).settled = false → ∀ x ∈ s.wire, x.waiter = w →
      (t.socks x.sock).phase = .closed → (s.socks x.sock).phase = .closed) : Located t := by
  intro w hw hunsettled
  obtain ⟨hold, hinflight, hqueue⟩ := hset.left w hunsettled
  rw [hset.nextWaiter] at hw
  rcases h w hw hold with ⟨hin, x, hx, hxw, hopen⟩ | hq
  · refine Or.inl ⟨hinflight hin, x, ?_, hxw, fun hclosed => ?_⟩
    · rw [hset.wire]
      exact hx
    · exact hopen (hphase w hin hunsettled x hx hxw hclosed)
  · exact Or.inr (hqueue hq)

/-- A request that was there before a new one came is where it was. -/
theorem located_adds {s t : State} {owner : Owner} {req : Request} (h : Located s)
    (hadds : s.Adds t owner req) (hin : ∀ w ∈ s.inflight, w ∈ t.inflight)
    (hqueue : ∀ w ∈ s.offlineQueue, w ∈ t.offlineQueue) (hwire : ∀ x ∈ s.wire, x ∈ t.wire)
    (hphase : ∀ j, (t.socks j).phase = .closed → (s.socks j).phase = .closed)
    (hnew : (s.nextWaiter ∈ t.inflight ∧
      ∃ x ∈ t.wire, x.waiter = s.nextWaiter ∧ (t.socks x.sock).phase ≠ .closed) ∨
        s.nextWaiter ∈ t.offlineQueue) : Located t := by
  intro w hw hunsettled
  rw [hadds.nextWaiter] at hw
  rcases Nat.lt_succ_iff_lt_or_eq.mp hw with hlt | rfl
  · rw [hadds.others w (Nat.ne_of_lt hlt)] at hunsettled
    rcases h w hlt hunsettled with ⟨hw, x, hx, hxw, hopen⟩ | hq
    · exact Or.inl ⟨hin w hw, x, hwire x hx, hxw, fun hclosed => hopen (hphase _ hclosed)⟩
    · exact Or.inr (hqueue w hq)
  · exact hnew

/-- The queue is sent on a socket that is not closed. -/
theorem located_flushed {s t : State} {i : ℕ} (h : Located s) (hknows : s.Knows t)
    (hin : t.inflight = s.inflight ++ s.offlineQueue)
    (hwire : t.wire = s.wire ++ s.offlineQueue.map fun w => ⟨i, w, (s.waiters w).request⟩)
    (hphase : ∀ j, (t.socks j).phase = .closed → (s.socks j).phase = .closed)
    (hopen : (s.socks i).phase ≠ .closed) : Located t := by
  intro w hw hunsettled
  rw [hknows.nextWaiter] at hw
  rw [hknows.settled] at hunsettled
  refine Or.inl ?_
  rw [hin, hwire]
  rcases h w hw hunsettled with ⟨hw, x, hx, hxw, hx'⟩ | hq
  · exact ⟨List.mem_append_left _ hw, x, List.mem_append_left _ hx, hxw,
      fun hclosed => hx' (hphase _ hclosed)⟩
  · exact ⟨List.mem_append_right _ hq, ⟨i, w, (s.waiters w).request⟩,
      List.mem_append_right _ (List.mem_map.mpr ⟨w, hq, rfl⟩), rfl,
        fun hclosed => hopen (hphase _ hclosed)⟩

theorem step_located {s t : State} {a : Action} (hw : WaiterInv s) (hl : s.link.Sound)
    (h : Located s) (hc : Attends opts s a) (hs : step opts s a = some t) : Located t := by
  have hphase : ∀ j, (t.socks j).phase = .closed → (s.socks j).phase = .closed ∨
      a = .sockClose j := fun j => (step_link opts hs).phase_closed
  have hkept : a.ends = false → ∀ j, (t.socks j).phase = .closed →
      (s.socks j).phase = .closed := by
    intro ha j hclosed
    refine (hphase j hclosed).resolve_right fun he => ?_
    rw [he] at ha
    cases ha
  have hstored : ∀ i, s.socket = some i → (s.socks i).phase ≠ .closed := hl.opened
  cases step_ledger opts hw hs with
  | kept ha hset _ => exact located_settles h hset fun _ _ _ x _ _ => hkept ha x.sock
  | read ha hset =>
      refine located_settles h hset fun _ _ _ x _ _ => hkept ?_ x.sock
      cases a <;> first | rfl | cases ha
  | lost ha hset hinbox =>
      refine located_settles h hset fun w hin hunsettled x hx hxw hclosed => ?_
      refine (hphase _ hclosed).resolve_right fun he => ?_
      subst he
      rcases hc with hsome | hnone
      · have hempty : t.inflight = [] := by
          have hlost := congrArg Inbox.inflight hinbox
          rwa [hsome] at hlost
        have hleft := (hset.left w hunsettled).2.1 hin
        rw [hempty] at hleft
        cases hleft
      · exact hnone w hin (hset.left w hunsettled).1 x hx hxw rfl
  | queued ha _ _ _ hadds hqueue hwire hinbox =>
      have hin : t.inflight = s.inflight := congrArg Inbox.inflight hinbox
      refine located_adds h hadds (fun w hw => hin ▸ hw) (fun w hw => ?_) (fun x hx => hwire ▸ hx)
        (hkept (Action.not_ends ha)) (Or.inr ?_)
      · rw [hqueue]
        exact List.mem_append_left _ hw
      · rw [hqueue]
        exact List.mem_append_right _ (List.mem_singleton.mpr rfl)
  | @sent _ _ i owner req hsends hsocket hadds hqueue hwire hinbox =>
      have hin : t.inflight = s.inflight ++ [s.nextWaiter] := congrArg Inbox.inflight hinbox
      have ha : a.ends = false := by
        cases hsends with
        | call _ ha _ => exact Action.not_ends ha
        | auth _ _ => rfl
        | watch _ _ _ => rfl
      refine located_adds h hadds (fun w hw => ?_) (fun w hw => hqueue ▸ hw) (fun x hx => ?_)
        (hkept ha) (Or.inl ⟨?_, ⟨i, s.nextWaiter, req⟩, ?_, rfl,
          fun hclosed => hstored i hsocket (hkept ha i hclosed)⟩)
      · rw [hin]
        exact List.mem_append_left _ hw
      · rw [hwire]
        exact List.mem_append_left _ hx
      · rw [hin]
        exact List.mem_append_right _ (List.mem_singleton.mpr rfl)
      · rw [hwire]
        exact List.mem_append_right _ (List.mem_singleton.mpr rfl)
  | unsent hpc htoken hsocket _ _ _ _ =>
      rcases hc.1 hpc with hnone | hsome
      · rw [htoken] at hnone
        cases hnone
      · rw [hsocket] at hsome
        cases hsome
  | flushed _ hsocket hknows _ hwire hinbox =>
      exact located_flushed h hknows (congrArg Inbox.inflight hinbox) hwire (hkept rfl)
        (hstored _ hsocket)

end Located

section Serving

/-- A queue that is not empty is dealt with. -/
def Attended (s : State) : Prop :=
  s.offlineQueue ≠ [] → s.link.Serves

namespace Link

theorem serves_dialed {l : Link} (h : l.destroyed = false) (created : Bool) :
    (l.dialed created).Serves := by
  refine Or.inr (Or.inl ⟨l.nextTask, ?_⟩)
  cases created with
  | true => simp [dialed, h, Pc.attempting]
  | false => simp [dialed, h, Pc.attempting]

/-- A run that is not connecting goes on, which leaves the queue to someone. -/
theorem Serves.setPc {l : Link} (h : l.Serves) {k : ℕ} {pc : Pc}
    (hfrom : (l.tasks k).pc.attempting = false)
    (hto : pc.late = true ∨ l.socket = none ∨ (l.tasks k).pc.late = false) :
    (l.setPc k pc).Serves := by
  rcases h with htimer | ⟨t, ht⟩ | ⟨hsocket, t, ht⟩
  · exact Or.inl htimer
  · have htk : t ≠ k := fun he => by
      rw [he, hfrom] at ht
      cases ht
    exact Or.inr (Or.inl ⟨t, by simpa [Link.setPc, htk] using ht⟩)
  · refine Or.inr (Or.inr ⟨hsocket, ?_⟩)
    rcases hto with hlate | hnone | hnot
    · exact ⟨k, by simpa [Link.setPc] using hlate⟩
    · rw [hnone] at hsocket
      cases hsocket
    · have htk : t ≠ k := fun he => by
        rw [he, hnot] at ht
        cases ht
      exact ⟨t, by simpa [Link.setPc, htk] using ht⟩

/-- A connection promise is fulfilled or rejected. -/
theorem Serves.settled {l : Link} (h : l.Serves) (i : ℕ) {pc : Pc}
    (hpc : pc.attempting = true ∨ l.socket.isSome = true ∧ pc.late = true) :
    (l.settled i pc).Serves := by
  unfold Link.settled
  split
  · next hold =>
      rcases hpc with hattempt | ⟨hsocket, hlate⟩
      · exact Or.inr (Or.inl ⟨(l.socks i).task, by simpa [Link.setPc] using hattempt⟩)
      · exact Or.inr (Or.inr ⟨hsocket, (l.socks i).task, by simpa [Link.setPc] using hlate⟩)
  · exact h

/-- The events that neither end a connection nor resume a run leave the queue to someone. -/
theorem Serves.step {l l' : Link} {a : Action} (hs : Link.Step l a l') (h : l.Serves)
    (hl : l.Sound) (hends : a.ends = false) (hresume : ∀ t, a ≠ .resume t)
    (hclose : a ≠ .close) : l'.Serves := by
  cases hs with
  | same => exact h
  | connect created hdestroyed _ => exact serves_dialed hdestroyed created
  | close => exact absurd rfl hclose
  | goOn _ _ => exact absurd rfl (hresume _)
  | failed _ _ => exact absurd rfl (hresume _)
  | refused _ _ => exact absurd rfl (hresume _)
  | @sockConnected i _ =>
      have hstored : ({ l.setPhase i .connected with socket := some i } : Link).Serves := by
        rcases h with htimer | hattempt | ⟨-, hlate⟩
        · exact Or.inl htimer
        · exact Or.inr (Or.inl hattempt)
        · exact Or.inr (Or.inr ⟨rfl, hlate⟩)
      exact hstored.settled i (Or.inr ⟨rfl, rfl⟩)
  | sockError _ _ => cases hends
  | sockClose _ _ => cases hends
  | destroySock a e _ => exact h
  | reconnectTimer created htimer =>
      exact serves_dialed (l := { l with reconnectTimer := false, reconnecting := false })
        (hl.alive htimer) created

end Link

theorem scheduleReconnect_serves {s : State}
    (htimer : s.reconnecting = true → s.reconnectTimer = true) (hd : s.destroyed = false) :
    (scheduleReconnect opts s).offlineQueue = [] ∨
      (scheduleReconnect opts s).reconnectTimer = true := by
  unfold scheduleReconnect
  split
  · next h => exact Or.inr (htimer (by simpa [hd] using h))
  · split
    · rw [rejectOfflineQueue_eq]
      exact Or.inl rfl
    · exact Or.inr rfl

theorem rejectOfflineQueue_queue (err : Err) (s : State) :
    (rejectOfflineQueue err s).offlineQueue = [] := by
  rw [rejectOfflineQueue_eq]

theorem close_queue (s : State) : (close s).offlineQueue = [] := by
  unfold close
  dsimp only
  split
  · exact rejectOfflineQueue_queue _ _
  · exact rejectOfflineQueue_queue _ _

/-- A loss of the connection empties the queue or sets a timer. -/
theorem handleDisconnect_serves {s : State} (hw : WaiterInv s)
    (htimer : s.reconnecting = true → s.reconnectTimer = true)
    (hsocket : s.socket.isSome = true) (err : Err) :
    (handleDisconnect opts err s).offlineQueue = [] ∨
      (handleDisconnect opts err s).reconnectTimer = true := by
  rw [handleDisconnect_eq opts hw.inflight]
  split
  · next hnone => simp [Option.isNone_iff_eq_none.mp hnone] at hsocket
  · split
    · next hauto =>
        have hd : s.destroyed = false := by simpa using (Bool.and_eq_true_iff.mp hauto).2
        exact scheduleReconnect_serves opts (s := disconnected err s) htimer hd
    · exact Or.inl (rejectOfflineQueue_queue _ _)

theorem connectFailed_serves {s : State}
    (htimer : s.reconnecting = true → s.reconnectTimer = true) :
    (connectFailed opts s).offlineQueue = [] ∨ (connectFailed opts s).reconnectTimer = true := by
  unfold connectFailed
  dsimp only
  split
  · next hauto =>
      have hd : s.destroyed = false := by simpa using (Bool.and_eq_true_iff.mp hauto).2
      exact scheduleReconnect_serves opts
        (s := { s with socket := none, reconnectAttempts := s.reconnectAttempts + 1 }) htimer hd
  · exact Or.inl (rejectOfflineQueue_queue _ _)

theorem attended_of {s : State} (h : s.offlineQueue = [] ∨ s.reconnectTimer = true) :
    Attended s := fun hq =>
  Or.inl (h.resolve_left hq)

/-- The connection is lost, or a socket that is not stored fails. -/
theorem handleDisconnect_attended {s : State} (hw : WaiterInv s)
    (htimer : s.reconnecting = true → s.reconnectTimer = true) (h : Attended s) (err : Err) :
    Attended (handleDisconnect opts err s) := by
  cases hsocket : s.socket with
  | none =>
      have hsame : handleDisconnect opts err s = { s with recvBuf := [] } := by
        unfold handleDisconnect
        rw [if_pos (by simp [hsocket])]
      rw [hsame]
      exact h
  | some i => exact attended_of (handleDisconnect_serves opts hw htimer (by simp [hsocket]) err)

theorem settleConnection_queue (i : ℕ) (pc : Pc) (s : State) :
    (settleConnection i pc s).offlineQueue = s.offlineQueue := by
  unfold settleConnection
  split
  · rfl
  · rfl

theorem onError_attended {s : State} (hw : WaiterInv s) (hl : s.link.Sound) (h : Attended s)
    (i : ℕ) (e : Err) : Attended (onError opts i e s) := by
  have hphase : WaiterInv (s.updateSock i fun k => { k with phase := .errored }) :=
    hw.settles (State.Settles.of_eq rfl)
  intro hq
  rw [onError, settleConnection_queue] at hq
  rw [onError, link_settleConnection]
  exact (handleDisconnect_attended opts hphase hl.timer h e hq).settled i (Or.inl rfl)

/-- Only a call without a connection adds to the queue. -/
theorem queue_of_ledger {s t : State} {a : Action} (hs : Ledger opts s a t)
    (hq : t.offlineQueue ≠ []) : s.offlineQueue ≠ [] ∨ a.sends = true ∧ s.socket = none ∧
      opts.autoReconnect = true ∧ s.destroyed = false := by
  have hsub : s.Settles t → s.offlineQueue ≠ [] := fun hset hempty => by
    have hsublist := hset.offlineQueue
    rw [hempty] at hsublist
    exact hq (List.sublist_nil.mp hsublist)
  cases hs with
  | kept _ hset _ => exact Or.inl (hsub hset)
  | lost _ hset _ => exact Or.inl (hsub hset)
  | read _ hset => exact Or.inl (hsub hset)
  | queued hsends hd hsocket hauto _ _ _ _ => exact Or.inr ⟨hsends, hsocket, hauto, hd⟩
  | sent _ _ _ hqueue _ _ => exact Or.inl (hqueue ▸ hq)
  | unsent _ _ _ _ hqueue _ _ => exact Or.inl (hqueue ▸ hq)
  | flushed _ _ _ hqueue _ _ => exact absurd hqueue hq

/-- A run of `doConnect` stops short of the queue only if someone else deals with it. -/
theorem serves_of_rejects {s : State} {k : ℕ} (hk : (s.tasks k).pc.attempting = false)
    (h : s.link.Serves) (hq : s.offlineQueue ≠ [])
    (hc : s.socket = none ∨ s.offlineQueue = [] ∨ s.reconnectTimer = true ∨ s.OthersSend k)
    (pc : Pc) : (s.link.setPc k pc).Serves := by
  rcases hc with hnone | hempty | htimer | ⟨t, -, htk, ht⟩
  · exact h.setPc hk (Or.inr (Or.inl hnone))
  · exact absurd hempty hq
  · exact Or.inl htimer
  · rcases ht with hattempt | hlate
    · refine Or.inr (Or.inl ⟨t, ?_⟩)
      simpa [Link.setPc, State.link, htk] using hattempt
    · rcases Option.eq_none_or_eq_some s.socket with hnone | ⟨i, hsome⟩
      · exact h.setPc hk (Or.inr (Or.inl hnone))
      · refine Or.inr (Or.inr ⟨by simp [Link.setPc, State.link, hsome], t, ?_⟩)
        simpa [Link.setPc, State.link, htk] using hlate

theorem resume_attended {s t : State} {k : ℕ} (hw : WaiterInv s) (hl : s.link.Sound)
    (h : Attended s) (hc : Attends opts s (.resume k)) (hr : resume opts k s = some t) :
    Attended t := by
  have hqueue : t.offlineQueue ≠ [] → s.offlineQueue ≠ [] := fun hq =>
    (queue_of_ledger opts (resume_ledger opts hw hr) hq).resolve_right fun hs => by cases hs.1
  have hnot : ∀ {pc : Pc}, (s.tasks k).pc = pc → pc.attempting = false →
      (s.link.tasks k).pc.attempting = false := by
    intro pc hpc hfrom
    rw [← hfrom, ← hpc]
    rfl
  unfold resume at hr
  split at hr
  · cases hr
  · next hpc =>
      cases hr
      intro hq
      obtain ⟨pc, -, hto, hlink⟩ := link_connected opts k s
      rw [hlink]
      exact (h (hqueue hq)).setPc (hnot hpc rfl) (hto.imp_right Or.inl)
  · cases hr
    rcases connectFailed_serves opts hl.timer with hempty | htimer
    · exact fun hq => absurd hempty hq
    · exact fun _ => Or.inl htimer
  · next w hpc =>
      split at hr
      · cases hr
      · next e hout =>
          cases hr
          exact fun hq => serves_of_rejects (hnot hpc rfl) (h (hqueue hq)) (hqueue hq)
            (hc.2 ⟨w, e, Or.inl hpc, hout⟩) _
      · cases hr
        unfold authenticated
        split
        · intro hq
          obtain ⟨pc, hlate, hlink⟩ := link_reRegisterWatches opts k 0 s
          rw [hlink]
          exact (h (hqueue hq)).setPc (hnot hpc rfl) (Or.inl hlate)
        · exact fun hq => absurd (close_queue s) hq
        · exact fun hq => absurd (close_queue s) hq
  · next hpc =>
      cases hr
      exact fun hq => (h (hqueue hq)).setPc (hnot hpc rfl)
        (Or.inr (Or.inr (congrArg Pc.late hpc)))
  · cases hr
    exact fun hq => absurd (rejectOfflineQueue_queue _ s) hq
  · next pos w hpc =>
      split at hr
      · cases hr
      · next e hout =>
          cases hr
          exact fun hq => serves_of_rejects (hnot hpc rfl) (h (hqueue hq)) (hqueue hq)
            (hc.2 ⟨w, e, Or.inr ⟨pos, hpc⟩, hout⟩) _
      · cases hr
        intro hq
        obtain ⟨pc, hlate, hlink⟩ := link_reRegisterWatches opts k pos s
        rw [hlink]
        exact (h (hqueue hq)).setPc (hnot hpc rfl) (Or.inl hlate)
  · next hpc =>
      cases hr
      intro hq
      rw [link_setPc, link_flushOfflineQueue]
      exact (h (hqueue hq)).setPc (hnot hpc rfl)
        (Or.inr (Or.inl ((flushOfflineQueue_queue opts hw).resolve_right hq)))
  · cases hr

/-- Whether a call queues a request, there is someone to deal with it. -/
theorem expects_serves {s t : State} (h : s.Expects) (hlink : t.link = s.link) :
    t.link.Serves := by
  rw [hlink]
  rcases h with htimer | ⟨k, -, hattempt⟩
  · exact Or.inl htimer
  · exact Or.inr (Or.inl ⟨k, hattempt⟩)

/-- A call sends or queues a request. -/
theorem sends_attended {s t : State} {a : Action} (h : Attended s) (hs : Ledger opts s a t)
    (hlink : t.link = s.link)
    (hc : s.socket = none → opts.autoReconnect = true → s.destroyed = false → s.Expects) :
    Attended t := by
  intro hq
  rcases queue_of_ledger opts hs hq with hold | ⟨-, hsocket, hauto, hd⟩
  · rw [hlink]
    exact h hold
  · exact expects_serves (hc hsocket hauto hd) hlink

theorem step_attended {s t : State} {a : Action} (hw : WaiterInv s) (hl : s.link.Sound)
    (h : Attended s) (hc : Attends opts s a) (hs : step opts s a = some t) : Attended t := by
  have hledger := step_ledger opts hw hs
  have hother : a.sends = false → a.ends = false → (∀ k, a ≠ .resume k) → a ≠ .close →
      Attended t := by
    intro hsends hends hresume hclose hq
    have hold := (queue_of_ledger opts hledger hq).resolve_right fun hr => by
      rw [hsends] at hr
      cases hr.1
    exact (h hold).step (step_link opts hs) hl hends hresume hclose
  cases a with
  | close =>
      cases hs
      exact fun hq => absurd (close_queue s) hq
  | request req =>
      simp only [step] at hs
      split at hs
      · split at hs
        · next hvalid =>
            cases hs
            exact sends_attended opts h hledger (link_send opts req s) (hc hvalid)
        · cases hs
          exact h
      · cases hs
  | watch key ns callback =>
      simp only [step] at hs
      split at hs
      · next hvalid =>
          cases hs
          exact sends_attended opts h hledger (link_watch opts key ns callback s) (hc hvalid)
      · cases hs
        exact h
  | unwatch key ns =>
      simp only [step] at hs
      split at hs
      · cases hs
        intro hq
        rw [link_unwatch]
        rcases queue_of_ledger opts hledger hq with hold | ⟨-, hsocket, -, -⟩
        · exact h hold
        · refine h fun hempty => hq ?_
          unfold unwatch
          simp [hsocket, hempty]
      · cases hs
        exact h
  | resume k =>
      simp only [step] at hs
      split at hs
      · exact resume_attended opts hw hl h hc hs
      · cases hs
  | sockError i e =>
      simp only [step, Option.ite_none_right_eq_some, Option.some.injEq] at hs
      rw [← hs.2]
      exact onError_attended opts hw hl h i e
  | sockClose i =>
      simp only [step, Option.ite_none_right_eq_some, Option.some.injEq] at hs
      rw [← hs.2]
      have hphase : WaiterInv (s.updateSock i fun k => { k with phase := .closed }) :=
        hw.settles (State.Settles.of_eq rfl)
      exact handleDisconnect_attended opts hphase hl.timer h _
  | connect _ => exact hother rfl rfl (by simp) (by simp)
  | sockConnected _ => exact hother rfl rfl (by simp) (by simp)
  | sockData _ _ => exact hother rfl rfl (by simp) (by simp)
  | connectTimeout _ => exact hother rfl rfl (by simp) (by simp)
  | idleTimeout _ => exact hother rfl rfl (by simp) (by simp)
  | requestTimeout _ => exact hother rfl rfl (by simp) (by simp)
  | reconnectTimer _ => exact hother rfl rfl (by simp) (by simp)
  | round => exact hother rfl rfl (by simp) (by simp)
  | callbackThrow => exact hother rfl rfl (by simp) (by simp)

end Serving

/-- What holds of every client that attends to its requests. -/
structure Attentive (s : State) : Prop where
  waiters : WaiterInv s
  link : s.link.Sound
  located : Located s
  attended : Attended s

theorem attentive_init : Attentive State.init where
  waiters := waiterInv_init
  link := ⟨fun i hi => (by cases hi), fun hr => (by cases hr), fun ht => (by cases ht)⟩
  located w hw := by cases hw
  attended hq := absurd rfl hq

theorem Attentive.noStranded {s : State} (h : Attentive s) : NoStranded s := by
  intro w hw hunsettled
  rcases h.located w hw hunsettled with hin | hq
  · exact Or.inl hin
  · refine Or.inr ⟨hq, ?_⟩
    rcases h.attended (List.ne_nil_of_mem hq) with htimer | ⟨t, ht⟩ | ⟨-, t, ht⟩
    · exact Or.inl htimer
    · refine Or.inr ⟨t, ?_⟩
      have hpc : (s.tasks t).pc.attempting = true := ht
      cases hdone : (s.tasks t).pc <;> first | rfl | (rw [hdone] at hpc; cases hpc)
    · refine Or.inr ⟨t, ?_⟩
      have hpc : (s.tasks t).pc.late = true := ht
      cases hdone : (s.tasks t).pc <;> first | rfl | (rw [hdone] at hpc; cases hpc)

/-- No request is stranded in a run whose steps attend to the requests. -/
theorem requests_attended : NeverStrands opts (Attends opts) := by
  intro s h
  refine (h.invariant attentive_init ?_).noStranded
  intro s a t hs hc hstep
  exact ⟨step_waiterInv opts hs.waiters hstep, (step_link opts hstep).sound hs.link,
    step_located opts hs.waiters hs.link hs.located hc hstep,
    step_attended opts hs.waiters hs.link hs.attended hc hstep⟩

/-- The options of a client without a request timeout. -/
def withoutTimeout : Options :=
  { Options.defaults with requestTimeoutMs := 0 }

/-- A client is closed while a request is in flight, and the server closes the connection
without a reply: the request stays in flight on the closed socket. -/
theorem request_stranded : ¬ NeverStrands withoutTimeout (fun _ _ => True) := by
  intro h
  obtain ⟨s, hrun, hnext, hunsettled, hwire, hphase, hqueue⟩ : ∃ s,
      exec (step withoutTimeout) (fun _ _ => True) State.init
        [.connect true, .sockConnected 0, .resume 0, .resume 0, .request (.get "a" none),
          .close, .sockClose 0] = some s ∧
      s.nextWaiter = 1 ∧ (s.waiters 0).settled = false ∧
        s.wire = [⟨0, 0, .get "a" none⟩] ∧ (s.socks 0).phase = .closed ∧
          s.offlineQueue = [] :=
    ⟨_, rfl, rfl, rfl, rfl, rfl, rfl⟩
  rcases h s ⟨_, run_of_exec hrun⟩ 0 (by simp [hnext]) hunsettled with
    ⟨-, x, hx, -, hopen⟩ | ⟨hq, -⟩
  · rw [hwire] at hx
    rw [List.mem_singleton.mp hx] at hopen
    exact hopen hphase
  · rw [hqueue] at hq
    cases hq

end NodeTcp

end DittoClient
