import DittoClient.NodeTcp.Machine
import Mathlib.Data.List.Nodup

/-!
# The discipline of the waiters

A waiter is created for one frame. It is in one of the two queues, or in none; in the
offline queue it carries its frame and has been given nothing yet, and in flight its frame
is on the wire. Most steps only settle waiters and take them out of the queues
(`State.Settles`); the others send a new frame, queue one, or move queued frames to the
wire in their order. Each of these keeps the discipline (`WaiterInv`), in whatever order
they come.
-/

namespace DittoClient

namespace NodeTcp

open DittoClient.Wire
open DittoClient.Transition

/-- A waiter that was given at most one outcome, and one just when it is settled. -/
structure Waiter.Sound (x : Waiter) : Prop where
  once : x.outcomes.length ≤ 1
  unsettled : x.settled = false → x.outcomes = []
  answered : x.settled = true → x.outcomes ≠ []

/-- `y` is the waiter `x`, possibly settled by now. -/
structure Waiter.From (y x : Waiter) : Prop where
  frame : y.frame = x.frame
  request : y.request = x.request
  owner : y.owner = x.owner
  sound : x.Sound → y.Sound

namespace Waiter

theorem From.refl (x : Waiter) : x.From x :=
  ⟨rfl, rfl, rfl, fun h => h⟩

theorem From.trans {x y z : Waiter} (h : z.From y) (h' : y.From x) : z.From x where
  frame := h.frame.trans h'.frame
  request := h.request.trans h'.request
  owner := h.owner.trans h'.owner
  sound hx := h.sound (h'.sound hx)

theorem clearTimeout_from (x : Waiter) : x.clearTimeout.From x :=
  ⟨rfl, rfl, rfl, fun h => ⟨h.once, h.unsettled, h.answered⟩⟩

theorem settle_from (o : Settlement) (x : Waiter) : (x.settle o).From x := by
  unfold settle
  split
  · exact From.refl x
  · next h =>
      refine ⟨rfl, rfl, rfl, fun hx => ⟨?_, fun hs => (by cases hs), fun _ => by simp⟩⟩
      have hnil := hx.unsettled (by simpa using h)
      simp [hnil]

theorem finish_from (o : Settlement) (x : Waiter) : (x.finish o).From x :=
  (settle_from o _).trans (clearTimeout_from x)

theorem finish_settled (o : Settlement) (x : Waiter) : (x.finish o).settled = true := by
  unfold finish settle
  split
  · assumption
  · rfl

/-- A reply is what a waiter was settled with. -/
theorem finish_replied {o : Settlement} {x : Waiter} {r : ClientResponse}
    (h : (x.finish o).outcomes.head? = some (.resolved r)) :
    x.outcomes.head? = some (.resolved r) ∨ o = .resolved r := by
  unfold finish settle at h
  split at h
  · exact Or.inl h
  · cases hout : x.outcomes with
    | nil =>
        simp only [clearTimeout, hout] at h
        exact Or.inr (Option.some.inj h)
    | cons o' os =>
        simp only [clearTimeout, hout] at h
        exact Or.inl h

theorem finish_finish (o : Settlement) (x : Waiter) : (x.finish o).finish o = x.finish o := by
  have hclear : (x.finish o).clearTimeout = x.finish o := by
    unfold finish settle
    split
    · rfl
    · rfl
  rw [finish, hclear, settle, if_pos (finish_settled o x)]

end Waiter

/-- The discipline of the waiters. -/
structure WaiterInv (s : State) : Prop where
  sound : ∀ w, (s.waiters w).Sound
  inflight : ∀ w ∈ s.inflight, (s.waiters w).frame = none
  queued : ∀ w ∈ s.offlineQueue, (s.waiters w).frame.isSome = true ∧
    (s.waiters w).settled = false ∧ (s.waiters w).armed = false
  own : ∀ w req, (s.waiters w).frame = some req → req = (s.waiters w).request
  nodup : (s.inflight ++ s.offlineQueue).Nodup
  bound : ∀ w ∈ s.inflight ++ s.offlineQueue, w < s.nextWaiter
  written : ∀ x ∈ s.wire, x.waiter < s.nextWaiter ∧ x.waiter ∉ s.offlineQueue
  frames : ∀ x ∈ s.wire, x.frame = (s.waiters x.waiter).request
  once : (s.wire.map Sent.waiter).Nodup
  kept : s.requeued = false

theorem waiterInv_init : WaiterInv State.init := by
  constructor <;> simp [State.init]
  exact ⟨by simp, by simp, by simp⟩

/-- `t` comes from `s` by settling waiters and taking waiters out of the queues. -/
structure State.Settles (s t : State) : Prop where
  inflight : t.inflight.Sublist s.inflight
  offlineQueue : t.offlineQueue.Sublist s.offlineQueue
  wire : t.wire = s.wire
  nextWaiter : t.nextWaiter = s.nextWaiter
  requeued : t.requeued = s.requeued
  waiters : ∀ w, (t.waiters w).From (s.waiters w)
  kept : ∀ w ∈ t.offlineQueue, t.waiters w = s.waiters w
  left : ∀ w, (t.waiters w).settled = false → (s.waiters w).settled = false ∧
    (w ∈ s.inflight → w ∈ t.inflight) ∧ (w ∈ s.offlineQueue → w ∈ t.offlineQueue)
  received : s.received <+: t.received
  replied : ∀ w r, (t.waiters w).outcomes.head? = some (.resolved r) →
    (s.waiters w).outcomes.head? = some (.resolved r) ∨
      ∃ d ∈ t.received.drop s.received.length, d.waiter = some w ∧
        decodeResponse d.payload = .ok r

namespace State

/-- The queues, the waiters, and what was written and received. -/
def requests (s : State) :
    List ℕ × List ℕ × List Sent × ℕ × Bool × List Delivery × (ℕ → Waiter) :=
  (s.inflight, s.offlineQueue, s.wire, s.nextWaiter, s.requeued, s.received, s.waiters)

/-- Changes outside of the queues and the waiters. -/
theorem Settles.of_eq {s t : State} (h : t.requests = s.requests) : s.Settles t := by
  simp only [requests, Prod.mk.injEq] at h
  obtain ⟨hi, hq, hw, hn, hr, hrec, hwaiters⟩ := h
  refine ⟨by rw [hi], by rw [hq], hw, hn, hr, fun w => ?_, fun w _ => by rw [hwaiters],
    fun w hw => ?_, hrec ▸ List.prefix_refl _, fun w r hout => ?_⟩
  · rw [hwaiters]
    exact Waiter.From.refl _
  · rw [hi, hq]
    rw [hwaiters] at hw
    exact ⟨hw, fun hin => hin, fun hin => hin⟩
  · rw [hwaiters] at hout
    exact Or.inl hout

theorem Settles.refl (s : State) : s.Settles s :=
  Settles.of_eq rfl

theorem Settles.trans {s t u : State} (h : s.Settles t) (h' : t.Settles u) : s.Settles u where
  inflight := h'.inflight.trans h.inflight
  offlineQueue := h'.offlineQueue.trans h.offlineQueue
  wire := h'.wire.trans h.wire
  nextWaiter := h'.nextWaiter.trans h.nextWaiter
  requeued := h'.requeued.trans h.requeued
  waiters w := (h'.waiters w).trans (h.waiters w)
  kept w hw := (h'.kept w hw).trans (h.kept w (h'.offlineQueue.subset hw))
  left w hw := by
    obtain ⟨ht, hin', hq'⟩ := h'.left w hw
    obtain ⟨hs, hin, hq⟩ := h.left w ht
    exact ⟨hs, fun hw => hin' (hin hw), fun hw => hq' (hq hw)⟩
  received := h.received.trans h'.received
  replied w r hout := by
    obtain ⟨ds, hds⟩ := h.received
    obtain ⟨ds', hds'⟩ := h'.received
    rw [← hds', ← hds]
    rcases h'.replied w r hout with hold | ⟨d, hd, hdw, hdr⟩
    · rcases h.replied w r hold with hold | ⟨d, hd, hdw, hdr⟩
      · exact Or.inl hold
      · rw [← hds, List.drop_left] at hd
        refine Or.inr ⟨d, ?_, hdw, hdr⟩
        rw [List.append_assoc, List.drop_left]
        exact List.mem_append_left _ hd
    · rw [← hds', List.drop_left] at hd
      refine Or.inr ⟨d, ?_, hdw, hdr⟩
      rw [List.append_assoc, List.drop_left]
      exact List.mem_append_right _ hd

end State

theorem WaiterInv.settles {s t : State} (h : WaiterInv s) (hst : s.Settles t) :
    WaiterInv t where
  sound w := (hst.waiters w).sound (h.sound w)
  inflight w hw := by
    rw [(hst.waiters w).frame]
    exact h.inflight w (hst.inflight.subset hw)
  queued w hw := by
    rw [hst.kept w hw]
    exact h.queued w (hst.offlineQueue.subset hw)
  own w req hreq := by
    rw [(hst.waiters w).frame] at hreq
    rw [(hst.waiters w).request]
    exact h.own w req hreq
  nodup := h.nodup.sublist (hst.inflight.append hst.offlineQueue)
  bound w hw := by
    rw [hst.nextWaiter]
    exact h.bound w ((hst.inflight.append hst.offlineQueue).subset hw)
  written x hx := by
    rw [hst.wire] at hx
    rw [hst.nextWaiter]
    exact ⟨(h.written x hx).1, fun hq => (h.written x hx).2 (hst.offlineQueue.subset hq)⟩
  frames x hx := by
    rw [hst.wire] at hx
    rw [(hst.waiters x.waiter).request]
    exact h.frames x hx
  once := by
    rw [hst.wire]
    exact h.once
  kept := hst.requeued.trans h.kept

variable (opts : Options)

section Settling

theorem rejectOfflineQueue_eq (err : Err) (s : State) :
    rejectOfflineQueue err s =
      { s with
        offlineQueue := []
        waiters := fun w => if w ∈ s.offlineQueue
          then (s.waiters w).finish (.rejected err) else s.waiters w } :=
  State.forEach_eq (Waiter.finish_finish _) _ _

theorem rejectOfflineQueue_settles (err : Err) (s : State) :
    s.Settles (rejectOfflineQueue err s) := by
  rw [rejectOfflineQueue_eq]
  refine ⟨List.Sublist.refl _, List.nil_sublist _, rfl, rfl, rfl, fun w => ?_, by simp,
    fun w hw => ?_, List.prefix_refl _, fun w r hout => Or.inl ?_⟩
  · dsimp only
    split
    · exact Waiter.finish_from _ _
    · exact Waiter.From.refl _
  · dsimp only at hw
    split at hw
    · rw [Waiter.finish_settled] at hw
      cases hw
    · next hq => exact ⟨hw, fun hin => hin, fun hin => absurd hin hq⟩
  · dsimp only at hout
    split at hout
    · exact (Waiter.finish_replied hout).resolve_right fun he => by cases he
    · exact hout

theorem scheduleReconnect_settles (s : State) : s.Settles (scheduleReconnect opts s) := by
  unfold scheduleReconnect
  split
  · exact State.Settles.refl s
  · split
    · exact rejectOfflineQueue_settles _ s
    · exact State.Settles.of_eq rfl

/-- The error for a request in flight when the connection is lost. -/
def lostErr (err : Err) : Err :=
  .error ("Connection lost before response was received: " ++ err.message)

/-- Waiters without a frame are rejected, and the branch that queues them again is not
taken. -/
theorem disconnect_eq (err : Err) {ws : List ℕ} {s : State}
    (h : ∀ w ∈ ws, (s.waiters w).frame = none) :
    ws.foldl (disconnectWaiter err) s = s.forEach ws (Waiter.finish (.rejected (lostErr err))) := by
  induction ws generalizing s with
  | nil => rfl
  | cons v ws ih =>
      have hv : disconnectWaiter err s v =
          s.updateWaiter v (Waiter.finish (.rejected (lostErr err))) := by
        have hframe : ((s.updateWaiter v Waiter.clearTimeout).waiters v).frame = none := by
          simpa [State.updateWaiter, Waiter.clearTimeout] using h v List.mem_cons_self
        simp only [disconnectWaiter, hframe]
        simp [State.updateWaiter, Waiter.finish, lostErr]
      rw [List.foldl_cons, hv, ih]
      · rfl
      · intro w hw
        by_cases hwv : w = v
        · subst hwv
          simpa [State.updateWaiter, (Waiter.finish_from _ _).frame] using
            h w List.mem_cons_self
        · simpa [State.updateWaiter, hwv] using h w (List.mem_cons_of_mem _ hw)

/-- What is left when the connection is lost and the waiters in flight are rejected. -/
def disconnected (err : Err) (s : State) : State :=
  { s with
    socket := none
    recvBuf := []
    inflight := []
    waiters := fun w => if w ∈ s.inflight
      then (s.waiters w).finish (.rejected (lostErr err)) else s.waiters w }

/-- `handleDisconnect`, where no waiter in flight has a frame. -/
theorem handleDisconnect_eq {s : State} (h : ∀ w ∈ s.inflight, (s.waiters w).frame = none)
    (err : Err) :
    handleDisconnect opts err s =
      if s.socket.isNone then { s with recvBuf := [] }
      else if opts.autoReconnect && !s.destroyed then
        scheduleReconnect opts (disconnected err s)
      else rejectOfflineQueue err (disconnected err s) := by
  have hloop : s.inflight.foldl (disconnectWaiter err)
      { s with socket := none, recvBuf := [], inflight := [] } = disconnected err s := by
    rw [disconnect_eq (s := { s with socket := none, recvBuf := [], inflight := [] }) err h,
      State.forEach_eq (Waiter.finish_finish _)]
    rfl
  unfold handleDisconnect
  simp only [hloop]
  rfl

theorem disconnected_settles {s : State} (h : WaiterInv s) (err : Err) :
    s.Settles (disconnected err s) := by
  refine ⟨List.nil_sublist _, List.Sublist.refl _, rfl, rfl, rfl, fun w => ?_, fun w hw => ?_,
    fun w hw => ?_, List.prefix_refl _, fun w r hout => Or.inl ?_⟩
  · dsimp only [disconnected]
    split
    · exact Waiter.finish_from _ _
    · exact Waiter.From.refl _
  · have hw' : w ∉ s.inflight := fun hin =>
      (List.nodup_append.mp h.nodup).2.2 w hin w hw rfl
    simp [disconnected, hw']
  · dsimp only [disconnected] at hw
    split at hw
    · rw [Waiter.finish_settled] at hw
      cases hw
    · next hin => exact ⟨hw, fun hw => absurd hw hin, fun hw => hw⟩
  · dsimp only [disconnected] at hout
    split at hout
    · exact (Waiter.finish_replied hout).resolve_right fun he => by cases he
    · exact hout

theorem handleDisconnect_settles {s : State} (h : WaiterInv s) (err : Err) :
    s.Settles (handleDisconnect opts err s) := by
  rw [handleDisconnect_eq opts h.inflight]
  split
  · exact State.Settles.of_eq rfl
  · split
    · exact (disconnected_settles h err).trans (scheduleReconnect_settles opts _)
    · exact (disconnected_settles h err).trans (rejectOfflineQueue_settles err _)

theorem destroySock_settles (i : ℕ) (e : Err) (s : State) : s.Settles (destroySock i e s) :=
  State.Settles.of_eq rfl

theorem close_settles (s : State) : s.Settles (close s) := by
  have hreject := (State.Settles.of_eq rfl :
    s.Settles (cancelReconnectTimer { s with destroyed := true })).trans
      (rejectOfflineQueue_settles (.error "Client closed.") _)
  unfold close
  dsimp only
  split
  · exact hreject
  · exact hreject.trans (State.Settles.of_eq rfl)

theorem doConnect_settles (created : Bool) (s : State) : s.Settles (doConnect created s) := by
  unfold doConnect
  split
  · exact State.Settles.of_eq rfl
  · split
    · exact State.Settles.of_eq rfl
    · exact State.Settles.of_eq rfl

theorem connect_settles (created : Bool) (s : State) : s.Settles (connect created s) := by
  unfold connect
  split
  · exact State.Settles.refl s
  · split
    · exact State.Settles.refl s
    · exact doConnect_settles created s

theorem connectFailed_settles (s : State) : s.Settles (connectFailed opts s) := by
  unfold connectFailed
  dsimp only
  have hstart : s.Settles
      { s with socket := none, reconnectAttempts := s.reconnectAttempts + 1 } :=
    State.Settles.of_eq rfl
  split
  · exact hstart.trans (scheduleReconnect_settles opts _)
  · exact hstart.trans (rejectOfflineQueue_settles _ _)

theorem setPc_settles (t : ℕ) (pc : Pc) (s : State) : s.Settles (s.setPc t pc) :=
  State.Settles.of_eq rfl

theorem settleConnection_settles (i : ℕ) (pc : Pc) (s : State) :
    s.Settles (settleConnection i pc s) := by
  unfold settleConnection
  split
  · exact setPc_settles _ _ s
  · exact State.Settles.refl s

/-- A waiter that is not queued is settled, with a reply only if it was just received. -/
theorem finish_settles {s : State} {w : ℕ} (hw : w ∉ s.offlineQueue) {o : Settlement}
    {ds : List Delivery} (ho : ∀ r, o = .resolved r →
      ∃ d ∈ ds, d.waiter = some w ∧ decodeResponse d.payload = .ok r) :
    s.Settles { s.updateWaiter w (Waiter.finish o) with received := s.received ++ ds } := by
  refine ⟨List.Sublist.refl _, List.Sublist.refl _, rfl, rfl, rfl, fun v => ?_, fun v hv => ?_,
    fun v hv => ?_, List.prefix_append _ _, fun v r hout => ?_⟩
  · by_cases hvw : v = w
    · subst hvw
      simpa [State.updateWaiter] using Waiter.finish_from o (s.waiters v)
    · simpa [State.updateWaiter, hvw] using Waiter.From.refl (s.waiters v)
  · have hvw : v ≠ w := fun h => hw (h ▸ hv)
    simp [State.updateWaiter, hvw]
  · by_cases hvw : v = w
    · subst hvw
      simp [State.updateWaiter, Waiter.finish_settled] at hv
    · exact ⟨by simpa [State.updateWaiter, hvw] using hv, fun hin => hin, fun hin => hin⟩
  · by_cases hvw : v = w
    · subst hvw
      have hfinish : ((s.waiters v).finish o).outcomes.head? = some (.resolved r) := by
        simpa [State.updateWaiter] using hout
      refine (Waiter.finish_replied hfinish).imp_right fun he => ?_
      simpa using ho r he
    · exact Or.inl (by simpa [State.updateWaiter, hvw] using hout)

theorem reject_settles {s : State} {w : ℕ} (hw : w ∉ s.offlineQueue) (e : Err) :
    s.Settles (s.updateWaiter w (Waiter.finish (.rejected e))) := by
  have hset : s.Settles { s.updateWaiter w (Waiter.finish (.rejected e)) with
      received := s.received ++ [] } := finish_settles hw fun _ he => by cases he
  rwa [List.append_nil] at hset

/-- Something is received for which no waiter is settled. -/
theorem receive_settles (s : State) (ds : List Delivery) :
    s.Settles { s with received := s.received ++ ds } where
  inflight := List.Sublist.refl _
  offlineQueue := List.Sublist.refl _
  wire := rfl
  nextWaiter := rfl
  requeued := rfl
  waiters w := Waiter.From.refl _
  kept _ _ := rfl
  left _ hw := ⟨hw, fun hin => hin, fun hin => hin⟩
  received := List.prefix_append _ _
  replied _ _ hout := Or.inl hout

theorem shiftWaiter_settles {s : State} (h : WaiterInv s) (i : ℕ) {payload : List UInt8}
    {o : Settlement} (ho : ∀ r, o = .resolved r → decodeResponse payload = .ok r) :
    s.Settles (shiftWaiter i payload o s) := by
  unfold shiftWaiter
  split
  · exact receive_settles s _
  · next w ws hin =>
      have hw : w ∉ s.offlineQueue := fun hq =>
        (List.nodup_append.mp h.nodup).2.2 w (by simp [hin]) w hq rfl
      have hset : s.Settles { s.updateWaiter w (Waiter.finish o) with
          received := s.received ++ [⟨i, payload, some w, none⟩] } :=
        finish_settles hw fun r he => ⟨_, List.mem_singleton.mpr rfl, rfl, ho r he⟩
      refine ⟨by rw [hin]; exact List.sublist_cons_self w ws, hset.offlineQueue, hset.wire,
        hset.nextWaiter, hset.requeued, hset.waiters, hset.kept, fun v hv => ?_, hset.received,
        hset.replied⟩
      obtain ⟨hunsettled, -, hqueue⟩ := hset.left v hv
      refine ⟨hunsettled, fun hvin => ?_, hqueue⟩
      rw [hin] at hvin
      rcases List.mem_cons.mp hvin with rfl | hvin
      · simp [State.updateWaiter, Waiter.finish_settled] at hv
      · exact hvin

theorem handlePayload_settles {s : State} (h : WaiterInv s) (i : ℕ) (payload : List UInt8) :
    s.Settles (handlePayload i payload s) := by
  unfold handlePayload
  split
  · exact shiftWaiter_settles h i fun _ he => by cases he
  · exact receive_settles s _
  · next r _ hdecode =>
      refine shiftWaiter_settles h i fun r' he => ?_
      cases he
      exact hdecode

theorem onDataRound_settles {s : State} (h : WaiterInv s) (i : ℕ) :
    s.Settles (onDataRound opts i s) := by
  unfold onDataRound
  dsimp only
  split
  · exact State.Settles.of_eq rfl
  · split
    · split
      · exact State.Settles.of_eq rfl
      · exact State.Settles.of_eq rfl
    · split
      · exact State.Settles.of_eq rfl
      · have hcut : s.Settles { s with
            recvBuf := s.recvBuf.drop (4 + Octets.ofBigEndian (s.recvBuf.take 4)) } :=
          State.Settles.of_eq rfl
        exact hcut.trans (handlePayload_settles (h.settles hcut) i _)

end Settling

section Sending

/-- What writing a frame for the waiter `w` changes. -/
theorem writeInflight_eq (frame : Request) (w : ℕ) (s : State) :
    (writeInflight opts frame w s).1 =
      { s with
        inflight := s.inflight ++ [w]
        waiters := if opts.requestTimeoutMs ≤ 0 then s.waiters
          else Function.update s.waiters w { s.waiters w with armed := true }
        wire := match s.socket with
          | none => s.wire
          | some i => s.wire ++ [⟨i, w, frame⟩] } := by
  unfold writeInflight armRequestTimeout
  by_cases h : opts.requestTimeoutMs ≤ 0
  · cases hs : s.socket with
    | none => simp [h]
    | some i => simp [h]
  · cases hs : s.socket with
    | none => simp [h, State.updateWaiter]
    | some i => simp [h, State.updateWaiter]

theorem armed_from (x : Waiter) : ({ x with armed := true } : Waiter).From x :=
  ⟨rfl, rfl, rfl, fun h => ⟨h.once, h.unsettled, h.answered⟩⟩

/-- A frame is written for a waiter that carries none, is in neither queue, and of which
no frame was written. -/
theorem writeInflight_inv {s : State} (h : WaiterInv s) {frame : Request} {w : ℕ}
    (hw : w < s.nextWaiter) (hin : w ∉ s.inflight ++ s.offlineQueue)
    (hframe : (s.waiters w).frame = none) (hreq : frame = (s.waiters w).request)
    (hwire : w ∉ s.wire.map Sent.waiter) :
    WaiterInv (writeInflight opts frame w s).1 := by
  have hfrom : ∀ v, ((writeInflight opts frame w s).1.waiters v).From (s.waiters v) := by
    intro v
    rw [writeInflight_eq]
    dsimp only
    split
    · exact Waiter.From.refl _
    · by_cases hv : v = w
      · subst hv
        simpa using armed_from (s.waiters v)
      · simpa [hv] using Waiter.From.refl (s.waiters v)
  have hother : ∀ v, v ≠ w → (writeInflight opts frame w s).1.waiters v = s.waiters v := by
    intro v hv
    rw [writeInflight_eq]
    dsimp only
    split
    · rfl
    · simp [hv]
  have hsent : ∀ x ∈ (writeInflight opts frame w s).1.wire,
      x ∈ s.wire ∨ (x.waiter = w ∧ x.frame = frame) := by
    intro x hx
    rw [writeInflight_eq] at hx
    dsimp only at hx
    split at hx
    · exact Or.inl hx
    · rcases List.mem_append.mp hx with hx | hx
      · exact Or.inl hx
      · rw [List.mem_singleton.mp hx]
        exact Or.inr ⟨rfl, rfl⟩
  have hinflight : (writeInflight opts frame w s).1.inflight = s.inflight ++ [w] := by
    rw [writeInflight_eq]
  have hqueue : (writeInflight opts frame w s).1.offlineQueue = s.offlineQueue := by
    rw [writeInflight_eq]
  have hnext : (writeInflight opts frame w s).1.nextWaiter = s.nextWaiter := by
    rw [writeInflight_eq]
  have hnotq : w ∉ s.offlineQueue := fun hq => hin (List.mem_append_right _ hq)
  refine ⟨fun v => (hfrom v).sound (h.sound v), ?_, ?_, ?_, ?_, ?_, ?_, ?_, ?_, ?_⟩
  · intro v hv
    rw [hinflight] at hv
    rw [(hfrom v).frame]
    rcases List.mem_append.mp hv with hv | hv
    · exact h.inflight v hv
    · rw [List.mem_singleton.mp hv]
      exact hframe
  · intro v hv
    rw [hqueue] at hv
    have hvw : v ≠ w := fun he => hnotq (he ▸ hv)
    rw [hother v hvw]
    exact h.queued v hv
  · intro v req hv
    rw [(hfrom v).frame] at hv
    rw [(hfrom v).request]
    exact h.own v req hv
  · rw [hinflight, hqueue]
    have hperm : (s.inflight ++ [w] ++ s.offlineQueue).Perm
        (w :: (s.inflight ++ s.offlineQueue)) := by
      rw [List.append_assoc]
      exact List.perm_middle
    exact hperm.nodup_iff.mpr (List.nodup_cons.mpr ⟨hin, h.nodup⟩)
  · intro v hv
    rw [hinflight, hqueue] at hv
    rw [hnext]
    rcases List.mem_append.mp hv with hv | hv
    · rcases List.mem_append.mp hv with hv | hv
      · exact h.bound v (List.mem_append_left _ hv)
      · rw [List.mem_singleton.mp hv]
        exact hw
    · exact h.bound v (List.mem_append_right _ hv)
  · intro x hx
    rw [hqueue, hnext]
    rcases hsent x hx with hx | ⟨hxw, -⟩
    · exact h.written x hx
    · rw [hxw]
      exact ⟨hw, hnotq⟩
  · intro x hx
    rw [(hfrom x.waiter).request]
    rcases hsent x hx with hx | ⟨hxw, hxf⟩
    · exact h.frames x hx
    · rw [hxw, hxf]
      exact hreq
  · rw [writeInflight_eq]
    dsimp only
    split
    · exact h.once
    · rw [List.map_append]
      refine List.Nodup.append h.once (List.nodup_singleton w) ?_
      intro v hv hvw
      rw [List.mem_singleton.mp hvw] at hv
      exact hwire hv
  · rw [writeInflight_eq]
    exact h.kept

/-- A waiter is created; it is in no queue yet. -/
theorem newWaiter_inv {s : State} (h : WaiterInv s) {frame : Option Request}
    (owner : Owner) {req : Request} (hframe : ∀ r, frame = some r → r = req) :
    WaiterInv (s.newWaiter frame owner req) := by
  have hsame : ∀ w, w < s.nextWaiter →
      (s.newWaiter frame owner req).waiters w = s.waiters w := fun w hw => by
    simp [State.newWaiter, Nat.ne_of_lt hw]
  refine ⟨?_, ?_, ?_, ?_, h.nodup, ?_, ?_, ?_, h.once, h.kept⟩
  · intro w
    by_cases hw : w = s.nextWaiter
    · subst hw
      simp only [State.newWaiter, Function.update_self]
      exact ⟨by simp, fun _ => rfl, fun hs => by cases hs⟩
    · simpa [State.newWaiter, hw] using h.sound w
  · intro w hw
    rw [hsame w (h.bound w (List.mem_append_left _ hw))]
    exact h.inflight w hw
  · intro w hw
    rw [hsame w (h.bound w (List.mem_append_right _ hw))]
    exact h.queued w hw
  · intro w r hr
    by_cases hw : w = s.nextWaiter
    · subst hw
      simp only [State.newWaiter, Function.update_self] at hr ⊢
      exact hframe r hr
    · have hr' : (s.waiters w).frame = some r := by simpa [State.newWaiter, hw] using hr
      simpa [State.newWaiter, hw] using h.own w r hr'
  · exact fun w hw => Nat.lt_succ_of_lt (h.bound w hw)
  · exact fun x hx => ⟨Nat.lt_succ_of_lt (h.written x hx).1, (h.written x hx).2⟩
  · intro x hx
    rw [hsame x.waiter (h.written x hx).1]
    exact h.frames x hx

/-- A new frame is written. -/
theorem writeNew_inv {s : State} (h : WaiterInv s) (owner : Owner) (req : Request) :
    WaiterInv (writeInflight opts req s.nextWaiter (s.newWaiter none owner req)).1 := by
  refine writeInflight_inv opts (newWaiter_inv h owner (by simp)) (Nat.lt_succ_self _) ?_ ?_ ?_ ?_
  · exact fun hin => Nat.lt_irrefl _ (h.bound _ hin)
  · simp [State.newWaiter]
  · simp [State.newWaiter]
  · intro hin
    obtain ⟨x, hx, hxw⟩ := List.mem_map.mp hin
    exact absurd (h.written x hx).1 (by omega)

theorem send_inv {s : State} (h : WaiterInv s) (req : Request) : WaiterInv (send opts req s) := by
  unfold send
  split
  · exact h
  · split
    · split
      · -- the request is queued with its frame
        have hnew : WaiterInv (s.newWaiter (some req) .caller req) :=
          newWaiter_inv h .caller (by simp)
        have hfresh : s.nextWaiter ∉ s.inflight ++ s.offlineQueue :=
          fun hin => Nat.lt_irrefl _ (h.bound _ hin)
        refine ⟨hnew.sound, hnew.inflight, ?_, hnew.own, ?_, ?_, ?_, hnew.frames, h.once,
          h.kept⟩
        · intro w hw
          rcases List.mem_append.mp hw with hw | hw
          · exact hnew.queued w hw
          · rw [List.mem_singleton.mp hw]
            simp [State.newWaiter]
        · change (s.inflight ++ (s.offlineQueue ++ [s.nextWaiter])).Nodup
          rw [← List.append_assoc]
          refine List.Nodup.append h.nodup (List.nodup_singleton _) ?_
          intro w hw hwn
          rw [List.mem_singleton.mp hwn] at hw
          exact hfresh hw
        · intro w hw
          change w ∈ s.inflight ++ (s.offlineQueue ++ [s.nextWaiter]) at hw
          rw [← List.append_assoc] at hw
          rcases List.mem_append.mp hw with hw | hw
          · exact hnew.bound w hw
          · rw [List.mem_singleton.mp hw]
            exact Nat.lt_succ_self _
        · intro x hx
          refine ⟨(hnew.written x hx).1, fun hq => ?_⟩
          rcases List.mem_append.mp hq with hq | hq
          · exact (hnew.written x hx).2 hq
          · have hlt := (h.written x hx).1
            rw [List.mem_singleton.mp hq] at hlt
            exact Nat.lt_irrefl _ hlt
      · exact h
    · exact writeNew_inv opts h .caller req

theorem reRegisterWatches_inv {s : State} (h : WaiterInv s) (t pos : ℕ) :
    WaiterInv (reRegisterWatches opts t pos s) := by
  unfold reRegisterWatches
  split
  · exact (writeNew_inv opts h _ _).settles (setPc_settles _ _ _)
  · exact h.settles (setPc_settles _ _ _)

theorem connected_inv {s : State} (h : WaiterInv s) (t : ℕ) :
    WaiterInv (connected opts t s) := by
  have hreset : WaiterInv { s with reconnectAttempts := 0 } :=
    h.settles (State.Settles.of_eq rfl)
  unfold connected
  dsimp only
  split
  · exact reRegisterWatches_inv opts hreset t 0
  · exact (writeNew_inv opts hreset _ _).settles (setPc_settles _ _ _)

theorem authenticated_inv {s : State} (h : WaiterInv s) (t : ℕ) (r : ClientResponse) :
    WaiterInv (authenticated opts t r s) := by
  have hclose := h.settles (close_settles s)
  unfold authenticated
  split
  · exact reRegisterWatches_inv opts h t 0
  · exact hclose.settles (setPc_settles _ _ _)
  · exact hclose.settles (setPc_settles _ _ _)

/-- The waiter `w` has left the offline queue, and its frame is taken. -/
def unqueued (w : ℕ) (ws : List ℕ) (s : State) : State :=
  { s.updateWaiter w Waiter.takeFrame with offlineQueue := ws }

theorem unqueued_inv {s : State} {w : ℕ} {ws : List ℕ}
    (h : WaiterInv { s with offlineQueue := w :: ws }) : WaiterInv (unqueued w ws s) := by
  have hnodup : (s.inflight ++ w :: ws).Nodup := h.nodup
  obtain ⟨hnot, hrest⟩ := List.nodup_cons.mp (List.perm_middle.nodup_iff.mp hnodup)
  have hself : (unqueued w ws s).waiters w = (s.waiters w).takeFrame := by
    simp [unqueued, State.updateWaiter]
  have hother : ∀ v, v ≠ w → (unqueued w ws s).waiters v = s.waiters v := fun v hv => by
    simp [unqueued, State.updateWaiter, hv]
  refine ⟨fun v => ?_, fun v hv => ?_, fun v hv => ?_, fun v r hr => ?_, hrest,
    fun v hv => h.bound v ?_, fun x hx => ⟨(h.written x hx).1,
      fun hin => (h.written x hx).2 (List.mem_cons_of_mem _ hin)⟩, fun x hx => ?_, h.once,
        h.kept⟩
  · by_cases hv : v = w
    · subst hv
      rw [hself]
      exact ⟨(h.sound v).once, (h.sound v).unsettled, (h.sound v).answered⟩
    · rw [hother v hv]
      exact h.sound v
  · rw [hother v fun he => hnot (List.mem_append_left _ (he ▸ hv))]
    exact h.inflight v hv
  · rw [hother v fun he => hnot (List.mem_append_right _ (he ▸ hv))]
    exact h.queued v (List.mem_cons_of_mem _ hv)
  · by_cases hv : v = w
    · subst hv
      rw [hself] at hr
      cases hr
    · rw [hother v hv] at hr ⊢
      exact h.own v r hr
  · rcases List.mem_append.mp hv with hv | hv
    · exact List.mem_append_left _ hv
    · exact List.mem_append_right _ (List.mem_cons_of_mem _ hv)
  · rw [hother x.waiter fun he => (h.written x hx).2 (he ▸ List.mem_cons_self)]
    exact h.frames x hx

/-- One queued request is written: the waiter at the front of the offline queue. -/
theorem flushWaiter_inv {s : State} {w : ℕ} {ws : List ℕ}
    (h : WaiterInv { s with offlineQueue := w :: ws }) :
    WaiterInv { flushWaiter opts s w with offlineQueue := ws } := by
  obtain ⟨frame, hframe⟩ := Option.isSome_iff_exists.mp (h.queued w List.mem_cons_self).1
  have hframe : (s.waiters w).frame = some frame := hframe
  have hflush : { flushWaiter opts s w with offlineQueue := ws } =
      (writeInflight opts frame w (unqueued w ws s)).1 := by
    simp only [flushWaiter, hframe, writeInflight_eq]
    rfl
  have hnodup : (s.inflight ++ w :: ws).Nodup := h.nodup
  rw [hflush]
  refine writeInflight_inv opts (unqueued_inv h) (h.bound w (by simp))
    (List.nodup_cons.mp (List.perm_middle.nodup_iff.mp hnodup)).1 ?_ ?_ fun hin => ?_
  · simp [unqueued, State.updateWaiter, Waiter.takeFrame]
  · simpa [unqueued, State.updateWaiter, Waiter.takeFrame] using h.own w frame hframe
  · obtain ⟨x, hx, hxw⟩ := List.mem_map.mp hin
    exact (h.written x hx).2 (hxw ▸ List.mem_cons_self)

theorem flushOfflineQueue_inv {s : State} (h : WaiterInv s) :
    WaiterInv (flushOfflineQueue opts s) := by
  have hqueue : ∀ (w : ℕ) (u : State), (flushWaiter opts u w).offlineQueue = u.offlineQueue := by
    intro w u
    unfold flushWaiter
    split
    · rfl
    · rw [writeInflight_eq]
      rfl
  have hloop : ∀ (ws : List ℕ) (u : State), u.offlineQueue = [] →
      WaiterInv { u with offlineQueue := ws } → WaiterInv (ws.foldl (flushWaiter opts) u) := by
    intro ws
    induction ws with
    | nil =>
        intro u hu hinv
        rw [List.foldl_nil]
        have heq : { u with offlineQueue := [] } = u := by
          rw [← hu]
        rwa [heq] at hinv
    | cons w ws ih =>
        intro u hu hinv
        exact ih _ ((hqueue w u).trans hu) (flushWaiter_inv opts hinv)
  unfold flushOfflineQueue
  split
  · exact h
  · exact hloop s.offlineQueue _ rfl h

theorem resume_inv {s t : State} (h : WaiterInv s) {k : ℕ} (hr : resume opts k s = some t) :
    WaiterInv t := by
  unfold resume at hr
  split at hr
  · cases hr
  · cases hr
    exact connected_inv opts h k
  · cases hr
    exact (h.settles (connectFailed_settles opts s)).settles (setPc_settles _ _ _)
  · split at hr
    · cases hr
    · cases hr
      exact h.settles (setPc_settles _ _ _)
    · cases hr
      exact authenticated_inv opts h k _
  · cases hr
    exact h.settles (setPc_settles _ _ _)
  · cases hr
    exact (h.settles (rejectOfflineQueue_settles _ s)).settles (setPc_settles _ _ _)
  · split at hr
    · cases hr
    · cases hr
      exact h.settles (setPc_settles _ _ _)
    · cases hr
      exact reRegisterWatches_inv opts h k _
  · cases hr
    exact (flushOfflineQueue_inv opts h).settles (setPc_settles _ _ _)
  · cases hr

theorem setCallback_settles (name key : String) (ns : Option String) (callback : ℕ)
    (s : State) : s.Settles (setCallback name key ns callback s) := by
  unfold setCallback
  split
  · exact State.Settles.of_eq rfl
  · exact State.Settles.of_eq rfl

end Sending

section Step

theorem watch_inv {s : State} (h : WaiterInv s) (key : String) (ns : Option String)
    (callback : ℕ) : WaiterInv (watch opts key ns callback s) :=
  send_inv opts (h.settles (setCallback_settles _ _ _ _ s)) _

theorem unwatch_inv {s : State} (h : WaiterInv s) (key : String) (ns : Option String) :
    WaiterInv (unwatch opts key ns s) := by
  have hset : ∀ others, WaiterInv { s with watchCallbacks := others } := fun others =>
    h.settles (State.Settles.of_eq rfl)
  unfold unwatch
  dsimp only
  split
  · exact hset _
  · exact send_inv opts (hset _) _

theorem onError_inv {s : State} (h : WaiterInv s) (i : ℕ) (e : Err) :
    WaiterInv (onError opts i e s) := by
  have hphase : WaiterInv (s.updateSock i fun k => { k with phase := .errored }) :=
    h.settles (State.Settles.of_eq rfl)
  exact (hphase.settles (handleDisconnect_settles opts hphase e)).settles
    (settleConnection_settles i .failed _)

/-- Every step keeps the discipline of the waiters. -/
theorem step_waiterInv {s t : State} {a : Action} (h : WaiterInv s)
    (hs : step opts s a = some t) : WaiterInv t := by
  cases a with
  | connect created =>
      cases hs
      exact h.settles (connect_settles created s)
  | close =>
      cases hs
      exact h.settles (close_settles s)
  | request req =>
      simp only [step] at hs
      split at hs
      · split at hs
        · cases hs
          exact send_inv opts h req
        · cases hs
          exact h
      · cases hs
  | watch key ns callback =>
      simp only [step] at hs
      split at hs
      · cases hs
        exact watch_inv opts h key ns callback
      · cases hs
        exact h
  | unwatch key ns =>
      simp only [step] at hs
      split at hs
      · cases hs
        exact unwatch_inv opts h key ns
      · cases hs
        exact h
  | resume k =>
      simp only [step] at hs
      split at hs
      · exact resume_inv opts h hs
      · cases hs
  | sockConnected i =>
      simp only [step, Option.ite_none_right_eq_some, Option.some.injEq] at hs
      rw [← hs.2]
      have hset : WaiterInv { s.updateSock i fun k => { k with phase := .connected } with
          socket := some i } := h.settles (State.Settles.of_eq rfl)
      exact hset.settles (settleConnection_settles i .connected _)
  | sockData i chunk =>
      simp only [step, Option.ite_none_right_eq_some, Option.some.injEq] at hs
      rw [← hs.2]
      exact h.settles (State.Settles.of_eq rfl)
  | sockError i e =>
      simp only [step, Option.ite_none_right_eq_some, Option.some.injEq] at hs
      rw [← hs.2]
      exact onError_inv opts h i e
  | sockClose i =>
      simp only [step, Option.ite_none_right_eq_some, Option.some.injEq] at hs
      rw [← hs.2]
      have hphase : WaiterInv (s.updateSock i fun k => { k with phase := .closed }) :=
        h.settles (State.Settles.of_eq rfl)
      exact hphase.settles (handleDisconnect_settles opts hphase _)
  | connectTimeout i =>
      simp only [step, Option.ite_none_right_eq_some, Option.some.injEq] at hs
      rw [← hs.2]
      exact h.settles (destroySock_settles _ _ s)
  | idleTimeout i =>
      simp only [step, Option.ite_none_right_eq_some, Option.some.injEq] at hs
      rw [← hs.2]
      exact h.settles (destroySock_settles _ _ s)
  | requestTimeout w =>
      simp only [step, Option.ite_none_right_eq_some, Option.some.injEq] at hs
      obtain ⟨⟨-, harmed⟩, rfl⟩ := hs
      refine h.settles (reject_settles (fun hq => ?_) _)
      rw [(h.queued w hq).2.2] at harmed
      cases harmed
  | reconnectTimer created =>
      simp only [step, Option.ite_none_right_eq_some, Option.some.injEq] at hs
      rw [← hs.2]
      have hfire : WaiterInv { s with reconnectTimer := false, reconnecting := false } :=
        h.settles (State.Settles.of_eq rfl)
      exact hfire.settles (doConnect_settles created _)
  | round =>
      simp only [step, Option.map_eq_some_iff] at hs
      obtain ⟨i, -, rfl⟩ := hs
      exact h.settles (onDataRound_settles opts h i)
  | callbackThrow =>
      simp only [step, Option.ite_none_right_eq_some, Option.some.injEq] at hs
      rw [← hs.2]
      exact h.settles (State.Settles.of_eq rfl)

theorem waiterInv_of_reached {s : State} (h : Reached opts s) : WaiterInv s :=
  h.invariant waiterInv_init fun _ _ _ hs _ hstep => step_waiterInv opts hs hstep

/-- In every reachable state, each waiter was given at most one outcome, the waiters in
flight have no frame, the queued ones have one and are unsettled and without a timeout, no
waiter is in the queues twice, what is written for a waiter is its request, which is
written at most once, and no request in flight was ever queued again. -/
theorem waiters_disciplined {s : State} (h : Reached opts s) :
    (∀ w, (s.waiters w).outcomes.length ≤ 1) ∧
      (∀ w ∈ s.inflight, (s.waiters w).frame = none) ∧
        (∀ w ∈ s.offlineQueue, (s.waiters w).frame.isSome = true ∧
          (s.waiters w).settled = false ∧ (s.waiters w).armed = false) ∧
          (s.inflight ++ s.offlineQueue).Nodup ∧
            (∀ x ∈ s.wire, x.frame = (s.waiters x.waiter).request) ∧
              (s.wire.map Sent.waiter).Nodup ∧ s.requeued = false := by
  have hinv := waiterInv_of_reached opts h
  exact ⟨fun w => (hinv.sound w).once, hinv.inflight, hinv.queued, hinv.nodup, hinv.frames,
    hinv.once, hinv.kept⟩

/-- The discipline after a run in which a request is queued, sent once the client is
connected, and timed out. -/
theorem waiters_disciplined_queued :
    ∃ s, exec (step { Options.defaults with autoReconnect := true }) (fun _ _ => True)
        State.init [.request (.get "a" none), .connect true, .sockConnected 0, .resume 0,
          .resume 0, .request .ping, .requestTimeout 0] = some s ∧
      s.inflight = [0, 1] ∧ (s.waiters 0).outcomes.length = 1 ∧
        (∀ w, (s.waiters w).outcomes.length ≤ 1) ∧
          (s.inflight ++ s.offlineQueue).Nodup ∧ (s.wire.map Sent.waiter).Nodup := by
  obtain ⟨s, hrun, hin, hout⟩ : ∃ s,
      exec (step { Options.defaults with autoReconnect := true }) (fun _ _ => True)
        State.init [.request (.get "a" none), .connect true, .sockConnected 0, .resume 0,
          .resume 0, .request .ping, .requestTimeout 0] = some s ∧
      s.inflight = [0, 1] ∧ (s.waiters 0).outcomes.length = 1 := ⟨_, rfl, rfl, rfl⟩
  obtain ⟨honce, -, -, hnodup, -, hwire, -⟩ := waiters_disciplined _ ⟨_, run_of_exec hrun⟩
  exact ⟨s, hrun, hin, hout, honce, hnodup, hwire⟩

end Step

end NodeTcp

end DittoClient
