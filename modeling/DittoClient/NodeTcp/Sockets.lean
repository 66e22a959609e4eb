import DittoClient.NodeTcp.Link

/-!
# The life cycle of the connection

Where a client is between no connection and an open one is its `Stage`. As long as an
attempt to connect begins only while no other is under way (`Link.Alone`), the link is in
one stage at a time (`Lifecycle`), so that at most one socket connects or is open, and the
events of a socket that was given up come before the next one is stored.
-/

namespace DittoClient

namespace NodeTcp

open DittoClient.Transition

/-- A stage of the connection: none, a wait for the next attempt, an attempt with its
socket and its run of `doConnect`, a run that has to deal with its failure, an open
connection, and a connection that the client has ended. -/
inductive Stage
  | rest
  | backoff
  | dialing (i t : ℕ)
  | failed (t : ℕ)
  | opened (i : ℕ)
  | ending (i : ℕ)
  deriving DecidableEq, Repr

namespace Stage

/-- The socket that the client has stored. -/
def socket : Stage → Option ℕ
  | .opened i => some i
  | _ => none

/-- The run of `doConnect` that is under way. -/
def run : Stage → Option (ℕ × Pc)
  | .dialing i t => some (t, .connecting i)
  | .failed t => some (t, .failed)
  | _ => none

/-- The phases that a socket can be in. -/
def Allows : Stage → ℕ → Phase → Prop
  | .dialing i _, j, ph => ph = .errored ∨ ph = .closed ∨
      j = i ∧ (ph = .connecting ∨ ∃ e, ph = .destroyed e)
  | .opened i, j, ph => ph = .closed ∨ j = i ∧ (ph = .connected ∨ ∃ e, ph = .destroyed e)
  | .ending i, j, ph => ph = .closed ∨ j = i ∧ (ph = .connected ∨ ∃ e, ph = .destroyed e)
  | _, _, ph => ph = .errored ∨ ph = .closed

theorem run_attempting {st : Stage} {t : ℕ} {pc : Pc} (h : st.run = some (t, pc)) :
    pc.attempting = true := by
  cases st with
  | dialing i k =>
      cases h
      rfl
  | failed k =>
      cases h
      rfl
  | _ => cases h

end Stage

/-- The link is in one stage of the connection. -/
structure Lifecycle (l : Link) (st : Stage) : Prop where
  socket : l.socket = st.socket
  timer : l.reconnectTimer = true ↔ st = .backoff
  reconnecting : l.reconnecting = l.reconnectTimer
  tasks : ∀ t, (l.tasks t).pc.attempting = true → st.run = some (t, (l.tasks t).pc)
  run : ∀ t pc, st.run = some (t, pc) → (l.tasks t).pc = pc
  task : ∀ i t, st = .dialing i t → (l.socks i).task = t
  socks : ∀ j, st.Allows j (l.socks j).phase
  bound : ∀ j, l.nextSock ≤ j → (l.socks j).phase = .closed
  taskBound : ∀ t, l.nextTask ≤ t → (l.tasks t).pc.attempting = false
  ending : ∀ j, st = .ending j → l.destroyed = true

/-- A call to `connect` comes while no attempt is under way and none is scheduled, and a
connection is established when the sockets before it have emitted `close`. -/
def Link.Alone (l : Link) : Action → Prop
  | .connect _ => l.destroyed = true ∨ l.socket.isSome = true ∨
      l.reconnectTimer = false ∧ ∀ t < l.nextTask, (l.tasks t).pc.attempting = false
  | .sockConnected i => ∀ j < l.nextSock, j ≠ i → (l.socks j).phase = .closed
  | _ => True

namespace Lifecycle

variable {l : Link} {st : Stage}

theorem not_attempting (h : Lifecycle l st) (hrun : st.run = none) (t : ℕ) :
    (l.tasks t).pc.attempting = false := by
  cases hpc : (l.tasks t).pc.attempting with
  | false => rfl
  | true =>
      have hsome := h.tasks t hpc
      rw [hrun] at hsome
      cases hsome

/-- The run of a stage has begun. -/
theorem run_lt (h : Lifecycle l st) {t : ℕ} {pc : Pc} (hrun : st.run = some (t, pc)) :
    t < l.nextTask := by
  refine Nat.lt_of_not_le fun hle => ?_
  have hnot := h.taskBound t hle
  rw [h.run t pc hrun, Stage.run_attempting hrun] at hnot
  cases hnot

/-- A socket that can emit an error belongs to the stage. -/
theorem eq_of_emits (h : Lifecycle l st) {i : ℕ} {e : Err}
    (hphase : (l.socks i).phase.emits e = true) :
    (∃ t, st = .dialing i t) ∨ st = .opened i ∨ st = .ending i := by
  have hallow := h.socks i
  cases st with
  | rest => rcases hallow with hp | hp <;> simp [hp, Phase.emits] at hphase
  | backoff => rcases hallow with hp | hp <;> simp [hp, Phase.emits] at hphase
  | failed t => rcases hallow with hp | hp <;> simp [hp, Phase.emits] at hphase
  | dialing j t =>
      rcases hallow with hp | hp | ⟨rfl, -⟩
      · simp [hp, Phase.emits] at hphase
      · simp [hp, Phase.emits] at hphase
      · exact Or.inl ⟨t, rfl⟩
  | opened j =>
      rcases hallow with hp | ⟨rfl, -⟩
      · simp [hp, Phase.emits] at hphase
      · exact Or.inr (Or.inl rfl)
  | ending j =>
      rcases hallow with hp | ⟨rfl, -⟩
      · simp [hp, Phase.emits] at hphase
      · exact Or.inr (Or.inr rfl)

theorem emits_of_isLive {ph : Phase} (h : ph.isLive = true) (e : Err) : ph.emits e = true := by
  cases ph with
  | connecting => rfl
  | connected => rfl
  | destroyed e' => cases h
  | errored => cases h
  | closed => cases h

/-- A run of `doConnect` goes from one point behind the connection to another. -/
theorem goOn (h : Lifecycle l st) {t : ℕ} {pc : Pc} (hfrom : (l.tasks t).pc.attempting = false)
    (hto : pc.attempting = false) : Lifecycle (l.setPc t pc) st := by
  have hpcs : ∀ k, ((l.setPc t pc).tasks k).pc = (l.tasks k).pc ∨
      k = t ∧ ((l.setPc t pc).tasks k).pc = pc := by
    intro k
    by_cases hk : k = t
    · subst hk
      exact Or.inr ⟨rfl, by simp [Link.setPc]⟩
    · exact Or.inl (by simp [Link.setPc, hk])
  refine ⟨h.socket, h.timer, h.reconnecting, fun k hk => ?_, fun k pc' hrun => ?_, h.task,
    h.socks, h.bound, fun k hk => ?_, h.ending⟩
  · rcases hpcs k with hpc | ⟨-, hpc⟩
    · rw [hpc] at hk ⊢
      exact h.tasks k hk
    · rw [hpc, hto] at hk
      cases hk
  · have hold := h.run k pc' hrun
    rcases hpcs k with hpc | ⟨rfl, -⟩
    · rw [hpc]
      exact hold
    · have hattempt := Stage.run_attempting hrun
      rw [hold, hattempt] at hfrom
      cases hfrom
  · rcases hpcs k with hpc | ⟨-, hpc⟩
    · rw [hpc]
      exact h.taskBound k hk
    · rw [hpc]
      exact hto

/-- A run of `doConnect` begins while nothing else is under way. -/
theorem dialed (h : Lifecycle l .rest) (created : Bool) : ∃ st', Lifecycle (l.dialed created) st' := by
  have hnone := h.not_attempting rfl
  have htimer : l.reconnectTimer = false := by
    cases ht : l.reconnectTimer with
    | false => rfl
    | true => cases h.timer.mp ht
  have hnew : ∀ t, l.nextTask + 1 ≤ t → t ≠ l.nextTask := fun t ht => by omega
  unfold Link.dialed
  split
  · refine ⟨.rest, h.socket, h.timer, h.reconnecting, fun t ht => ?_, fun _ _ hr => (by cases hr),
      fun _ _ hd => (by cases hd), h.socks, h.bound, fun t ht => ?_, h.ending⟩
    · by_cases hk : t = l.nextTask
      · simp [hk, Pc.attempting] at ht
      · simp [hk, hnone] at ht
    · simp [hnew t ht, hnone]
  · next hdestroyed =>
      split
      · refine ⟨.dialing l.nextSock l.nextTask, h.socket, by simp [htimer], h.reconnecting,
          fun t ht => ?_, fun t pc hr => ?_, fun i t hd => ?_, fun j => ?_, fun j hj => ?_,
          fun t ht => ?_, fun _ hd => (by cases hd)⟩
        · by_cases hk : t = l.nextTask
          · simp [hk, Stage.run]
          · simp [hk, hnone] at ht
        · cases hr
          simp
        · cases hd
          simp
        · by_cases hk : j = l.nextSock
          · exact Or.inr (Or.inr ⟨hk, Or.inl (by simp [hk])⟩)
          · rcases h.socks j with hp | hp
            · exact Or.inl (by simpa [hk] using hp)
            · exact Or.inr (Or.inl (by simpa [hk] using hp))
        · have hk : j ≠ l.nextSock := fun he => by
            subst he
            exact absurd hj (by simp)
          simpa [hk] using h.bound j (Nat.le_of_succ_le hj)
        · simp [hnew t ht, hnone]
      · refine ⟨.failed l.nextTask, h.socket, by simp [htimer], h.reconnecting, fun t ht => ?_,
          fun t pc hr => ?_, fun _ _ hd => (by cases hd), h.socks, h.bound, fun t ht => ?_,
          fun _ hd => (by cases hd)⟩
        · by_cases hk : t = l.nextTask
          · simp [hk, Stage.run]
          · simp [hk, hnone] at ht
        · cases hr
          simp
        · simp [hnew t ht, hnone]

/-- The timer of a scheduled attempt fires or is cancelled. -/
theorem unscheduled (h : Lifecycle l .backoff) :
    Lifecycle { l with reconnectTimer := false, reconnecting := false } .rest :=
  ⟨h.socket, by simp, rfl, h.tasks, h.run, fun _ _ hd => (by cases hd), h.socks, h.bound,
    h.taskBound, fun _ hd => (by cases hd)⟩

/-- The stage after `close`. -/
def closedStage : Stage → Stage
  | .rest => .rest
  | .backoff => .rest
  | .dialing i t => .dialing i t
  | .failed t => .failed t
  | .opened i => .ending i
  | .ending i => .ending i

theorem closed (h : Lifecycle l st) : Lifecycle l.closed (closedStage st) := by
  refine ⟨?_, ?_, rfl, fun t ht => ?_, fun t pc hr => ?_, fun i t hd => ?_, fun j => ?_,
    fun j hj => ?_, h.taskBound, fun _ _ => rfl⟩
  · cases st <;> rfl
  · cases st <;> simp [Link.closed, closedStage]
  · have hold := h.tasks t ht
    cases st <;> exact hold
  · cases st with
    | dialing i k => exact h.run t pc hr
    | failed k => exact h.run t pc hr
    | _ => cases hr
  · rw [Link.closed_task]
    cases st <;> cases hd
    exact h.task _ _ rfl
  · rw [Link.closed_phase]
    have hold := h.socks j
    cases st <;> exact hold
  · rw [Link.closed_phase]
    exact h.bound j hj

theorem timer_eq_false (h : Lifecycle l st) (hst : st ≠ .backoff) : l.reconnectTimer = false := by
  cases ht : l.reconnectTimer with
  | false => rfl
  | true => exact absurd (h.timer.mp ht) hst

/-- The stage after a loss of the connection. -/
def lostStage (retry : Bool) : Stage :=
  if retry then .backoff else .rest

/-- Nothing is left of a connection but perhaps a timer. -/
theorem of_lost {retry : Bool} (hsocket : l.socket = none) (htimer : l.reconnectTimer = retry)
    (hreconnecting : l.reconnecting = retry)
    (htasks : ∀ t, (l.tasks t).pc.attempting = false)
    (hsocks : ∀ j, (l.socks j).phase = .errored ∨ (l.socks j).phase = .closed)
    (hbound : ∀ j, l.nextSock ≤ j → (l.socks j).phase = .closed) :
    Lifecycle l (lostStage retry) := by
  have hnone : ∀ t, ¬ (l.tasks t).pc.attempting = true := fun t => by simp [htasks t]
  cases retry with
  | false =>
      exact ⟨hsocket, by simp [htimer, lostStage], hreconnecting.trans htimer.symm,
        fun t ht => absurd ht (hnone t), fun _ _ hr => (by cases hr), fun _ _ hd => (by cases hd),
        hsocks, hbound, fun t _ => htasks t, fun _ hd => (by cases hd)⟩
  | true =>
      exact ⟨hsocket, by simp [htimer, lostStage], hreconnecting.trans htimer.symm,
        fun t ht => absurd ht (hnone t), fun _ _ hr => (by cases hr), fun _ _ hd => (by cases hd),
        hsocks, hbound, fun t _ => htasks t, fun _ hd => (by cases hd)⟩

/-- A run of `doConnect` deals with its failure. -/
theorem failed (h : Lifecycle l st) {t : ℕ} (hpc : (l.tasks t).pc = .failed) (retry : Bool) :
    Lifecycle ((l.lost retry).setPc t (.done none)) (lostStage retry) := by
  have hrun := h.tasks t (by rw [hpc]; rfl)
  rw [hpc] at hrun
  have hst : st = .failed t := by
    cases st with
    | dialing i k => cases hrun
    | failed k =>
        cases hrun
        rfl
    | _ => cases hrun
  subst hst
  have htimer := h.timer_eq_false (by simp)
  refine of_lost rfl ?_ ?_ (fun k => ?_) (fun j => h.socks j) h.bound
  · simp [Link.setPc, Link.lost, htimer]
  · simp [Link.setPc, Link.lost, h.reconnecting, htimer]
  · by_cases hk : k = t
    · simp [hk, Link.setPc, Pc.attempting]
    · cases ha : (l.tasks k).pc.attempting with
      | false => simpa [hk, Link.setPc, Link.lost] using ha
      | true =>
          have hother := h.tasks k ha
          simp only [Stage.run, Option.some.injEq, Prod.mk.injEq] at hother
          exact absurd hother.1.symm hk

/-- A socket whose phase is not `closed` was created. -/
theorem lt_of_phase (h : Lifecycle l st) {i : ℕ} (hphase : (l.socks i).phase ≠ .closed) :
    i < l.nextSock :=
  Nat.lt_of_not_le fun hle => hphase (h.bound i hle)

/-- The only socket of an open or ended connection is given up. -/
theorem given (h : Lifecycle l st) {i : ℕ} (hst : st = .opened i ∨ st = .ending i)
    {ph : Phase} (hphase : ph = .errored ∨ ph = .closed) (hi : i < l.nextSock) (retry : Bool) :
    Lifecycle ((l.setPhase i ph).lost retry) (lostStage retry) := by
  have hne : st ≠ .backoff := by
    rcases hst with rfl | rfl
    · simp
    · simp
  have hrun : st.run = none := by
    rcases hst with rfl | rfl
    · rfl
    · rfl
  have htimer := h.timer_eq_false hne
  refine of_lost rfl ?_ ?_ (h.not_attempting hrun) (fun j => ?_) (fun j hj => ?_)
  · simp [Link.lost, Link.setPhase, htimer]
  · simp [Link.lost, Link.setPhase, h.reconnecting, htimer]
  · change ((l.setPhase i ph).socks j).phase = .errored ∨ ((l.setPhase i ph).socks j).phase = .closed
    rw [Link.setPhase_phase]
    split
    · exact hphase
    · next hj =>
        have hallow := h.socks j
        rcases hst with rfl | rfl
        · exact Or.inr (hallow.resolve_right fun hr => hj hr.1)
        · exact Or.inr (hallow.resolve_right fun hr => hj hr.1)
  · change ((l.setPhase i ph).socks j).phase = .closed
    have hji : j ≠ i := fun he => Nat.lt_irrefl i (Nat.lt_of_lt_of_le hi (he ▸ hj))
    rw [Link.setPhase_phase, if_neg hji]
    exact h.bound j hj

theorem settled_of_pc {t i : ℕ} {pc : Pc} (htask : (l.socks i).task = t)
    (hpc : (l.tasks t).pc = .connecting i) : l.settled i pc = l.setPc t pc := by
  unfold Link.settled
  rw [htask]
  exact if_pos hpc

theorem settled_of_run (hnone : ∀ t, (l.tasks t).pc.attempting = false) (i : ℕ) (pc : Pc) :
    l.settled i pc = l := by
  unfold Link.settled
  refine if_neg fun hpc => ?_
  have hnot := hnone (l.socks i).task
  rw [hpc] at hnot
  cases hnot

/-- The socket of an attempt fails, which leaves the run to deal with it. -/
theorem dialFailed {i t : ℕ} (h : Lifecycle l (.dialing i t)) (hi : i < l.nextSock) :
    Lifecycle (((l.setPhase i .errored).lost false).setPc t .failed) (.failed t) := by
  have hpc := h.run t _ rfl
  have htimer := h.timer_eq_false (by simp)
  have hphase : ∀ j, ((((l.setPhase i .errored).lost false).setPc t .failed).socks j).phase =
      if j = i then .errored else (l.socks j).phase := l.setPhase_phase i .errored
  refine ⟨rfl, ?_, ?_, fun k hk => ?_, fun k pc hr => ?_, fun _ _ hd => (by cases hd),
    fun j => ?_, fun j hj => ?_, fun k hk => ?_, fun _ hd => (by cases hd)⟩
  · simp [Link.setPc, Link.lost, Link.setPhase, htimer]
  · simp [Link.setPc, Link.lost, Link.setPhase, h.reconnecting]
  · by_cases hkt : k = t
    · simp [hkt, Link.setPc, Stage.run]
    · have hold : (l.tasks k).pc.attempting = true := by
        simpa [hkt, Link.setPc, Link.lost, Link.setPhase] using hk
      have hother := h.tasks k hold
      simp only [Stage.run, Option.some.injEq, Prod.mk.injEq] at hother
      exact absurd hother.1.symm hkt
  · cases hr
    simp [Link.setPc]
  · rw [hphase]
    split
    · exact Or.inl rfl
    · next hj =>
        rcases h.socks j with hp | hp | ⟨he, -⟩
        · exact Or.inl hp
        · exact Or.inr hp
        · exact absurd he hj
  · have hji : j ≠ i := fun he => Nat.lt_irrefl i (Nat.lt_of_lt_of_le hi (he ▸ hj))
    rw [hphase, if_neg hji]
    exact h.bound j hj
  · have hkt : k ≠ t := fun he =>
      Nat.lt_irrefl t (Nat.lt_of_lt_of_le (h.run_lt rfl) (he ▸ hk))
    simpa [hkt, Link.setPc, Link.lost, Link.setPhase] using h.taskBound k hk

/-- A socket fails. -/
theorem sockError (h : Lifecycle l st) {i : ℕ} {e : Err} {retry : Bool}
    (hphase : (l.socks i).phase.emits e = true)
    (hretry : retry = true → l.socket.isSome = true) :
    ∃ st', Lifecycle (((l.setPhase i .errored).lost retry).settled i .failed) st' := by
  have hi := h.lt_of_phase (i := i) fun hc => by simp [hc, Phase.emits] at hphase
  rcases h.eq_of_emits hphase with ⟨t, rfl⟩ | hst
  · have hsocket : l.socket = none := h.socket
    have hfalse : retry = false := by
      cases retry with
      | false => rfl
      | true => simp [hsocket] at hretry
    subst hfalse
    rw [settled_of_pc (l := (l.setPhase i .errored).lost false)
      ((l.setPhase_task i _ i).trans (h.task i t rfl)) (h.run t _ rfl)]
    exact ⟨_, h.dialFailed hi⟩
  · have hgiven := h.given hst (Or.inl rfl) hi retry
    have hnone : ∀ t, (((l.setPhase i .errored).lost retry).tasks t).pc.attempting = false := by
      rcases hst with rfl | rfl
      · exact h.not_attempting rfl
      · exact h.not_attempting rfl
    rw [settled_of_run hnone]
    exact ⟨_, hgiven⟩

/-- A socket that failed before, and is not stored, emits `close`. -/
theorem errored_closed (h : Lifecycle l st) {i : ℕ} (hphase : (l.socks i).phase = .errored) :
    Lifecycle ((l.setPhase i .closed).lost false) st := by
  have hsocket : l.socket = none := by
    have hallow := h.socks i
    rw [h.socket]
    cases st with
    | opened j =>
        rcases hallow with hp | ⟨-, hp | ⟨e, hp⟩⟩ <;> rw [hphase] at hp <;> cases hp
    | _ => rfl
  refine ⟨?_, ?_, ?_, h.tasks, h.run, fun k t hd => ?_, fun j => ?_, fun j hj => ?_,
    h.taskBound, h.ending⟩
  · exact hsocket.symm.trans h.socket
  · simpa [Link.lost, Link.setPhase] using h.timer
  · simpa [Link.lost, Link.setPhase] using h.reconnecting
  · exact (l.setPhase_task i _ k).trans (h.task k t hd)
  · change st.Allows j ((l.setPhase i .closed).socks j).phase
    rw [Link.setPhase_phase]
    split
    · cases st with
      | dialing k t => exact Or.inr (Or.inl rfl)
      | opened k => exact Or.inl rfl
      | ending k => exact Or.inl rfl
      | _ => exact Or.inr rfl
    · exact h.socks j
  · change ((l.setPhase i .closed).socks j).phase = .closed
    rw [Link.setPhase_phase]
    split
    · rfl
    · exact h.bound j hj

/-- A socket emits `close`. -/
theorem sockClose (h : Lifecycle l st) {i : ℕ} {retry : Bool}
    (hphase : (l.socks i).phase = .connected ∨ (l.socks i).phase = .errored)
    (hretry : retry = true → l.socket.isSome = true) :
    ∃ st', Lifecycle ((l.setPhase i .closed).lost retry) st' := by
  rcases hphase with hphase | hphase
  · have hemits : (l.socks i).phase.emits (.error "") = true := by
      rw [hphase]
      rfl
    have hi := h.lt_of_phase (i := i) fun hc => by simp [hc] at hphase
    rcases h.eq_of_emits hemits with ⟨t, rfl⟩ | hst
    · rcases h.socks i with hp | hp | ⟨-, hp | ⟨e, hp⟩⟩ <;> rw [hphase] at hp <;> cases hp
    · exact ⟨_, h.given hst (Or.inr rfl) hi retry⟩
  · have hclosed := h.errored_closed hphase
    have hfalse : retry = false := by
      have hsocket : l.socket = none := h.socket.trans hclosed.socket.symm
      cases retry with
      | false => rfl
      | true => simp [hsocket] at hretry
    subst hfalse
    exact ⟨st, hclosed⟩

/-- The client destroys a socket. -/
theorem destroySock (h : Lifecycle l st) {i : ℕ} (hphase : (l.socks i).phase.isLive = true)
    (e : Err) : Lifecycle (l.setPhase i (.destroyed e)) st := by
  have hi := h.lt_of_phase (i := i) fun hc => by simp [hc, Phase.isLive] at hphase
  refine ⟨h.socket, h.timer, h.reconnecting, h.tasks, h.run, fun k t hd => ?_, fun j => ?_,
    fun j hj => ?_, h.taskBound, h.ending⟩
  · exact (l.setPhase_task i _ k).trans (h.task k t hd)
  · rw [Link.setPhase_phase]
    split
    · next hj =>
        subst hj
        rcases h.eq_of_emits (emits_of_isLive hphase e) with ⟨t, rfl⟩ | rfl | rfl
        · exact Or.inr (Or.inr ⟨rfl, Or.inr ⟨e, rfl⟩⟩)
        · exact Or.inr ⟨rfl, Or.inr ⟨e, rfl⟩⟩
        · exact Or.inr ⟨rfl, Or.inr ⟨e, rfl⟩⟩
    · exact h.socks j
  · have hji : j ≠ i := fun he => Nat.lt_irrefl i (Nat.lt_of_lt_of_le hi (he ▸ hj))
    rw [Link.setPhase_phase, if_neg hji]
    exact h.bound j hj

/-- A socket that connects belongs to the attempt that is under way. -/
theorem dialing_of_connecting (h : Lifecycle l st) {i : ℕ}
    (hphase : (l.socks i).phase = .connecting) : ∃ t, st = .dialing i t := by
  have hemits : (l.socks i).phase.emits (.error "") = true := by
    rw [hphase]
    rfl
  have hallow := h.socks i
  rcases h.eq_of_emits hemits with hd | rfl | rfl
  · exact hd
  · rcases hallow with hp | ⟨-, hp | ⟨e, hp⟩⟩
    · cases hphase.symm.trans hp
    · cases hphase.symm.trans hp
    · cases hphase.symm.trans hp
  · rcases hallow with hp | ⟨-, hp | ⟨e, hp⟩⟩
    · cases hphase.symm.trans hp
    · cases hphase.symm.trans hp
    · cases hphase.symm.trans hp

/-- The socket of an attempt is connected, when no other socket is left. -/
theorem sockConnected (h : Lifecycle l st) {i : ℕ} (hphase : (l.socks i).phase = .connecting)
    (halone : ∀ j < l.nextSock, j ≠ i → (l.socks j).phase = .closed) :
    Lifecycle ({ l.setPhase i .connected with socket := some i }.settled i .connected)
      (.opened i) := by
  have hemits : (l.socks i).phase.emits (.error "") = true := by
    rw [hphase]
    rfl
  have hi := h.lt_of_phase (i := i) fun hc => by simp [hc] at hphase
  rcases h.eq_of_emits hemits with ⟨t, rfl⟩ | rfl | rfl
  · have hpc := h.run t _ rfl
    have htimer := h.timer_eq_false (by simp)
    rw [settled_of_pc (l := { l.setPhase i .connected with socket := some i })
      ((l.setPhase_task i _ i).trans (h.task i t rfl)) hpc]
    have hnone : ∀ k, ((({ l.setPhase i .connected with socket := some i } : Link).setPc t
        .connected).tasks k).pc.attempting = false := by
      intro k
      by_cases hk : k = t
      · simp [hk, Link.setPc, Pc.attempting]
      · cases ha : (l.tasks k).pc.attempting with
        | false => simpa [hk, Link.setPc, Link.setPhase] using ha
        | true =>
            have hother := h.tasks k ha
            simp only [Stage.run, Option.some.injEq, Prod.mk.injEq] at hother
            exact absurd hother.1.symm hk
    refine ⟨rfl, ?_, h.reconnecting, fun k hk => ?_, fun _ _ hr => (by cases hr),
      fun _ _ hd => (by cases hd), fun j => ?_, fun j hj => ?_, fun k _ => hnone k,
      fun _ hd => (by cases hd)⟩
    · simp [Link.setPc, Link.setPhase, htimer]
    · rw [hnone k] at hk
      cases hk
    · change (Stage.opened i).Allows j ((l.setPhase i .connected).socks j).phase
      rw [Link.setPhase_phase]
      split
      · next hj => exact Or.inr ⟨hj, Or.inl rfl⟩
      · next hj =>
          rcases Nat.lt_or_ge j l.nextSock with hlt | hge
          · exact Or.inl (halone j hlt hj)
          · exact Or.inl (h.bound j hge)
    · change ((l.setPhase i .connected).socks j).phase = .closed
      have hji : j ≠ i := fun he => Nat.lt_irrefl i (Nat.lt_of_lt_of_le hi (he ▸ hj))
      rw [Link.setPhase_phase, if_neg hji]
      exact h.bound j hj
  · rcases h.socks i with hp | ⟨-, hp | ⟨e, hp⟩⟩ <;> rw [hphase] at hp <;> cases hp
  · rcases h.socks i with hp | ⟨-, hp | ⟨e, hp⟩⟩ <;> rw [hphase] at hp <;> cases hp

/-- An attempt that begins alone leaves the link in one stage. -/
theorem next {l' : Link} {a : Action} (h : Lifecycle l st) (hs : Link.Step l a l')
    (halone : l.Alone a) : ∃ st', Lifecycle l' st' := by
  cases hs with
  | same => exact ⟨st, h⟩
  | connect created hdestroyed hsocket =>
      rcases halone with hd | hsome | ⟨htimer, htasks⟩
      · rw [hdestroyed] at hd
        cases hd
      · rw [hsocket] at hsome
        cases hsome
      · have hst : st = .rest := by
          cases st with
          | rest => rfl
          | backoff =>
              rw [h.timer.mpr rfl] at htimer
              cases htimer
          | dialing i t =>
              have hnot := htasks t (h.run_lt rfl)
              rw [h.run t _ rfl] at hnot
              cases hnot
          | failed t =>
              have hnot := htasks t (h.run_lt rfl)
              rw [h.run t _ rfl] at hnot
              cases hnot
          | opened i =>
              rw [h.socket] at hsocket
              cases hsocket
          | ending i =>
              rw [h.ending i rfl] at hdestroyed
              cases hdestroyed
        subst hst
        exact h.dialed created
  | close => exact ⟨_, h.closed⟩
  | goOn hfrom hto => exact ⟨st, h.goOn hfrom hto⟩
  | failed hpc _ => exact ⟨_, h.failed hpc _⟩
  | refused e hpc => exact ⟨_, h.closed.goOn (congrArg Pc.attempting hpc) rfl⟩
  | sockConnected hphase => exact ⟨_, h.sockConnected hphase halone⟩
  | sockError hphase hretry => exact h.sockError hphase fun hr => (hretry hr).2.2
  | sockClose hphase hretry => exact h.sockClose hphase fun hr => (hretry hr).2.2
  | destroySock a e hphase => exact ⟨st, h.destroySock hphase e⟩
  | reconnectTimer created htimer =>
      have hst := h.timer.mp htimer
      subst hst
      exact h.unscheduled.dialed created

end Lifecycle

/-- One socket at a time: at most one connects or is open, what is received comes from the
stored one, and the events of another one leave the connection alone. -/
structure SingleSocket (opts : Options) (s : State) : Prop where
  live : ∀ i j, (s.socks i).phase.isLive = true → (s.socks j).phase.isLive = true → i = j
  data : ∀ i chunk t, step opts s (.sockData i chunk) = some t → s.socket = some i
  error : ∀ i j e t, s.socket = some j → i ≠ j → step opts s (.sockError i e) = some t →
    t.socket = some j ∧ t.recvBuf = s.recvBuf ∧ t.inflight = s.inflight
  close : ∀ i j t, s.socket = some j → i ≠ j → step opts s (.sockClose i) = some t →
    t.socket = some j ∧ t.recvBuf = s.recvBuf ∧ t.inflight = s.inflight

/-- The condition on the steps of a client that keeps one connection at a time. -/
def OneAttempt (s : State) (a : Action) : Prop :=
  s.link.Alone a

instance (s : State) (a : Action) : Decidable (OneAttempt s a) := by
  unfold OneAttempt Link.Alone
  cases a <;> infer_instance

variable (opts : Options)

theorem lifecycle_init : Lifecycle State.init.link .rest where
  socket := rfl
  timer := by simp [State.init, State.link]
  reconnecting := rfl
  tasks t ht := by cases ht
  run t pc hr := by cases hr
  task i t hd := by cases hd
  socks j := Or.inr rfl
  bound j _ := rfl
  taskBound t _ := rfl
  ending j hd := by cases hd

theorem lifecycle_of_reachable {s : State}
    (h : Reachable (step opts) OneAttempt State.init s) : ∃ st, Lifecycle s.link st := by
  refine h.invariant (I := fun s => ∃ st, Lifecycle s.link st) ⟨.rest, lifecycle_init⟩ ?_
  intro s a t ⟨st, hst⟩ halone hs
  have hstep := step_link opts hs
  exact hst.next hstep halone

theorem Lifecycle.singleSocket {s : State} {st : Stage} (h : Lifecycle s.link st)
    (hdestroyed : s.destroyed = false) : SingleSocket opts s := by
  have hemits : ∀ {i : ℕ} {e : Err}, (s.socks i).phase.emits e = true →
      (∃ t, st = .dialing i t) ∨ st = .opened i := fun {i e} hphase => by
    rcases h.eq_of_emits hphase with hd | ho | he
    · exact Or.inl hd
    · exact Or.inr ho
    · have htrue : s.destroyed = true := h.ending i he
      rw [hdestroyed] at htrue
      cases htrue
  have hsocket : s.socket = st.socket := h.socket
  have hother : ∀ {i j : ℕ} {e : Err}, s.socket = some j → i ≠ j →
      ¬ (s.socks i).phase.emits e = true := by
    intro i j e hj hij hphase
    rcases hemits hphase with ⟨t, rfl⟩ | rfl
    · rw [hj] at hsocket
      cases hsocket
    · rw [hj] at hsocket
      cases hsocket
      exact hij rfl
  refine ⟨fun i j hi hj => ?_, fun i chunk t hs => ?_, fun i j e t hj hij hs => ?_,
    fun i j t hj hij hs => ?_⟩
  · have hi' := hemits (Lifecycle.emits_of_isLive hi (.error ""))
    have hj' := hemits (Lifecycle.emits_of_isLive hj (.error ""))
    rcases hi' with ⟨t, rfl⟩ | rfl
    · rcases hj' with ⟨t', ht'⟩ | ht'
      · cases ht'
        rfl
      · cases ht'
    · rcases hj' with ⟨t', ht'⟩ | ht'
      · cases ht'
      · cases ht'
        rfl
  · simp only [step, Option.ite_none_right_eq_some, Option.some.injEq] at hs
    rcases hemits (e := .error "") (by rw [hs.1.2.1]; rfl) with ⟨t', rfl⟩ | rfl
    · rcases h.socks i with hp | hp | ⟨-, hp | ⟨e, hp⟩⟩ <;>
        · have hphase : (s.socks i).phase = .connected := hs.1.2.1
          rw [show (s.socks i).phase = _ from hp] at hphase
          cases hphase
    · exact hsocket
  · simp only [step, Option.ite_none_right_eq_some, Option.some.injEq] at hs
    exact absurd hs.1.2 (hother hj hij)
  · simp only [step, Option.ite_none_right_eq_some, Option.some.injEq] at hs
    rcases hs.1.2 with hphase | hphase
    · exact absurd (by rw [hphase]; rfl) (hother (e := .error "") hj hij)
    · rw [hj] at hsocket
      cases st with
      | opened k =>
          rcases h.socks i with hp | ⟨-, hp | ⟨e, hp⟩⟩ <;>
            · rw [show (s.socks i).phase = _ from hp] at hphase
              cases hphase
      | _ => cases hsocket

/-- As long as attempts to connect do not overlap, a client that is not closed has one
socket at a time. -/
theorem singleSocket_of_reachable {s : State}
    (h : Reachable (step opts) OneAttempt State.init s) (hdestroyed : s.destroyed = false) :
    SingleSocket opts s := by
  obtain ⟨st, hst⟩ := lifecycle_of_reachable opts h
  exact hst.singleSocket opts hdestroyed

/-- A client that is connected again after its first connection was lost. -/
theorem singleSocket_reconnected :
    ∃ s, exec (step { Options.defaults with autoReconnect := true }) OneAttempt State.init
        [.connect true, .sockConnected 0, .resume 0, .resume 0, .sockClose 0,
          .reconnectTimer true, .sockConnected 1] = some s ∧
      s.socket = some 1 ∧ SingleSocket { Options.defaults with autoReconnect := true } s := by
  obtain ⟨s, hrun, hsocket, hdestroyed⟩ : ∃ s,
      exec (step { Options.defaults with autoReconnect := true }) OneAttempt State.init
        [.connect true, .sockConnected 0, .resume 0, .resume 0, .sockClose 0,
          .reconnectTimer true, .sockConnected 1] = some s ∧
      s.socket = some 1 ∧ s.destroyed = false := ⟨_, rfl, rfl, rfl⟩
  exact ⟨s, hrun, hsocket, singleSocket_of_reachable _ ⟨_, run_of_exec hrun⟩ hdestroyed⟩

/-- Two calls to `connect` before the first completes open two sockets; the second one is
stored while the first one stays open, and its close ends the connection of the second. -/
theorem sockets_doubled :
    ∃ s, Reached Options.defaults s ∧ s.destroyed = false ∧ s.socket = some 1 ∧
      ¬ SingleSocket Options.defaults s ∧
        (s.socks 0).phase = .connected ∧ (s.socks 1).phase = .connected ∧
          (step Options.defaults s (.sockClose 0)).map State.socket = some none := by
  obtain ⟨s, hrun, hdestroyed, hsocket, hzero, hone, hclose⟩ : ∃ s,
      exec (step Options.defaults) (fun _ _ => True) State.init
        [.connect true, .connect true, .sockConnected 0, .resume 0, .resume 0,
          .sockConnected 1, .resume 1, .resume 1] = some s ∧
      s.destroyed = false ∧ s.socket = some 1 ∧ (s.socks 0).phase = .connected ∧
        (s.socks 1).phase = .connected ∧
          (step Options.defaults s (.sockClose 0)).map State.socket = some none :=
    ⟨_, rfl, rfl, rfl, rfl, rfl, rfl⟩
  refine ⟨s, ⟨_, run_of_exec hrun⟩, hdestroyed, hsocket, fun h => ?_, hzero, hone, hclose⟩
  have heq := h.live 0 1 (by rw [hzero]; rfl) (by rw [hone]; rfl)
  cases heq

end NodeTcp

end DittoClient
