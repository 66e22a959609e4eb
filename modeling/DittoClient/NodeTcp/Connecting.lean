import DittoClient.NodeTcp.Attempts
import DittoClient.NodeTcp.Closing
import DittoClient.NodeTcp.Engaged

/-!
# What a resolved connect stands for

The promise of `connect` is resolved at once while a socket is stored, and otherwise with the run
of `doConnect` that it begins. A run that gives up is through like one that is connected, so that
its promise is resolved all the same, and nothing tells a run that is connected that its connection
was lost meanwhile. `Unbroken` rules out the events that lead there: failures to connect, refusals
of Auth and losses of the connection that a run builds on. What is left keeps the promise of
`connect`, be it resolved or rejected (`connect_usable`).
-/

namespace DittoClient

namespace NodeTcp

open DittoClient.Wire
open DittoClient.Transition

/-- The stored socket is connected and, with a token, AuthOk was received on it. -/
def State.Usable (opts : Options) (s : State) : Prop :=
  ∃ i, s.socket = some i ∧ (s.socks i).phase = .connected ∧
    (opts.token?.isSome = true → s.Authed i)

/-- What `connect` promises of one step: where a call of it finds a socket and is resolved at once,
the connection is usable, and where a run of `doConnect` comes to its end, the connection is usable
or the promise is rejected. -/
structure ConnectKept (opts : Options) (s : State) (a : Action) (t : State) : Prop where
  stored : ∀ created, a = .connect created → s.destroyed = false → s.socket.isSome = true →
    t.Usable opts
  ended : ∀ k, (s.tasks k).pc.isDone = false → (t.tasks k).pc.isDone = true →
    t.Usable opts ∨ ∃ e, (t.tasks k).pc = .done (some e)

/-- `connect` keeps its promise in every step of every run under a condition. -/
def ConnectsUsably (opts : Options) (C : State → Action → Prop) : Prop :=
  ∀ s a t, Reachable (step opts) C State.init s → C s a → step opts s a = some t →
    ConnectKept opts s a t

/-- A run of `doConnect` builds on its connection: it is connected, and does not wait for the answer
to a Watch, which would be rejected with the connection. -/
inductive State.BuildsOn (s : State) (k : ℕ) : Prop
  | connected (hpc : (s.tasks k).pc = .connected)
  | auth {w : ℕ} (hpc : (s.tasks k).pc = .auth w)
  | rewatch {pos w : ℕ} {r : ClientResponse} (hpc : (s.tasks k).pc = .rewatch pos w)
      (hout : (s.waiters w).outcomes.head? = some (.resolved r))
  | rewatched (hpc : (s.tasks k).pc = .rewatched)

/-- The client is closed, or its connection breaks: a socket fails or closes, or the stored one has
been idle for too long or receives a frame that is too large. -/
def State.Drops (opts : Options) (s : State) : Action → Prop
  | .close => True
  | .sockError _ _ => True
  | .sockClose _ => True
  | .idleTimeout i => s.socket = some i
  | .round => Oversized opts.maxFrameBytes s.recvBuf
  | _ => False

/-- The next round of `onData` settles a waiter. -/
def State.Hands (opts : Options) (s : State) (w : ℕ) (o : Settlement) : Prop :=
  s.inflight.head? = some w ∧ ∃ payload rest,
    cutFrame opts.maxFrameBytes s.recvBuf = some (payload, rest) ∧
      (∀ name value version, decodeResponse payload ≠ .ok (.watchEvent name value version)) ∧
        o = settlementOf payload

/-- No socket is stored, or one that was destroyed and has not emitted its error yet. -/
def State.Gone (s : State) : Prop :=
  ∀ i, s.socket = some i → ∃ e, (s.socks i).phase = .destroyed e

/-- The events after which `connect` is not resolved without a connection. -/
structure Unbroken (opts : Options) (s : State) (a : Action) : Prop where
  /-- With a token, attempts to connect do not overlap. -/
  alone : opts.token?.isSome = true → OneAttempt s a
  /-- An attempt has its socket, and the socket does not fail while it connects. -/
  created : a ≠ .connect false ∧ a ≠ .reconnectTimer false
  established : ∀ i e k, a = .sockError i e → (s.tasks k).pc ≠ .connecting i
  /-- Auth is answered in time, with AuthOk. -/
  inTime : ∀ w k, a = .requestTimeout w → (s.tasks k).pc ≠ .auth w
  accepted : ∀ w o k, a = .round → s.Hands opts w o → (s.tasks k).pc = .auth w →
    o = .resolved .authOk
  /-- No connection breaks that a run builds on, and no run builds on one that is broken. -/
  held : ∀ k, s.BuildsOn k → ¬ s.Drops opts a
  answered : ∀ pos w r k, a = .round → s.Hands opts w (.resolved r) →
    (s.tasks k).pc = .rewatch pos w → ¬ s.Gone
  /-- `connect` is not called between the end of the stored socket and its error, nor while Auth is
  not answered. -/
  called : ∀ created, a = .connect created → s.destroyed = false → s.socket.isSome = true →
    ¬ s.Gone ∧ (opts.token?.isSome = true →
      ∀ k, (s.tasks k).pc ≠ .connected ∧ ∀ w, (s.tasks k).pc ≠ .auth w)

section Ending

variable {l l' : Link} {a : Action}

/-- A run that is under way is ended by its resumption alone. -/
theorem Link.Step.resume_of_done (hs : Link.Step l a l')
    (hbegun : ∀ k, l.nextTask ≤ k → (l.tasks k).pc = .done none) {k : ℕ}
    (hunder : (l.tasks k).pc.isDone = false) (hdone : (l'.tasks k).pc.isDone = true) :
    a = .resume k := by
  have hnot : ∀ {pc : Pc}, pc.isDone = false → (l'.tasks k).pc = pc → a = .resume k :=
    fun hpc he => by
      rw [he, hpc] at hdone
      cases hdone
  cases hs.moves k with
  | stays hpc => exact hnot hunder hpc
  | resumed ha _ => exact ha
  | begun hnew _ _ _ =>
      rw [hbegun k hnew.ge] at hunder
      cases hunder
  | connected _ _ hpc => exact hnot rfl hpc
  | failed _ _ hpc => exact hnot rfl hpc

end Ending

section Opened

variable {l l' : Link} {a : Action}

/-- The stored socket is connected. -/
def Link.Open (l : Link) : Prop :=
  ∃ i, l.socket = some i ∧ (l.socks i).phase = .connected

/-- A socket that was not created is closed, and the stored one is connected or destroyed. -/
structure Link.Stocked (l : Link) : Prop where
  bound : ∀ j, l.nextSock ≤ j → (l.socks j).phase = .closed
  stored : ∀ i, l.socket = some i →
    (l.socks i).phase = .connected ∨ ∃ e, (l.socks i).phase = .destroyed e

theorem Link.Stocked.lt (h : l.Stocked) {i : ℕ} (hi : (l.socks i).phase ≠ .closed) :
    i < l.nextSock := by
  by_contra hge
  exact hi (h.bound i (Nat.not_lt.mp hge))

theorem Link.Stocked.lt_of_stored (h : l.Stocked) {i : ℕ} (hi : l.socket = some i) :
    i < l.nextSock := by
  refine h.lt fun hclosed => ?_
  rcases h.stored i hi with hphase | ⟨e, hphase⟩
  · cases hphase.symm.trans hclosed
  · cases hphase.symm.trans hclosed

theorem Link.Stocked.dialed (h : l.Stocked) (created : Bool) : (l.dialed created).Stocked where
  bound j := by
    unfold Link.dialed
    split
    · exact h.bound j
    · split
      · intro hj
        have hne : j ≠ l.nextSock := Nat.ne_of_gt hj
        simpa [hne] using h.bound j (Nat.le_of_succ_le hj)
      · exact h.bound j
  stored i hi := by
    rw [Link.dialed_socket] at hi
    rw [Link.dialed_phase created (h.lt_of_stored hi).ne]
    exact h.stored i hi

/-- A socket that was created goes on to another phase. -/
theorem Link.Stocked.setPhase_bound (h : l.Stocked) {i : ℕ} (hi : (l.socks i).phase ≠ .closed)
    (ph : Phase) (j : ℕ) (hj : l.nextSock ≤ j) : ((l.setPhase i ph).socks j).phase = .closed := by
  rw [Link.setPhase_phase, if_neg (Nat.ne_of_gt (Nat.lt_of_lt_of_le (h.lt hi) hj)), h.bound j hj]

theorem Link.Step.stocked (hs : Link.Step l a l') (h : l.Stocked) : l'.Stocked := by
  cases hs with
  | same => exact h
  | connect created _ _ => exact h.dialed created
  | close => exact ⟨fun j hj => (l.closed_phase j).trans (h.bound j hj), fun j hj => by cases hj⟩
  | goOn _ _ => exact ⟨h.bound, h.stored⟩
  | failed _ _ => exact ⟨h.bound, fun j hj => by cases hj⟩
  | refused _ _ =>
      exact ⟨fun j hj => (l.closed_phase j).trans (h.bound j hj), fun j hj => by cases hj⟩
  | @sockConnected i hphase =>
      rw [Link.settled_eq]
      refine ⟨h.setPhase_bound (by simp [hphase]) .connected, fun j hj => ?_⟩
      cases hj
      exact Or.inl (by simp [Link.setPhase])
  | @sockError i e retry hphase _ =>
      rw [Link.settled_eq]
      refine ⟨h.setPhase_bound (fun hclosed => ?_) .errored, fun j hj => by cases hj⟩
      rw [hclosed] at hphase
      cases hphase
  | @sockClose i retry hphase _ =>
      refine ⟨h.setPhase_bound (fun hclosed => ?_) .closed, fun j hj => by cases hj⟩
      rw [hclosed] at hphase
      rcases hphase with hphase | hphase
      · cases hphase
      · cases hphase
  | @destroySock i a e hphase _ =>
      refine ⟨h.setPhase_bound (fun hclosed => ?_) (.destroyed e), fun j hj => ?_⟩
      · rw [hclosed] at hphase
        cases hphase
      · rw [Link.setPhase_phase]
        split
        · exact Or.inr ⟨e, rfl⟩
        · exact h.stored j hj
  | reconnectTimer created _ =>
      exact Link.Stocked.dialed (l := { l with reconnectTimer := false, reconnecting := false })
        ⟨h.bound, h.stored⟩ created

/-- An open connection stays open in the steps that do not break it. -/
theorem Link.Step.stays_open (hs : Link.Step l a l') (h : l.Stocked) (hopen : l.Open)
    (hclose : a ≠ .close) (hends : a.ends = false) (hround : a ≠ .round)
    (hidle : ∀ i, a = .idleTimeout i → l.socket ≠ some i)
    (hresume : ∀ k, a = .resume k → l'.socket.isSome = true) : l'.Open := by
  obtain ⟨i, hi, hphase⟩ := hopen
  cases hs with
  | same => exact ⟨i, hi, hphase⟩
  | connect created _ hsocket => cases hsocket.symm.trans hi
  | close => exact absurd rfl hclose
  | goOn _ _ => exact ⟨i, hi, hphase⟩
  | failed _ _ => cases hresume _ rfl
  | refused _ _ => cases hresume _ rfl
  | @sockConnected j _ =>
      rw [Link.settled_eq]
      exact ⟨j, rfl, by simp [Link.setPhase]⟩
  | sockError _ _ => cases hends
  | sockClose _ _ => cases hends
  | @destroySock j a e _ hfrom =>
      have hne : i ≠ j := by
        rintro rfl
        rcases hfrom with ⟨-, hconnecting⟩ | rfl | ⟨rfl, -⟩
        · cases hphase.symm.trans hconnecting
        · exact hidle i rfl hi
        · exact hround rfl
      refine ⟨i, hi, ?_⟩
      rw [Link.setPhase_phase, if_neg hne, hphase]
  | reconnectTimer created _ =>
      let fired : Link := { l with reconnectTimer := false, reconnecting := false }
      have hne : i ≠ fired.nextSock := (h.lt_of_stored hi).ne
      exact ⟨i, (Link.dialed_socket _ _).trans hi, (fired.dialed_phase created hne).trans hphase⟩

/-- Whether a run of `doConnect` is about to return without a connection. -/
def Pc.givesUp : Pc → Bool
  | .failed => true
  | .authThrew => true
  | .authClosing _ => true
  | _ => false

/-- A run that is not resumed gives up when its socket cannot be created, or fails. -/
theorem Link.Step.givesUp (hs : Link.Step l a l') {k : ℕ} (hk : a ≠ .resume k)
    (h : (l'.tasks k).pc.givesUp = true) : (l.tasks k).pc.givesUp = true ∨
      a = .connect false ∨ a = .reconnectTimer false ∨
        ∃ i e, a = .sockError i e ∧ ∃ j, (l.tasks j).pc = .connecting i := by
  cases hs.moves k with
  | stays hpc => exact Or.inl (hpc ▸ h)
  | resumed ha _ => exact absurd ha hk
  | @begun created _ _ ha hpc =>
      have hcreated : created = false := by
        rw [hpc] at h
        unfold Link.firstPc at h
        cases created with
        | false => rfl
        | true => split at h <;> cases h
      subst hcreated
      exact Or.inr (ha.imp_right fun htimer => Or.inl htimer.2)
  | connected _ _ hpc =>
      rw [hpc] at h
      cases h
  | failed ha hfrom _ => exact Or.inr (Or.inr (Or.inr ⟨_, _, ha, k, hfrom⟩))

end Opened

section Resume

@[simp] theorem State.setPc_pc (s : State) (k : ℕ) (pc : Pc) : ((s.setPc k pc).tasks k).pc = pc := by
  simp [State.setPc]

variable (opts : Options) {s t : State}

theorem pc_of_link {k : ℕ} {pc : Pc} (h : t.link = s.link.setPc k pc) : (t.tasks k).pc = pc := by
  have hpc : (t.link.tasks k).pc = pc := by
    rw [h]
    simp [Link.setPc]
  exact hpc

/-- How a run of `doConnect` that does not give up is resumed: what it registered was not answered,
so that its promise is rejected, or it sends the queue, or it goes on to wait. -/
inductive GoesOn (s : State) (k : ℕ) : State → Prop
  | rejected {pos w : ℕ} (e : Err) (hpc : (s.tasks k).pc = .rewatch pos w) :
      GoesOn s k (s.setPc k (.done (some e)))
  | flushed (hpc : (s.tasks k).pc = .rewatched) :
      GoesOn s k ((flushOfflineQueue opts s).setPc k (.done none))
  | waits {t : State} {pc : Pc} (hbuilds : s.BuildsOn k) (hpc : pc.late = true)
      (hlink : t.link = s.link.setPc k pc) : GoesOn s k t

/-- A run goes on if it has its connection and Auth was answered with AuthOk. -/
theorem resume_goesOn {k : ℕ} (hr : resume opts k s = some t)
    (hcalm : (s.tasks k).pc.givesUp = false) (hopen : s.BuildsOn k → s.link.Open)
    (haccepted : ∀ w o, (s.tasks k).pc = .auth w → (s.waiters w).outcomes.head? = some o →
      o = .resolved .authOk) : GoesOn opts s k t := by
  have hregisters : ∀ pos, s.BuildsOn k → GoesOn opts s k (reRegisterWatches opts k pos s) := by
    intro pos hb
    obtain ⟨pc, hlate, hlink⟩ := link_reRegisterWatches opts k pos s
    exact .waits hb hlate hlink
  have hgives : ∀ {pc : Pc} {p : Prop}, (s.tasks k).pc = pc → pc.givesUp = true → p :=
    fun hpc hgives => by
      rw [hpc, hgives] at hcalm
      cases hcalm
  unfold resume at hr
  split at hr
  · cases hr
  · next hpc =>
      cases hr
      have hb : s.BuildsOn k := .connected hpc
      obtain ⟨pc, -, hlate, hlink⟩ := link_connected opts k s
      obtain ⟨i, hi, -⟩ := hopen hb
      refine .waits hb (hlate.resolve_right fun hnone => ?_) hlink
      cases hnone.symm.trans hi
  · next hpc => exact hgives hpc rfl
  · next w hpc =>
      split at hr
      · cases hr
      · next e hout => cases haccepted w _ hpc hout
      · next r hout =>
          cases haccepted w _ hpc hout
          cases hr
          exact hregisters 0 (.auth hpc)
  · next hpc => exact hgives hpc rfl
  · next hpc => exact hgives hpc rfl
  · next pos w hpc =>
      split at hr
      · cases hr
      · next e hout =>
          cases hr
          exact .rejected e hpc
      · next r hout =>
          cases hr
          exact hregisters pos (.rewatch hpc hout)
  · next hpc =>
      cases hr
      exact .flushed hpc
  · cases hr

end Resume

section Usable

variable (opts : Options) {s t : State} {a : Action}

/-- Runs that have not begun are as they were. -/
theorem step_begun (h : ∀ k, s.nextTask ≤ k → (s.tasks k).pc = .done none)
    (hs : step opts s a = some t) : ∀ k, t.nextTask ≤ k → (t.tasks k).pc = .done none := by
  refine (step_link opts hs).begun h ?_
  rintro k rfl
  exact resume_begun opts (step_resume opts hs)

/-- What holds in every run that is not broken. -/
structure ConnectInv (s : State) : Prop where
  waiters : WaiterInv s
  stocked : s.link.Stocked
  begun : ∀ k, s.nextTask ≤ k → (s.tasks k).pc = .done none
  auth : opts.token?.isSome = true → AuthFirst opts s
  calm : ∀ k, (s.tasks k).pc.givesUp = false
  /-- What a run waits for is not queued. -/
  awaits : ∀ k w, (s.tasks k).pc.reply = some w → w < s.nextWaiter ∧ w ∉ s.offlineQueue
  accepted : ∀ k w o, (s.tasks k).pc = .auth w → (s.waiters w).outcomes.head? = some o →
    o = .resolved .authOk
  opened : ∀ k, s.BuildsOn k → s.link.Open
  /-- With a token, a stored socket is one that AuthOk was received on, or its run is not past
  Auth. -/
  authed : ∀ i, opts.token?.isSome = true → s.socket = some i →
    s.Authed i ∨ ∃ k, (s.tasks k).pc = .connected ∨ ∃ w, (s.tasks k).pc = .auth w

theorem connectInv_init : ConnectInv opts State.init where
  waiters := waiterInv_init
  stocked := ⟨fun j _ => rfl, fun i hi => by cases hi⟩
  begun k _ := rfl
  auth _ := authFirst_init opts
  calm k := rfl
  awaits k w h := by cases h
  accepted k w o h := by cases h
  opened k h := by
    cases h with
    | connected hpc => cases hpc
    | auth hpc => cases hpc
    | rewatch hpc _ => cases hpc
    | rewatched hpc => cases hpc
  authed i _ h := by cases h

/-- A stored socket that is not gone is open. -/
theorem open_of_not_gone (h : s.link.Stocked) (hgone : ¬ s.Gone) : s.link.Open := by
  obtain ⟨i, hi⟩ := not_forall.mp hgone
  obtain ⟨hsocket, hphase⟩ := Classical.not_imp.mp hi
  exact ⟨i, hsocket, (h.stored i hsocket).resolve_right hphase⟩

/-- Only new waiters are queued. -/
theorem Ledger.not_queued (hs : Ledger opts s a t) {w : ℕ} (hw : w < s.nextWaiter)
    (hq : w ∉ s.offlineQueue) : w ∉ t.offlineQueue := by
  cases hs with
  | kept _ hset _ => exact fun hin => hq (hset.offlineQueue.subset hin)
  | lost _ hset _ => exact fun hin => hq (hset.offlineQueue.subset hin)
  | read _ hset => exact fun hin => hq (hset.offlineQueue.subset hin)
  | queued _ _ _ _ _ hqueue _ _ =>
      rw [hqueue]
      intro hin
      rcases List.mem_append.mp hin with hin | hin
      · exact hq hin
      · exact hw.ne (List.mem_singleton.mp hin)
  | sent _ _ _ hqueue _ _ => rwa [hqueue]
  | unsent _ _ _ _ hqueue _ _ => rwa [hqueue]
  | flushed _ _ _ hqueue _ _ =>
      rw [hqueue]
      exact List.not_mem_nil

/-- A round of `onData` leaves the link alone, unless a frame is too large. -/
theorem link_of_round {i : ℕ} (hparsing : s.parsing = some i)
    (hfits : ¬ Oversized opts.maxFrameBytes s.recvBuf) : (onDataRound opts i s).link = s.link := by
  rcases onDataRound_cases opts hparsing with ⟨-, hround⟩ | ⟨payload, rest, -, hround⟩
  · rw [hround, settleBuffer, if_neg hfits]
    rfl
  · rw [hround]
    exact link_handlePayload i payload s

/-- The run that a socket was created for goes on connected when the socket is connected. -/
theorem sockConnected_connected {i : ℕ} {st : Stage} (hst : Lifecycle s.link st)
    (hs : step opts s (.sockConnected i) = some t) : ∃ k, (t.tasks k).pc = .connected := by
  obtain ⟨-, hphase⟩ := idle_of_sockConnected opts hs
  obtain ⟨k, rfl⟩ := hst.dialing_of_connecting hphase
  simp only [step, Option.ite_none_right_eq_some, Option.some.injEq] at hs
  have htask : ((({ s.link.setPhase i .connected with socket := some i } : Link).socks i).task) =
      k := (s.link.setPhase_task i _ i).trans (hst.task i k rfl)
  have hpc : (t.link.tasks k).pc = .connected := by
    rw [← hs.2, link_onConnected, Lifecycle.settled_of_pc htask (hst.run k _ rfl), Link.setPc]
    simp
  exact ⟨k, hpc⟩

namespace ConnectInv

variable (h : ConnectInv opts s)
include h

theorem goesOn {k : ℕ} (hs : step opts s (.resume k) = some t) : GoesOn opts s k t :=
  resume_goesOn opts (step_resume opts hs) (h.calm k) (h.opened k) (h.accepted k)

/-- A connection that a run builds on stays open. -/
theorem step_open (hc : Unbroken opts s a) (hs : step opts s a = some t) {k : ℕ}
    (hk : s.BuildsOn k) : t.link.Open := by
  have hheld := hc.held k hk
  by_cases hround : a = .round
  · subst hround
    simp only [step, Option.map_eq_some_iff] at hs
    obtain ⟨i, hi, rfl⟩ := hs
    rw [link_of_round opts hi hheld]
    exact h.opened k hk
  refine (step_link opts hs).stays_open h.stocked (h.opened k hk) ?_ ?_ hround ?_ ?_
  · rintro rfl
    exact hheld trivial
  · cases a with
    | sockError i e => exact absurd trivial hheld
    | sockClose i => exact absurd trivial hheld
    | _ => rfl
  · rintro i rfl
    exact hheld
  · rintro j rfl
    obtain ⟨i, hi, -⟩ := h.opened k hk
    have hsocket : t.link.socket = s.link.socket := by
      cases h.goesOn opts hs with
      | rejected e _ => rfl
      | flushed _ => rw [link_setPc, link_flushOfflineQueue]; rfl
      | waits _ _ hlink => rw [hlink]; rfl
    rw [hsocket, hi]
    rfl

theorem step_calm (hc : Unbroken opts s a) (hs : step opts s a = some t) (k : ℕ) :
    (t.tasks k).pc.givesUp = false := by
  by_cases hk : a = .resume k
  · subst hk
    cases h.goesOn opts hs with
    | rejected e _ => rw [State.setPc_pc]; rfl
    | flushed _ => rw [State.setPc_pc]; rfl
    | @waits _ pc _ hlate hlink =>
        rw [pc_of_link hlink]
        cases pc <;> first | rfl | cases hlate
  · cases hgives : (t.tasks k).pc.givesUp with
    | false => rfl
    | true =>
        rcases (step_link opts hs).givesUp hk hgives with hold | ha | ha | ⟨i, e, ha, j, hj⟩
        · cases hold.symm.trans (h.calm k)
        · exact absurd ha hc.created.1
        · exact absurd ha hc.created.2
        · exact absurd hj (hc.established i e j ha)

/-- A run awaits what it has just written, or awaited before. -/
theorem step_awaits (hs : step opts s a = some t) (k w : ℕ)
    (hreply : (t.tasks k).pc.reply = some w) : w < t.nextWaiter ∧ w ∉ t.offlineQueue := by
  have hledger := step_ledger opts h.waiters hs
  have hw := step_waiterInv opts h.waiters hs
  rcases step_waits opts (step_link opts hs) hs (Pc.waits_of_reply hreply) with
    ⟨-, hresumed⟩ | ⟨-, hpc⟩
  · have hin : w ∈ t.inflight := by
      cases hpc : (t.tasks k).pc with
      | auth v =>
          rw [hpc] at hreply
          cases hreply
          exact (hresumed.auth w hpc).2.1
      | rewatch pos v =>
          rw [hpc] at hreply
          cases hreply
          exact (hresumed.rewatch pos w hpc).2.2.1
      | _ =>
          rw [hpc] at hreply
          cases hreply
    exact ⟨hw.bound w (List.mem_append_left _ hin),
      fun hq => (List.nodup_append'.mp hw.nodup).2.2 hin hq⟩
  · rw [hpc] at hreply
    obtain ⟨hlt, hq⟩ := h.awaits k w hreply
    exact ⟨Nat.lt_of_lt_of_le hlt (hledger.nextWaiter_le opts), hledger.not_queued opts hlt hq⟩

/-- A run is answered by the frame that is cut off for it, and otherwise rejected. -/
theorem step_given (hs : step opts s a = some t) {k w : ℕ} {o : Settlement}
    (hreply : (s.tasks k).pc.reply = some w) (hout : (t.waiters w).outcomes.head? = some o) :
    (s.waiters w).outcomes.head? = some o ∨ (a = .round ∧ s.Hands opts w o) ∨
      ((a = .requestTimeout w ∨ a.ends = true) ∧ ∃ e, o = .rejected e) := by
  obtain ⟨hlt, hq⟩ := h.awaits k w hreply
  rcases step_awards opts h.waiters hs w hlt with hsame | ⟨-, o', hcause, hgiven⟩
  · exact Or.inl (hsame ▸ hout)
  · rw [hgiven] at hout
    cases hout
    refine Or.inr ?_
    cases hcause with
    | timeout => exact Or.inr ⟨Or.inl rfl, _, rfl⟩
    | @replied i _ ws payload rest _ hin hcut hwatch =>
        exact Or.inl ⟨rfl, by rw [hin]; rfl, payload, rest, hcut, hwatch, rfl⟩
    | lost hloss _ _ => exact Or.inr ⟨Or.inr (Action.ends_of_loss hloss), _, rfl⟩
    | drained hqueued _ => exact absurd hqueued hq

/-- Auth is answered with AuthOk. -/
theorem step_accepted (hc : Unbroken opts s a) (hs : step opts s a = some t) (k w : ℕ)
    (o : Settlement) (hpc : (t.tasks k).pc = .auth w)
    (hout : (t.waiters w).outcomes.head? = some o) : o = .resolved .authOk := by
  rcases step_waits opts (step_link opts hs) hs (by rw [hpc]; rfl) with ⟨-, hresumed⟩ | ⟨-, hkept⟩
  · -- Auth has only just been written
    obtain ⟨rfl, hin, -⟩ := hresumed.auth w hpc
    rw [(step_ledger opts h.waiters hs).fresh opts h.waiters hin] at hout
    cases hout
  · have hbefore : (s.tasks k).pc = .auth w := hkept.symm.trans hpc
    rcases h.step_given opts hs (by rw [hbefore]; rfl) hout with
      hold | ⟨ha, hhands⟩ | ⟨ha | hends, -⟩
    · exact h.accepted k w o hbefore hold
    · exact hc.accepted w o k ha hhands hbefore
    · exact absurd hbefore (hc.inTime w k ha)
    · refine absurd ?_ (hc.held k (.auth hbefore))
      cases a with
      | sockError i e => trivial
      | sockClose i => trivial
      | _ => cases hends

/-- A run that builds on its connection finds it open. -/
theorem step_opened (hc : Unbroken opts s a) (hs : step opts s a = some t) (k : ℕ)
    (hk : t.BuildsOn k) : t.link.Open := by
  have hlink := step_link opts hs
  by_cases hresume : a = .resume k
  · subst hresume
    have hnot : ∀ {o : Option Err}, (t.tasks k).pc ≠ .done o := fun hdone => by
      cases hk with
      | connected hpc => cases hdone.symm.trans hpc
      | auth hpc => cases hdone.symm.trans hpc
      | rewatch hpc _ => cases hdone.symm.trans hpc
      | rewatched hpc => cases hdone.symm.trans hpc
    cases h.goesOn opts hs with
    | rejected e _ => exact absurd (State.setPc_pc _ _ _) hnot
    | flushed _ => exact absurd (State.setPc_pc _ _ _) hnot
    | waits hbuilds _ _ => exact h.step_open opts hc hs hbuilds
  · have hkept : ∀ {pc : Pc}, (t.tasks k).pc = pc → pc.starts = false → (s.tasks k).pc = pc := by
      rintro pc rfl hstarts
      exact (hlink.pc_kept hresume hstarts).symm
    cases hk with
    | connected hpc =>
        have hrests : ∀ j, a = .resume j → (t.tasks j).pc ≠ .connected := by
          rintro j rfl
          exact (resume_rests opts (step_resume opts hs)).2
        rcases hlink.connected hrests hpc with hold | ⟨i, rfl⟩
        · exact h.step_open opts hc hs (.connected hold)
        · simp only [step, Option.ite_none_right_eq_some, Option.some.injEq] at hs
          rw [← hs.2, link_onConnected, Link.settled_eq]
          exact ⟨i, rfl, by simp [Link.setPhase]⟩
    | auth hpc => exact h.step_open opts hc hs (.auth (hkept hpc rfl))
    | rewatched hpc => exact h.step_open opts hc hs (.rewatched (hkept hpc rfl))
    | @rewatch pos w r hpc hout =>
        have hbefore := hkept hpc rfl
        rcases h.step_given opts hs (by rw [hbefore]; rfl) hout with
          hold | ⟨rfl, hhands⟩ | ⟨-, e, he⟩
        · exact h.step_open opts hc hs (.rewatch hbefore hold)
        · -- the answer comes while the connection is there, and its round does not break it
          have hopen := open_of_not_gone h.stocked (hc.answered pos w r k rfl hhands hbefore)
          obtain ⟨-, payload, rest, hcut, -⟩ := hhands
          simp only [step, Option.map_eq_some_iff] at hs
          obtain ⟨i, hi, rfl⟩ := hs
          rw [link_of_round opts hi fun hover => by rw [hover.cutFrame] at hcut; cases hcut]
          exact hopen
        · cases he

/-- With a token, a run that has come past Auth has left AuthOk on the stored socket. -/
theorem step_authed (hc : Unbroken opts s a) (hs : step opts s a = some t) (i : ℕ)
    (htoken : opts.token?.isSome = true) (hi : t.socket = some i) :
    t.Authed i ∨ ∃ k, (t.tasks k).pc = .connected ∨ ∃ w, (t.tasks k).pc = .auth w := by
  have hauth := h.auth htoken
  have hlink := step_link opts hs
  rcases hlink.socket_some hi with hsocket | rfl
  · rcases h.authed i htoken hsocket with ⟨d, hd, hdelivered⟩ | ⟨k, hk⟩
    · exact Or.inl ⟨d, (step_received opts hauth.waiters hs).1.subset hd, hdelivered⟩
    · by_cases hresume : a = .resume k
      · subst hresume
        have hconnected := (resume_rests opts (step_resume opts hs)).2
        have hlate : (t.tasks k).pc.late = true := by
          cases h.goesOn opts hs with
          | rejected e hpc =>
              rcases hk with hk | ⟨w, hk⟩
              · cases hpc.symm.trans hk
              · cases hpc.symm.trans hk
          | flushed hpc =>
              rcases hk with hk | ⟨w, hk⟩
              · cases hpc.symm.trans hk
              · cases hpc.symm.trans hk
          | waits _ hlate hwaits => rwa [pc_of_link hwaits]
        have hnext := hauth.next opts (hc.alone htoken) hs
        cases hpc : (t.tasks k).pc with
        | connected => exact absurd hpc hconnected
        | auth w => exact Or.inr ⟨k, Or.inr ⟨w, hpc⟩⟩
        | rewatch pos w =>
            exact Or.inl (hnext.authed i k htoken hi (Or.inr (Or.inl ⟨pos, w, hpc⟩)))
        | rewatched => exact Or.inl (hnext.authed i k htoken hi (Or.inl hpc))
        | _ =>
            rw [hpc] at hlate
            cases hlate
      · refine Or.inr ⟨k, ?_⟩
        rcases hk with hk | ⟨w, hk⟩
        · exact Or.inl ((hlink.pc_stays h.begun (hk ▸ rfl)
            (fun j hj => by cases hk.symm.trans hj) hresume).trans hk)
        · exact Or.inr ⟨w, (hlink.pc_stays h.begun (hk ▸ rfl)
            (fun j hj => by cases hk.symm.trans hj) hresume).trans hk⟩
  · obtain ⟨st, hst⟩ := hauth.lifecycle
    obtain ⟨k, hk⟩ := sockConnected_connected opts hst hs
    exact Or.inr ⟨k, Or.inl hk⟩

theorem next (hc : Unbroken opts s a) (hs : step opts s a = some t) : ConnectInv opts t where
  waiters := step_waiterInv opts h.waiters hs
  stocked := (step_link opts hs).stocked h.stocked
  begun := step_begun opts h.begun hs
  auth htoken := (h.auth htoken).next opts (hc.alone htoken) hs
  calm := h.step_calm opts hc hs
  awaits := h.step_awaits opts hs
  accepted := h.step_accepted opts hc hs
  opened := h.step_opened opts hc hs
  authed := h.step_authed opts hc hs

/-- A run of `doConnect` that comes to its end has a usable connection, or its promise is
rejected. -/
theorem kept (hc : Unbroken opts s a) (hs : step opts s a = some t) :
    ConnectKept opts s a t := by
  refine ⟨?_, fun k hk hdone => ?_⟩
  · rintro created rfl hdestroyed hsome
    obtain ⟨hgone, hanswered⟩ := hc.called created rfl hdestroyed hsome
    obtain ⟨i, hi, hphase⟩ := open_of_not_gone h.stocked hgone
    have hsame : t = s := by
      cases hs
      simp [connect, hdestroyed, hsome]
    subst hsame
    refine ⟨i, hi, hphase, fun htoken => ?_⟩
    rcases h.authed i htoken hi with hauthed | ⟨k, hk | ⟨w, hk⟩⟩
    · exact hauthed
    · exact absurd hk (hanswered htoken k).1
    · exact absurd hk ((hanswered htoken k).2 w)
  · obtain rfl := (step_link opts hs).resume_of_done h.begun hk hdone
    cases h.goesOn opts hs with
    | rejected e _ => exact Or.inr ⟨e, State.setPc_pc _ _ _⟩
    | flushed hpc =>
        obtain ⟨i, hi, hphase⟩ := h.step_open opts hc hs (.rewatched hpc)
        refine Or.inl ⟨i, hi, hphase, fun htoken => ?_⟩
        have hsocket : s.socket = some i := by
          rw [link_setPc, link_flushOfflineQueue] at hi
          exact hi
        obtain ⟨d, hd, hdelivered⟩ := (h.auth htoken).authed i k htoken hsocket (Or.inl hpc)
        exact ⟨d, (step_received opts h.waiters hs).1.subset hd, hdelivered⟩
    | @waits _ pc _ hlate hlink =>
        rw [pc_of_link hlink] at hdone
        cases pc with
        | done threw => cases hlate
        | _ => cases hdone

end ConnectInv

/-- `connect` keeps its promise in every run in which no attempt to connect fails, Auth is answered
with AuthOk and no connection breaks that a run of `doConnect` builds on. -/
theorem connect_usable : ConnectsUsably opts (Unbroken opts) := by
  intro s a t hreach hc hs
  have hinv : ConnectInv opts s := hreach.invariant (I := fun s => ConnectInv opts s)
    (connectInv_init opts) fun s a t h hc hs => h.next opts hc hs
  exact hinv.kept opts hc hs

/-- When the connection is refused, and when Auth is answered with an error, the promise of
`connect` is resolved, and there is no socket. -/
theorem connect_resolved_refused :
    Options.defaults.autoReconnect = false ∧ withToken.autoReconnect = false ∧
      ¬ ConnectsUsably Options.defaults (fun _ _ => True) ∧
        ¬ ConnectsUsably withToken (fun _ _ => True) := by
  obtain ⟨s, t, hs, ht, hunder, hdone, hsocket⟩ : ∃ s t,
      exec (step Options.defaults) (fun _ _ => True) State.init
        [.connect true, .sockError 0 (.error "connect ECONNREFUSED 127.0.0.1:7777")] = some s ∧
      step Options.defaults s (.resume 0) = some t ∧ (s.tasks 0).pc.isDone = false ∧
        (t.tasks 0).pc = .done none ∧ t.socket = none := ⟨_, _, rfl, rfl, rfl, rfl, rfl⟩
  obtain ⟨u, v, hu, hv, hunder', hdone', hsocket'⟩ : ∃ u v,
      exec (step withToken) (fun _ _ => True) State.init
        [.connect true, .sockConnected 0, .resume 0,
          .sockData 0 [0, 0, 0, 6, 8, 1, 26, 2, 58, 0], .round, .round, .resume 0] = some u ∧
      step withToken u (.resume 0) = some v ∧ (u.tasks 0).pc.isDone = false ∧
        (v.tasks 0).pc = .done none ∧ v.socket = none := ⟨_, _, rfl, rfl, rfl, rfl, rfl⟩
  refine ⟨rfl, rfl, fun h => ?_, fun h => ?_⟩
  · rcases (h s _ t ⟨_, run_of_exec hs⟩ trivial ht).ended 0 hunder (by rw [hdone]; rfl) with
      ⟨i, hi, -⟩ | ⟨e, he⟩
    · cases hsocket.symm.trans hi
    · cases hdone.symm.trans he
  · rcases (h u _ v ⟨_, run_of_exec hu⟩ trivial hv).ended 0 hunder' (by rw [hdone']; rfl) with
      ⟨i, hi, -⟩ | ⟨e, he⟩
    · cases hsocket'.symm.trans hi
    · cases hdone'.symm.trans he

end Usable

end NodeTcp

end DittoClient
