import DittoClient.NodeTcp.Ledger

/-!
# After `close`

A client that is closed has no stored socket and no timer, and the sockets that are still
open are ended. From there no step writes a frame or creates a socket, unless a connection
that was under way is established behind the back of `close`.
-/

namespace DittoClient

namespace NodeTcp

open DittoClient.Wire
open DittoClient.Transition

/-- Every open socket is stored or ended. -/
def State.Covered (s : State) : Prop :=
  ∀ i, (s.socks i).phase = .connected → s.socket = some i ∨ (s.socks i).ended = true

/-- A run of `doConnect` closes the client, since its Auth was refused. -/
def State.Refuses (s : State) (t : ℕ) : Prop :=
  ∃ w r, (s.tasks t).pc = .auth w ∧ (s.waiters w).outcomes.head? = some (.resolved r) ∧
    r ≠ .authOk

/-- No connection is established after `close`, and when the client is closed every open
socket is stored or ended. -/
def ClosesAll (s : State) : Action → Prop
  | .sockConnected _ => s.destroyed = false
  | .close => s.destroyed = true ∨ s.Covered
  | .resume t => s.Refuses t → s.destroyed = true ∨ s.Covered
  | _ => True

/-- After `close` nothing is written, no attempt to connect begins, and once no connection
is under way every open socket is ended. -/
def ClosedForGood (opts : Options) (C : State → Action → Prop) : Prop :=
  ∀ s ls t, Reachable (step opts) C State.init s → s.destroyed = true →
    Run (step opts) C s ls t →
      t.wire = s.wire ∧ t.nextSock = s.nextSock ∧
        ((∀ i, (t.socks i).phase ≠ .connecting) →
          ∀ i, (t.socks i).phase = .connected → (t.socks i).ended = true)

/-- What is left of the link of a closed client. -/
structure Link.Final (l : Link) : Prop where
  socket : l.socket = none
  timer : l.reconnectTimer = false
  ended : ∀ i, (l.socks i).phase = .connected → (l.socks i).ended = true

variable (opts : Options)

/-- A run of `doConnect` closes the client only when its Auth is refused. -/
theorem refuses_of_resume {s t : State} {k : ℕ} (hr : resume opts k s = some t)
    (hd : s.destroyed = false) (hd' : t.destroyed = true) : s.Refuses k := by
  have hlink : ∀ {u : State}, u = t → u.link.destroyed = s.link.destroyed → s.Refuses k := by
    intro u hu hsame
    subst hu
    have hfalse : u.destroyed = false := hsame.trans hd
    rw [hfalse] at hd'
    cases hd'
  unfold resume at hr
  split at hr
  · cases hr
  · cases hr
    obtain ⟨pc, -, -, hconn⟩ := link_connected opts k s
    exact hlink rfl (by rw [hconn]; rfl)
  · cases hr
    obtain ⟨retry, -, hfailed⟩ := link_connectFailed opts s
    exact hlink rfl (by rw [link_setPc, hfailed]; rfl)
  · next w hpc =>
      split at hr
      · cases hr
      · cases hr
        exact hlink rfl rfl
      · next r hout =>
          cases hr
          by_cases hok : r = .authOk
          · subst hok
            obtain ⟨pc, -, hreg⟩ := link_reRegisterWatches opts k 0 s
            exact hlink rfl (by rw [authenticated, hreg]; rfl)
          · exact ⟨w, r, hpc, hout, hok⟩
  · cases hr
    exact hlink rfl rfl
  · cases hr
    exact hlink rfl (by rw [link_setPc, link_rejectOfflineQueue]; rfl)
  · next pos w hpc =>
      split at hr
      · cases hr
      · cases hr
        exact hlink rfl rfl
      · cases hr
        obtain ⟨pc, -, hreg⟩ := link_reRegisterWatches opts k pos s
        exact hlink rfl (by rw [hreg]; rfl)
  · cases hr
    exact hlink rfl (by rw [link_setPc, link_flushOfflineQueue]; rfl)
  · cases hr

/-- Ending the stored socket covers the sockets that are open. -/
theorem Link.closed_final {l : Link}
    (h : ∀ i, (l.socks i).phase = .connected → l.socket = some i ∨ (l.socks i).ended = true) :
    l.closed.Final := by
  refine ⟨rfl, rfl, fun i hi => ?_⟩
  unfold Link.closed at hi ⊢
  dsimp only at hi ⊢
  cases hs : l.socket with
  | none =>
      rw [hs] at hi
      exact (h i hi).resolve_left fun he => by simp [hs] at he
  | some j =>
      rw [hs] at hi
      by_cases hij : i = j
      · simp [hij]
      · have hphase : (l.socks i).phase = .connected := by simpa [hij] using hi
        rcases h i hphase with he | hended
        · rw [hs] at he
          cases he
          exact absurd rfl hij
        · simpa [hij] using hended

namespace Link.Final

variable {l : Link}

theorem setPhase (h : l.Final) {ph : Phase} (hph : ph ≠ .connected) (i : ℕ) :
    (l.setPhase i ph).Final := by
  refine ⟨h.socket, h.timer, fun j hj => ?_⟩
  by_cases hji : j = i
  · subst hji
    exact absurd (by simpa [Link.setPhase] using hj) hph
  · simpa [Link.setPhase, hji] using h.ended j (by simpa [Link.setPhase, hji] using hj)

/-- No timer is set for a closed client. -/
theorem lost (h : l.Final) (hdestroyed : l.destroyed = true) {retry : Bool}
    (hretry : retry = true → l.destroyed = false) : (l.lost retry).Final := by
  have hfalse : retry = false := by
    cases retry with
    | false => rfl
    | true =>
        rw [hretry rfl] at hdestroyed
        cases hdestroyed
  subst hfalse
  exact ⟨rfl, by simp [Link.lost, h.timer], h.ended⟩

theorem setPc (h : l.Final) (t : ℕ) (pc : Pc) : (l.setPc t pc).Final :=
  ⟨h.socket, h.timer, h.ended⟩

end Link.Final

/-- A closed link stays so, unless a connection is established. -/
theorem Link.Step.final {l l' : Link} {a : Action} (hs : Link.Step l a l') (h : l.Final)
    (hdestroyed : l.destroyed = true) (hconn : ∀ i, a ≠ .sockConnected i) :
    l'.Final ∧ l'.destroyed = true ∧ l'.nextSock = l.nextSock := by
  have hcovered : l.closed.Final := Link.closed_final fun i hi => Or.inr (h.ended i hi)
  cases hs with
  | same => exact ⟨h, hdestroyed, rfl⟩
  | connect created hfalse hsocket =>
      rw [hfalse] at hdestroyed
      cases hdestroyed
  | close => exact ⟨hcovered, rfl, rfl⟩
  | goOn hfrom hto => exact ⟨h.setPc _ _, hdestroyed, rfl⟩
  | failed hpc hretry =>
      exact ⟨(h.lost hdestroyed fun hr => (hretry hr).1).setPc _ _, hdestroyed, rfl⟩
  | refused e hpc => exact ⟨hcovered.setPc _ _, rfl, rfl⟩
  | sockConnected hphase => exact absurd rfl (hconn _)
  | @sockError i _ _ hphase hretry =>
      have hlost := (h.setPhase (by simp : Phase.errored ≠ .connected) i).lost hdestroyed
        fun hr => (hretry hr).1
      unfold Link.settled
      split
      · exact ⟨hlost.setPc _ _, hdestroyed, rfl⟩
      · exact ⟨hlost, hdestroyed, rfl⟩
  | sockClose hphase hretry =>
      exact ⟨(h.setPhase (by simp) _).lost hdestroyed fun hr => (hretry hr).1, hdestroyed, rfl⟩
  | destroySock a e hphase => exact ⟨h.setPhase (by simp) _, hdestroyed, rfl⟩
  | reconnectTimer created htimer =>
      rw [h.timer] at htimer
      cases htimer

/-- A step that closes the client leaves a closed link. -/
theorem Link.Step.final_of_closing {l l' : Link} {a : Action} (hs : Link.Step l a l')
    (hdestroyed : l.destroyed = false) (hdestroyed' : l'.destroyed = true)
    (h : a = .close ∨ (∃ t, a = .resume t) → ∀ i, (l.socks i).phase = .connected →
      l.socket = some i ∨ (l.socks i).ended = true) : l'.Final := by
  have hcontra : l'.destroyed = l.destroyed → l'.Final := fun heq => by
    rw [heq, hdestroyed] at hdestroyed'
    cases hdestroyed'
  cases hs with
  | close => exact Link.closed_final (h (Or.inl rfl))
  | refused e hpc => exact (Link.closed_final (h (Or.inr ⟨_, rfl⟩))).setPc _ _
  | connect created _ _ => exact hcontra (Link.dialed_destroyed _ _)
  | reconnectTimer created _ => exact hcontra (Link.dialed_destroyed _ _)
  | sockConnected _ => exact hcontra (Link.settled_destroyed _ _ _)
  | sockError _ _ => exact hcontra (Link.settled_destroyed _ _ _)
  | _ => exact hcontra rfl

theorem closesAll_not_connected {s : State} {a : Action} (h : ClosesAll s a)
    (hdestroyed : s.destroyed = true) (i : ℕ) : a ≠ .sockConnected i := by
  intro ha
  subst ha
  have hfalse : s.destroyed = false := h
  rw [hfalse] at hdestroyed
  cases hdestroyed

/-- A closed client has a closed link. -/
theorem step_final {s t : State} {a : Action} (hinv : s.destroyed = true → s.link.Final)
    (h : ClosesAll s a) (hs : step opts s a = some t) (ht : t.destroyed = true) :
    t.link.Final := by
  have hlink := step_link opts hs
  cases hd : s.destroyed with
  | true => exact (hlink.final (hinv hd) hd (closesAll_not_connected h hd)).1
  | false =>
      refine hlink.final_of_closing hd ht fun ha => ?_
      rcases ha with rfl | ⟨k, rfl⟩
      · exact h.resolve_left (by simp [hd])
      · simp only [step] at hs
        split at hs
        · exact (h (refuses_of_resume opts hs hd ht)).resolve_left (by simp [hd])
        · cases hs

theorem final_of_reachable {s : State} (h : Reachable (step opts) ClosesAll State.init s) :
    s.destroyed = true → s.link.Final := by
  refine h.invariant (I := fun s => s.destroyed = true → s.link.Final) (fun hd => by cases hd) ?_
  intro s a t hinv hc hs ht
  exact step_final opts hinv hc hs ht

/-- Without a stored socket nothing is written. -/
theorem wire_of_socket {s t : State} {a : Action} (hs : Ledger opts s a t)
    (hsocket : s.socket = none) : t.wire = s.wire := by
  cases hs with
  | kept _ hset _ => exact hset.wire
  | lost _ hset _ => exact hset.wire
  | read _ hset => exact hset.wire
  | queued _ _ _ _ _ _ hwire _ => exact hwire
  | sent _ hsome _ _ _ _ =>
      rw [hsocket] at hsome
      cases hsome
  | unsent _ _ _ _ _ hwire _ => exact hwire
  | flushed _ hsome _ _ _ _ =>
      rw [hsocket] at hsome
      cases hsome

/-- What one step leaves alone in a closed client. -/
theorem step_closed {s t : State} {a : Action} (hw : WaiterInv s) (hfinal : s.link.Final)
    (hdestroyed : s.destroyed = true) (hc : ClosesAll s a) (hs : step opts s a = some t) :
    t.link.Final ∧ t.destroyed = true ∧ t.nextSock = s.nextSock ∧ t.wire = s.wire := by
  obtain ⟨hfinal', hdestroyed', hnext⟩ := (step_link opts hs).final hfinal hdestroyed
    (closesAll_not_connected hc hdestroyed)
  exact ⟨hfinal', hdestroyed', hnext, wire_of_socket opts (step_ledger opts hw hs) hfinal.socket⟩

/-- `close` is final if no connection is established after it and no open socket was left
behind before it. -/
theorem close_final : ClosedForGood opts ClosesAll := by
  intro s ls t hreach hdestroyed hrun
  have hw : WaiterInv s := by
    obtain ⟨ls', hs⟩ := hreach
    exact waiterInv_of_reached opts ⟨ls', hs.mono fun _ _ _ => trivial⟩
  have hfinal := final_of_reachable opts hreach hdestroyed
  have hinv : WaiterInv t ∧ t.link.Final ∧ t.destroyed = true ∧ t.nextSock = s.nextSock ∧
      t.wire = s.wire := by
    refine hrun.invariant (I := fun u => WaiterInv u ∧ u.link.Final ∧ u.destroyed = true ∧
      u.nextSock = s.nextSock ∧ u.wire = s.wire) ⟨hw, hfinal, hdestroyed, rfl, rfl⟩ ?_
    intro u a v ⟨hu, hfinal, hdestroyed, hnext, hwire⟩ hc hs
    obtain ⟨hfinal', hdestroyed', hnext', hwire'⟩ :=
      step_closed opts hu hfinal hdestroyed hc hs
    exact ⟨step_waiterInv opts hu hs, hfinal', hdestroyed', hnext'.trans hnext,
      hwire'.trans hwire⟩
  exact ⟨hinv.2.2.2.2, hinv.2.2.2.1, fun _ => hinv.2.1.ended⟩

/-- The options of a client with a token. -/
def withToken : Options :=
  { Options.defaults with authToken := some "secret" }

/-- When `close` is called while the client connects, the connection is established all the
same: Auth is written, and the socket stays open. -/
theorem connected_after_close :
    ¬ ClosedForGood withToken (fun _ _ => True) ∧
      ∃ t, Reached withToken t ∧ t.destroyed = true ∧ t.wire = [⟨0, 0, .auth "secret"⟩] ∧
        (t.socks 0).phase = .connected ∧ (t.socks 0).ended = false := by
  obtain ⟨s, t, hs, ht, hwritten, hdestroyed, hopen⟩ : ∃ s t,
      exec (step withToken) (fun _ _ => True) State.init [.connect true, .close] = some s ∧
      exec (step withToken) (fun _ _ => True) s [.sockConnected 0, .resume 0] = some t ∧
      (s.destroyed = true ∧ s.wire = []) ∧ t.destroyed = true ∧
        t.wire = [⟨0, 0, .auth "secret"⟩] ∧
        (t.socks 0).phase = .connected ∧ (t.socks 0).ended = false :=
    ⟨_, _, rfl, rfl, ⟨rfl, rfl⟩, rfl, rfl, rfl, rfl⟩
  refine ⟨fun h => ?_, t, ⟨_, (run_of_exec hs).append (run_of_exec ht)⟩, hdestroyed, hopen⟩
  have hsame := (h s _ t ⟨_, run_of_exec hs⟩ hwritten.1 (run_of_exec ht)).1
  rw [hwritten.2, hopen.1] at hsame
  cases hsame

end NodeTcp

end DittoClient
