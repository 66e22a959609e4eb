import DittoClient.NodeTcp.Order
import DittoClient.NodeTcp.Outcomes
import DittoClient.NodeTcp.Pending

/-!
# The connection that a client uses

A client writes on the socket that is stored, and is handed data by a socket that is connected. As
long as attempts to connect do not overlap, these are one and the same socket (`engaged_unique`),
which the client uses from the event `connect` on until the events of the socket end it, or until
the client is closed. A client that is closed and does not connect uses no other socket after it.
-/

namespace DittoClient

namespace NodeTcp

open DittoClient.Transition

namespace Link

/-- The client may write on a socket or be handed its data. -/
def Engaged (l : Link) (i : ℕ) : Prop :=
  l.socket = some i ∨ (l.socks i).phase = .connected

/-- A socket that was not connected yet. -/
def Fresh (l : Link) (i : ℕ) : Prop :=
  (l.socks i).phase = .connecting ∨ l.nextSock ≤ i

/-- A client that is closed, does not connect and has no socket stored. -/
structure Over (l : Link) : Prop where
  idle : l.Idle
  socket : l.socket = none

end Link

section Lifecycle

variable {l l' : Link} {st : Stage} {a : Action} {i j : ℕ}

/-- The socket that is used belongs to the stage. -/
theorem Lifecycle.of_engaged (h : Lifecycle l st) (he : l.Engaged i) :
    st = .opened i ∨ st = .ending i := by
  rcases he with hsocket | hphase
  · rw [h.socket] at hsocket
    cases st with
    | opened j =>
        cases hsocket
        exact Or.inl rfl
    | _ => cases hsocket
  · have hemits : (l.socks i).phase.emits (.error "") = true := by
      rw [hphase]
      rfl
    rcases h.eq_of_emits hemits with ⟨t, rfl⟩ | hst
    · rcases h.socks i with hp | hp | ⟨-, hp | ⟨e, hp⟩⟩
      · cases hphase.symm.trans hp
      · cases hphase.symm.trans hp
      · cases hphase.symm.trans hp
      · cases hphase.symm.trans hp
    · exact hst

/-- A client uses one socket at a time. -/
theorem Lifecycle.engaged_unique (h : Lifecycle l st) (hi : l.Engaged i) (hj : l.Engaged j) :
    i = j := by
  rcases h.of_engaged hi with rfl | rfl
  · rcases h.of_engaged hj with heq | heq
    · cases heq
      rfl
    · cases heq
  · rcases h.of_engaged hj with heq | heq
    · cases heq
    · cases heq
      rfl

theorem Lifecycle.not_attempting_of_engaged (h : Lifecycle l st) (he : l.Engaged i) (t : ℕ) :
    (l.tasks t).pc.attempting = false := by
  rcases h.of_engaged he with rfl | rfl
  · exact h.not_attempting rfl t
  · exact h.not_attempting rfl t

/-- A socket that is used but not stored is one that the client has ended. -/
theorem Lifecycle.over_of_engaged (h : Lifecycle l st) (he : l.Engaged i)
    (hsocket : l.socket = none) : l.Over := by
  refine ⟨⟨?_, h.not_attempting_of_engaged he⟩, hsocket⟩
  rcases h.of_engaged he with rfl | rfl
  · cases h.socket.symm.trans hsocket
  · exact h.ending i rfl

/-- A socket that connects is not used, and neither is any other. -/
theorem Lifecycle.not_engaged_of_connecting (h : Lifecycle l st)
    (hphase : (l.socks i).phase = .connecting) : ¬ l.Engaged j := by
  obtain ⟨t, rfl⟩ := h.dialing_of_connecting hphase
  intro he
  rcases h.of_engaged he with heq | heq
  · cases heq
  · cases heq

theorem Lifecycle.not_engaged_of_fresh (h : Lifecycle l st) (hsound : l.Sound) (hf : l.Fresh i) :
    ¬ l.Engaged i := by
  rcases hf with hphase | hbound
  · exact h.not_engaged_of_connecting hphase
  · have hclosed := h.bound i hbound
    rintro (hsocket | hphase)
    · exact hsound.opened i hsocket hclosed
    · cases hphase.symm.trans hclosed

theorem Lifecycle.not_connecting_of_idle (h : Lifecycle l st) (hidle : l.Idle) :
    (l.socks i).phase ≠ .connecting := by
  intro hphase
  obtain ⟨t, rfl⟩ := h.dialing_of_connecting hphase
  have hnot := hidle.2 t
  rw [h.run t _ rfl] at hnot
  cases hnot

end Lifecycle

namespace Link

variable {l l' : Link} {st : Stage} {a : Action} {i : ℕ}

theorem setPhase_connected {ph : Phase} (hph : ph ≠ .connected) {j : ℕ}
    (h : ((l.setPhase j ph).socks i).phase = .connected) : (l.socks i).phase = .connected := by
  rw [setPhase_phase] at h
  split at h
  · exact absurd h hph
  · exact h

theorem dialed_connected {created : Bool} (h : ((l.dialed created).socks i).phase = .connected) :
    (l.socks i).phase = .connected := by
  unfold dialed at h
  split at h
  · exact h
  · split at h
    · by_cases hi : i = l.nextSock
      · simp [hi] at h
      · simpa [hi] using h
    · exact h

/-- Only the event `connect` connects a socket. -/
theorem Step.connected_phase (hs : Step l a l') (h : (l'.socks i).phase = .connected) :
    (l.socks i).phase = .connected ∨ a = .sockConnected i := by
  cases hs with
  | same => exact Or.inl h
  | connect created _ _ => exact Or.inl (dialed_connected h)
  | close => exact Or.inl ((l.closed_phase i).symm.trans h)
  | goOn _ _ => exact Or.inl h
  | failed _ _ => exact Or.inl h
  | refused _ _ => exact Or.inl ((l.closed_phase i).symm.trans h)
  | @sockConnected j _ =>
      rw [settled_socks] at h
      by_cases hij : i = j
      · exact Or.inr (by rw [hij])
      · exact Or.inl (by simpa [setPhase, hij] using h)
  | sockError _ _ =>
      rw [settled_socks] at h
      exact Or.inl (setPhase_connected (by simp) h)
  | sockClose _ _ => exact Or.inl (setPhase_connected (by simp) h)
  | destroySock a e _ => exact Or.inl (setPhase_connected (by simp) h)
  | reconnectTimer created _ => exact Or.inl (dialed_connected (l := { l with
      reconnectTimer := false, reconnecting := false }) h)

/-- A socket is used from its event `connect` on. -/
theorem Step.engaged (hs : Step l a l') (h : l'.Engaged i) :
    l.Engaged i ∨ a = .sockConnected i := by
  rcases h with hsocket | hphase
  · exact (hs.socket_some hsocket).imp_left Or.inl
  · exact (hs.connected_phase hphase).imp_left Or.inr

/-- A client that uses no socket any more will use none. -/
theorem Step.over (hs : Step l a l') (h : Lifecycle l st) (hover : l.Over) : l'.Over := by
  refine ⟨hs.idle hover.idle, ?_⟩
  rcases Option.eq_none_or_eq_some l'.socket with hnone | ⟨i, hi⟩
  · exact hnone
  · rcases hs.socket_some hi with hsocket | rfl
    · cases hover.socket.symm.trans hsocket
    · cases hs with
      | same => exact hover.socket
      | sockConnected hphase => exact absurd hphase (h.not_connecting_of_idle hover.idle)
      | destroySock a e _ => exact hover.socket

/-- Where the socket that is used is given up without an event that ends it, the client was
closed. -/
theorem Step.disengaged (hs : Step l a l') (h : Lifecycle l st) (he : l.Engaged i)
    (he' : ¬ l'.Engaged i) (ha : a.ends = false) : l'.Over := by
  rcases Option.eq_none_or_eq_some l.socket with hnone | ⟨j, hj⟩
  · exact hs.over h (h.over_of_engaged he hnone)
  · have hij : i = j := h.engaged_unique he (Or.inl hj)
    subst hij
    rcases Option.eq_none_or_eq_some l'.socket with hnone' | ⟨k, hk⟩
    · rcases hs.socket_none h (by rw [hj]; rfl) hnone' with hends | hidle
      · rw [ha] at hends
        cases hends
      · exact ⟨hidle, hnone'⟩
    · rcases hs.socket_some hk with hsocket | rfl
      · cases hj.symm.trans hsocket
        exact absurd (Or.inl hk) he'
      · cases hs with
        | same => exact absurd he he'
        | sockConnected hphase => exact absurd he (h.not_engaged_of_connecting hphase)
        | destroySock a e _ => exact absurd (Or.inl hj) he'

/-- A socket that was not connected yet was not connected before. -/
theorem Step.fresh (hs : Step l a l') (h : l'.Fresh i) : l.Fresh i := by
  have hphase : ∀ {m : Link} (j : ℕ) {ph : Phase}, ph ≠ .connecting → m.Fresh i →
      m.nextSock = l.nextSock → m.socks = (l.setPhase j ph).socks → l.Fresh i := by
    intro m j ph hph hm hnext hsocks
    rcases hm with hc | hb
    · rw [hsocks, setPhase_phase] at hc
      split at hc
      · exact absurd hc hph
      · exact Or.inl hc
    · exact Or.inr (hnext ▸ hb)
  have hdialed : ∀ {m : Link} {created : Bool}, (m.dialed created).Fresh i →
      m.socks = l.socks → m.nextSock = l.nextSock → l.Fresh i := by
    intro m created hm hsocks hnext
    unfold Fresh dialed at hm
    split at hm
    · exact hm.imp (fun hc => hsocks ▸ hc) fun hb => hnext ▸ hb
    · split at hm
      · by_cases hi : i = m.nextSock
        · exact Or.inr (hi ▸ hnext.ge)
        · rcases hm with hc | hb
          · exact Or.inl (by simpa [hi, hsocks] using hc)
          · exact Or.inr (hnext ▸ Nat.le_of_succ_le hb)
      · exact hm.imp (fun hc => hsocks ▸ hc) fun hb => hnext ▸ hb
  have hclosed : ∀ {m : Link}, m.Fresh i → m.socks = l.closed.socks →
      m.nextSock = l.nextSock → l.Fresh i := by
    intro m hm hsocks hnext
    refine hm.imp (fun hc => ?_) fun hb => hnext ▸ hb
    rw [hsocks, closed_phase] at hc
    exact hc
  cases hs with
  | same => exact h
  | connect created _ _ => exact hdialed h rfl rfl
  | close => exact hclosed h rfl rfl
  | goOn _ _ => exact h
  | failed _ _ => exact h
  | refused _ _ => exact hclosed h rfl rfl
  | @sockConnected j _ =>
      rw [settled_eq] at h
      exact hphase j (by simp : Phase.connected ≠ .connecting) h rfl rfl
  | @sockError j e retry _ _ =>
      rw [settled_eq] at h
      exact hphase j (by simp : Phase.errored ≠ .connecting) h rfl rfl
  | @sockClose j retry _ _ => exact hphase j (by simp : Phase.closed ≠ .connecting) h rfl rfl
  | @destroySock j a e _ => exact hphase j (by simp : Phase.destroyed e ≠ .connecting) h rfl rfl
  | reconnectTimer created _ => exact hdialed (m := { l with
      reconnectTimer := false, reconnecting := false }) h rfl rfl

end Link

section Ends

variable (opts : Options) {s t : State} {st : Stage} {a : Action}

/-- After an event that ends a connection no socket is used. -/
theorem disengaged_of_ends (h : Lifecycle s.link st) (hs : step opts s a = some t)
    (ha : a.ends = true) : t.socket = none ∧ ∀ i, ¬ t.link.Engaged i := by
  have hgone : ∀ {l : Link} (j : ℕ) {ph : Phase}, ph ≠ .connected → l.socket = none →
      l.socks = (s.link.setPhase j ph).socks → (∀ i, s.link.Engaged i → i = j) →
        ∀ i, ¬ l.Engaged i := by
    intro l j ph hph hsocket hsocks honly i he
    rcases he with hi | hphase
    · cases hsocket.symm.trans hi
    · rw [hsocks, Link.setPhase_phase] at hphase
      split at hphase
      · exact hph hphase
      · next hij => exact hij (honly i (Or.inr hphase))
  have hemits : ∀ {j : ℕ} {e : Err}, (s.socks j).phase.emits e = true →
      ∀ i, s.link.Engaged i → i = j := by
    intro j e hphase i he
    rcases h.eq_of_emits (l := s.link) hphase with ⟨k, rfl⟩ | hst
    · rcases h.of_engaged he with heq | heq
      · cases heq
      · cases heq
    · rcases h.of_engaged he with rfl | rfl
      · rcases hst with heq | heq
        · cases heq
          rfl
        · cases heq
      · rcases hst with heq | heq
        · cases heq
        · cases heq
          rfl
  cases a with
  | sockError j e =>
      simp only [step, Option.ite_none_right_eq_some, Option.some.injEq] at hs
      obtain ⟨⟨-, hphase⟩, rfl⟩ := hs
      obtain ⟨retry, -, hlink⟩ := link_onError opts j e s
      have hsocket : (onError opts j e s).link.socket = none := by
        rw [hlink, Link.settled_eq]
        rfl
      refine ⟨hsocket, hgone j (by simp : Phase.errored ≠ .connected) hsocket ?_ (hemits hphase)⟩
      rw [hlink, Link.settled_socks]
      rfl
  | sockClose j =>
      simp only [step, Option.ite_none_right_eq_some, Option.some.injEq] at hs
      obtain ⟨⟨-, hphase⟩, rfl⟩ := hs
      obtain ⟨retry, -, hlink⟩ := link_handleDisconnect opts (.error "Connection closed by server.")
        (s.updateSock j fun k => { k with phase := .closed })
      have hsocket : (onClose opts (s.updateSock j fun k => { k with phase := .closed })).link.socket =
          none := by
        rw [onClose, hlink]
        rfl
      refine ⟨hsocket, hgone j (by simp : Phase.closed ≠ .connected) hsocket ?_ ?_⟩
      · rw [onClose, hlink]
        rfl
      · rcases hphase with hphase | hphase
        · exact hemits (e := .error "") (by rw [hphase]; rfl)
        · intro i he
          have hallow := h.socks j
          have herrored : (s.link.socks j).phase = .errored := hphase
          rcases h.of_engaged he with rfl | rfl
          · rcases hallow with hp | ⟨hj, -⟩
            · cases herrored.symm.trans hp
            · exact hj.symm
          · rcases hallow with hp | ⟨hj, -⟩
            · cases herrored.symm.trans hp
            · exact hj.symm
  | _ => cases ha

end Ends

section Parsing

variable (opts : Options) {s t : State} {st : Stage} {a : Action} {p : ℕ}

theorem Link.dialed_phase {l : Link} (created : Bool) {i : ℕ} (hi : i ≠ l.nextSock) :
    ((l.dialed created).socks i).phase = (l.socks i).phase := by
  unfold Link.dialed
  split
  · rfl
  · split
    · simp [hi]
    · rfl

/-- A round of `onData` that goes on leaves the sockets alone. -/
theorem socks_of_round {i : ℕ} (hparsing : s.parsing = some i)
    (hround : (onDataRound opts i s).parsing = some p) :
    (onDataRound opts i s).socks = s.socks := by
  rcases onDataRound_cases opts hparsing with ⟨-, heq⟩ | ⟨payload, rest, -, heq⟩
  · rw [heq] at hround
    cases hround
  · rw [heq]
    exact congrArg Link.socks (link_handlePayload i payload s)

/-- The socket whose data is handled stays connected while it is. -/
theorem step_parsing_connected (hst : Lifecycle s.link st) (hw : WaiterInv s)
    (h : ∀ p, s.parsing = some p → (s.socks p).phase = .connected) (hs : step opts s a = some t)
    (hp : t.parsing = some p) : (t.socks p).phase = .connected := by
  rcases step_parsing opts hw hs hp with hparsing | ⟨chunk, rfl⟩
  · have hphase := h p hparsing
    have hold : p ≠ s.link.nextSock := (hst.lt_of_phase fun hc => by
      cases hphase.symm.trans hc).ne
    have hbusy : ∀ {q : Prop}, s.parsing.isNone = true → q := fun hnone => by
      rw [hparsing] at hnone
      cases hnone
    have hidle : ∀ {q : Prop}, s.idle = true → q := fun hidle =>
      hbusy (Bool.and_eq_true_iff.mp hidle).1
    have hlink : t.link = s.link → (t.socks p).phase = .connected := fun hl =>
      (congrArg (fun l => (Link.socks l p).phase) hl).trans hphase
    cases a with
    | connect created =>
        cases hs
        have hdialed : (s.link.dialed created).socks p = (doConnect created s).socks p :=
          congrArg (fun l => Link.socks l p) (link_doConnect created s).symm
        unfold connect
        split
        · exact hphase
        · split
          · exact hphase
          · rw [← hdialed, Link.dialed_phase created hold]
            exact hphase
    | close =>
        cases hs
        have hclosed : (s.link.closed.socks p).phase = ((close s).socks p).phase :=
          congrArg (fun l => (Link.socks l p).phase) (link_close s).symm
        rw [← hclosed, Link.closed_phase]
        exact hphase
    | request req =>
        simp only [step] at hs
        split at hs
        · split at hs
          · cases hs
            exact hlink (link_send opts req s)
          · cases hs
            exact hphase
        · cases hs
    | watch key ns callback =>
        simp only [step] at hs
        split at hs
        · cases hs
          exact hlink (link_watch opts key ns callback s)
        · cases hs
          exact hphase
    | unwatch key ns =>
        simp only [step] at hs
        split at hs
        · cases hs
          exact hlink (link_unwatch opts key ns s)
        · cases hs
          exact hphase
    | resume k =>
        simp only [step] at hs
        split at hs
        · next hnone => exact hbusy hnone
        · cases hs
    | sockConnected i =>
        simp only [step, Option.ite_none_right_eq_some] at hs
        exact hidle hs.1.1
    | sockData i chunk =>
        simp only [step, Option.ite_none_right_eq_some] at hs
        exact hidle hs.1.1
    | sockError i e =>
        simp only [step, Option.ite_none_right_eq_some] at hs
        exact hbusy hs.1.1
    | sockClose i =>
        simp only [step, Option.ite_none_right_eq_some] at hs
        exact hbusy hs.1.1
    | connectTimeout i =>
        simp only [step, Option.ite_none_right_eq_some] at hs
        exact hidle hs.1.1
    | idleTimeout i =>
        simp only [step, Option.ite_none_right_eq_some] at hs
        exact hidle hs.1.1
    | requestTimeout w =>
        simp only [step, Option.ite_none_right_eq_some] at hs
        exact hidle hs.1.1
    | reconnectTimer created =>
        simp only [step, Option.ite_none_right_eq_some] at hs
        exact hidle hs.1.1
    | round =>
        simp only [step, Option.map_eq_some_iff] at hs
        obtain ⟨i, hi, rfl⟩ := hs
        rw [socks_of_round opts hi hp]
        exact hphase
    | callbackThrow =>
        simp only [step, Option.ite_none_right_eq_some, Option.some.injEq] at hs
        rw [← hs.2] at hp
        cases hp
  · simp only [step, Option.ite_none_right_eq_some, Option.some.injEq] at hs
    rw [← hs.2]
    exact hs.1.2.1

end Parsing

end NodeTcp

end DittoClient
