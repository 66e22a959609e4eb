import DittoClient.LockStep.Pairing

/-!
# The connections of the Go client

A client should own the connections that it has opened: the ones that are not closed again are
the one that it holds. The Go client keeps to this as long as `Connect` is not called while it
holds a connection: it stores the new connection in the place of the other one, which is closed
by nobody from then on (`abandoned_forever`). The clients in the other languages return from a
second `connect` at once.

What an exchange, a wait and the closing of a connection keep is stated for any property of the
world that the single steps keep (`World.Stable`).
-/

namespace DittoClient

namespace LockStep

open DittoClient.Protobuf
open DittoClient.Wire
open DittoClient.Program
open DittoClient.Transition

variable {φ : Type}

namespace World

/-- A connection that was opened and is not closed. -/
def Open (w : World φ) (i : ℕ) : Prop :=
  i < w.next ∧ (w.conns i).closed = false

/-- The open connections are the one that is held. -/
def Owned (w : World φ) : Prop :=
  ∀ i, w.Open i ↔ w.held = some i

/-- A connection that is open and is not the one that is held. -/
def Abandoned (w : World φ) (i : ℕ) : Prop :=
  w.Open i ∧ w.held ≠ some i

theorem Abandoned.not_owned {w : World φ} {i : ℕ} (h : w.Abandoned i) : ¬ w.Owned :=
  fun howned => h.2 ((howned i).mp h.1)

/-- A property that traffic and closing keep, and so does opening where no connection is held. -/
structure Stable (I : World φ → Prop) : Prop where
  advance : ∀ w i k rs, I w → I (w.advance i k rs)
  apply : ∀ (a : Arrival φ) i w, I w → I (a.apply i w)
  write : ∀ w i frame complete, I w → I (w.update i fun c => c.write frame complete)
  close : ∀ w i, w.held = some i → I w →
    I { w.update i fun c => { c with closed := true } with held := none }
  opens : ∀ w, w.held = none → I w →
    I { w.update w.next fun _ => Connection.fresh with next := w.next + 1, held := some w.next }

end World

section Traffic

variable {I : World φ → Prop}

theorem sendall_stable (hI : World.Stable I) (x : Exchange φ) (frame : Request) :
    Ensures I (sendall x frame) (fun _ => I) (fun _ => I) := by
  intro w hw
  cases hheld : w.held with
  | none =>
      simp only [sendall, hheld]
      exact hw
  | some i =>
      cases hx : x.write with
      | ok =>
          simp only [sendall, hheld, hx]
          exact hI.apply x.toArrival i _ (hI.write w i frame true hw)
      | failed complete f =>
          simp only [sendall, hheld, hx]
          exact hI.apply x.toArrival i _ (hI.write w i frame complete hw)
      | refused f =>
          simp only [sendall, hheld, hx]
          exact hw

theorem recvn_stable (hI : World.Stable I) (n : ℕ) :
    Ensures I (recvn n) (fun _ => I) (fun _ => I) := by
  intro w hw
  cases hheld : w.held with
  | some i =>
      refine ((recvn_ensures hheld n).weaken_post ?_ ?_) w rfl
      · rintro bs t ⟨rs, ht, -⟩
        rw [ht]
        exact hI.advance w i _ rs hw
      · rintro e t ⟨-, -, ⟨k, rs, -, ht⟩, -⟩
        rw [ht]
        exact hI.advance w i k rs hw
  | none =>
      -- nothing is read without a connection
      have hrecv : ∀ k, Ensures (· = w) (sockRecv k) (fun _ _ => False) (fun _ => I) := by
        rintro k w rfl
        simp only [sockRecv, hheld]
        exact hw
      cases n with
      | zero => exact hw
      | succ n =>
          rw [recvn, recvnLoop]
          exact (Ensures.ite (fun _ => (hrecv _).bind fun _ => fun _ h => h.elim)
            fun hlt => absurd (Nat.succ_pos n) hlt) w rfl

theorem recvFrame_stable (hI : World.Stable I) (accepts : ℕ → Bool) (decode : Decoder) :
    Ensures I (recvFrame accepts decode) (fun _ => I) (fun _ => I) := by
  refine (recvn_stable hI 4).bind fun header => Ensures.ite (fun _ => ?_)
    fun _ => ensures_throw _ fun _ h => h
  refine (recvn_stable hI _).bind fun payload => ?_
  cases decode payload with
  | ok r => exact ensures_pure _ fun _ h => h
  | error d => exact ensures_throw _ fun _ h => h

theorem exchange_stable (hI : World.Stable I) (accepts : ℕ → Bool) (decode : Decoder)
    (x : Exchange φ) (frame : Request) :
    Ensures I (exchange accepts decode x frame) (fun _ => I) (fun _ => I) :=
  (sendall_stable hI x frame).bind fun _ => recvFrame_stable hI accepts decode

theorem awaitFrame_stable (hI : World.Stable I) (accepts : ℕ → Bool) (decode : Decoder)
    (a : Arrival φ) : Ensures I (awaitFrame accepts decode a) (fun _ => I) (fun _ => I) := by
  refine Ensures.bind (R := fun _ => I) (fun w hw => ?_) fun _ => recvFrame_stable hI accepts decode
  cases hheld : w.held with
  | none =>
      simp only [await, hheld]
      exact hw
  | some i =>
      simp only [await, hheld]
      exact hI.apply a i w hw

/-- After a release no connection is held. -/
theorem release_stable (hI : World.Stable I) (E : Failure φ → World φ → Prop) :
    Ensures I release (fun _ t => I t ∧ t.held = none) E := by
  intro w hw
  cases hheld : w.held with
  | none =>
      simp only [release, hheld]
      exact ⟨hw, trivial⟩
  | some i =>
      simp only [release, hheld]
      exact ⟨hI.close w i hheld hw, trivial⟩

theorem release_throw_stable {α : Type} (hI : World.Stable I) (e : Failure φ)
    (Q : α → World φ → Prop) :
    Ensures I
      (do
        release
        throw e : Client φ α)
      Q (fun _ => I) :=
  (release_stable hI _).bind fun _ => ensures_throw _ fun _ h => h.1

theorem dial_hold_stable (hI : World.Stable I) (d : Dial φ) :
    Ensures (fun w => I w ∧ w.held = none) (dial d >>= hold) (fun _ => I) (fun _ => I) := by
  rintro w ⟨hw, hheld⟩
  cases d with
  | ok => exact hI.opens w hheld hw
  | failed f => exact hw

end Traffic

section Open

variable {w t : World φ} {i : ℕ}

theorem foldl_serve_closed (acts : List ServerFrame) (c : Connection) :
    (acts.foldl Connection.serve c).closed = c.closed := by
  induction acts generalizing c with
  | nil => rfl
  | cons f acts ih =>
      rw [List.foldl_cons, ih]
      cases f with
      | push p => rfl
      | reply p =>
          rw [Connection.serve]
          split <;> rfl

/-- A change of one connection that neither opens nor closes it. -/
theorem World.update_closed {f : Connection → Connection} (hf : ∀ c, (f c).closed = c.closed)
    (w : World φ) (i j : ℕ) : ((w.update i f).conns j).closed = (w.conns j).closed := by
  by_cases hj : j = i
  · subst hj
    rw [World.update_conns_self, hf]
  · rw [World.update_conns_of_ne w f hj]

/-- Whether connections are open, and which one is held. -/
structure World.Alike (w t : World φ) : Prop where
  held : t.held = w.held
  next : t.next = w.next
  closed : ∀ j, (t.conns j).closed = (w.conns j).closed

theorem World.Alike.open_iff (h : w.Alike t) (i : ℕ) : t.Open i ↔ w.Open i := by
  rw [World.Open, World.Open, h.next, h.closed]

theorem World.alike_advance (w : World φ) (i k : ℕ) (rs : List (Recv φ)) :
    w.Alike (w.advance i k rs) :=
  ⟨rfl, rfl, fun j =>
    World.update_closed (f := fun c => { c with read := c.read + k }) (fun _ => rfl) w i j⟩

theorem World.alike_apply (a : Arrival φ) (i : ℕ) (w : World φ) : w.Alike (a.apply i w) :=
  ⟨rfl, rfl, fun j => World.update_closed (foldl_serve_closed a.acts) w i j⟩

theorem World.alike_write (w : World φ) (i : ℕ) (frame : Request) (complete : Bool) :
    w.Alike (w.update i fun c => c.write frame complete) :=
  ⟨rfl, rfl, fun j =>
    World.update_closed (f := fun c => c.write frame complete) (fun _ => rfl) w i j⟩

/-- A property of what is open and what is held is stable if closing and opening keep it. -/
theorem World.stable_of_alike {I : World φ → Prop}
    (halike : ∀ w t : World φ, w.Alike t → I w → I t)
    (hclose : ∀ w i, w.held = some i → I w →
      I { w.update i fun c => { c with closed := true } with held := none })
    (hopens : ∀ w, w.held = none → I w →
      I { w.update w.next fun _ => Connection.fresh with
        next := w.next + 1, held := some w.next }) : World.Stable I where
  advance w i k rs := halike _ _ (World.alike_advance w i k rs)
  apply a i w := halike _ _ (World.alike_apply a i w)
  write w i frame complete := halike _ _ (World.alike_write w i frame complete)
  close := hclose
  opens := hopens

/-- The connections that are open when the one that is held is closed. -/
theorem World.open_close (w : World φ) (i j : ℕ) :
    World.Open { w.update i fun c => { c with closed := true } with held := none } j ↔
      w.Open j ∧ j ≠ i := by
  by_cases hj : j = i
  · subst hj
    simp [World.Open]
  · simp [World.Open, World.update_conns_of_ne w _ hj, hj]

/-- The connections that are open when one is opened. -/
theorem World.open_opens (w : World φ) (j : ℕ) :
    World.Open { w.update w.next fun _ => Connection.fresh with
        next := w.next + 1, held := some w.next } j ↔ w.Open j ∨ j = w.next := by
  by_cases hj : j = w.next
  · subst hj
    simp [World.Open, Connection.fresh]
  · have hlt : j < w.next + 1 ↔ j < w.next := by omega
    simp [World.Open, World.update_conns_of_ne w _ hj, hj, hlt]

theorem World.stable_owned : World.Stable (World.Owned (φ := φ)) := by
  refine World.stable_of_alike (fun w t h howned i => ?_) (fun w i hheld howned j => ?_)
    fun w hheld howned j => ?_
  · rw [h.open_iff, howned i, h.held]
  · rw [World.open_close, howned j, hheld]
    simp [eq_comm]
  · rw [World.open_opens, howned j, hheld]
    simp [eq_comm]

/-- An abandoned connection stays so. -/
theorem World.stable_abandoned (i : ℕ) : World.Stable fun w : World φ => w.Abandoned i := by
  refine World.stable_of_alike (fun w t h ha => ?_) (fun w j hheld ha => ?_) fun w hheld ha => ?_
  · rw [World.Abandoned, h.open_iff, h.held]
    exact ha
  · refine ⟨(World.open_close w j i).mpr ⟨ha.1, ?_⟩, nofun⟩
    rintro rfl
    exact ha.2 hheld
  · refine ⟨(World.open_opens w i).mpr (Or.inl ha.1), fun h => ?_⟩
    exact absurd ha.1.1 (by rw [Option.some.inj h]; exact Nat.lt_irrefl _)

/-- A connection that is stored takes the place of the one that is held. -/
theorem dial_hold_abandons (hi : w.Open i) :
    Ensures (· = w) (dial .ok >>= hold) (fun _ t => t.Abandoned i) (fun _ _ => False) := by
  rintro w rfl
  refine ⟨(World.open_opens w i).mpr (Or.inl hi), fun h => ?_⟩
  exact absurd hi.1 (by rw [Option.some.inj h]; exact Nat.lt_irrefl _)

end Open

namespace Go

section Stable

variable {I P : World φ → Prop} {cfg : Config φ}

/-- Connecting keeps what opening the connection keeps. -/
theorem connectLocked_stable (hI : World.Stable I) (cfg : Config φ) (a : Attempt φ)
    (hopen : Ensures P (dial a.dial >>= hold) (fun _ => I) (fun _ => I)) :
    Ensures P (connectLocked cfg a) (fun _ => I) (fun _ => I) := by
  refine hopen.bind fun _ => ?_
  cases authToken cfg with
  | none => exact ensures_pure _ fun _ h => h
  | some token =>
      exact Ensures.bind (Ensures.tryCatch
        (exchange_stable hI cfg.accepts cfg.decode a.auth (.auth token)) fun err =>
          Ensures.ite (fun _ => release_throw_stable hI err _)
            fun _ => ensures_throw _ fun _ h => h) fun resp =>
              Ensures.ite (fun _ => ensures_pure _ fun _ h => h)
                fun _ => release_throw_stable hI _ _

theorem ensureConnectedLocked_stable (hI : World.Stable I) (cfg : Config φ) (a : Attempt φ) :
    Ensures I (ensureConnectedLocked cfg a) (fun _ => I) (fun _ => I) := by
  refine (connected_ensures _ _).bind fun b => Ensures.ite
    (fun _ => ensures_pure _ fun _ h => h.1) fun hb => ?_
  refine connectLocked_stable hI cfg a ((dial_hold_stable hI a.dial).strengthen_pre ?_)
  rintro w ⟨hw, hconn⟩
  have hnot : ¬ w.Connected := fun h => hb (hconn.mpr h)
  exact ⟨hw, by simpa [World.Connected] using hnot⟩

theorem sendRequestLocked_stable (hI : World.Stable I) (cfg : Config φ) (env : CallEnv φ)
    (frame : Request) (retrySafe : Bool) :
    Ensures I (sendRequestLocked cfg env frame retrySafe) (fun _ => I) (fun _ => I) := by
  refine Ensures.tryCatch (exchange_stable hI cfg.accepts cfg.decode env.first frame) fun err =>
    Ensures.ite (fun _ => ?_) fun _ => ensures_throw _ fun _ h => h
  refine (release_stable hI _).bind fun _ => Ensures.ite (fun _ => Ensures.ite (fun _ => ?_)
    fun _ => ensures_throw _ fun _ h => h.1) fun _ => ensures_throw _ fun _ h => h.1
  exact ((ensureConnectedLocked_stable hI cfg env.reconnect).strengthen_pre fun _ h => h.1).bind
    fun _ => exchange_stable hI cfg.accepts cfg.decode env.retry frame

/-- A call keeps a stable property, if `Connect` does. -/
theorem call_stable (hI : World.Stable I) (cfg : Config φ) (c : Call) (env : CallEnv φ)
    (hconnect : c = .connect → Ensures (fun w => I w ∧ P w) (dial env.connect.dial >>= hold)
      (fun _ => I) (fun _ => I)) :
    Ensures (fun w => I w ∧ P w) (call cfg env c) (fun _ => I) (fun _ => I) := by
  cases hreq : c.request? with
  | some frame =>
      exact (call_ensures_of_request cfg env hreq (A := fun _ _ => True) (fun _ h => h)
        (ensureConnectedLocked_stable hI cfg env.connect) fun _ =>
          (sendRequestLocked_stable hI cfg env frame c.retrySafe).weaken_post
            (fun _ _ h => ⟨trivial, h⟩) fun _ _ h => h).mono (fun _ h => h.1)
              (fun _ _ h => h.2) fun _ _ h => h
  | none =>
      cases c with
      | connect =>
          exact (connectLocked_stable hI cfg env.connect (hconnect rfl)).bind
            fun _ => ensures_pure Result.done fun _ h => h
      | close =>
          refine (connected_ensures _ _).bind fun b => Ensures.ite (fun _ => ?_)
            fun _ => ensures_pure _ fun _ h => h.1.1
          refine ((release_stable hI _).strengthen_pre fun _ h => h.1.1).bind fun _ =>
            Ensures.bind ((meet_ensures env.shutdown).weaken_post (fun _ _ h => h.1.1)
              fun _ _ h => h.1.1) fun _ => ensures_pure _ fun _ h => h
      | waitWatchEvent =>
          exact ((ensureConnectedLocked_stable hI cfg env.connect).strengthen_pre
            fun _ h => h.1).bind fun _ => (request_ensures (A := fun _ _ => True) _
              ((awaitFrame_stable hI cfg.accepts cfg.decode env.first.toArrival).weaken_post
                (fun _ _ h => ⟨trivial, h⟩) fun _ _ h => h)).weaken_post (fun _ _ h => h.2)
                  fun _ _ h => h
      | _ => cases hreq

end Stable

/-- A call that stores no connection in the place of another one. -/
def Spares (w : World φ) (a : Call × CallEnv φ) : Prop :=
  a.1 = .connect → w.held = none ∨ a.2.connect.dial.isOk = false

/-- In every run in which no connection is stored in the place of another one, the open connections
are the one that is held. -/
theorem owned_of_spares (cfg : Config φ) {w : World φ}
    (h : Reachable (callStep (call cfg)) Spares World.init w) : w.Owned := by
  have hinit : (World.init : World φ).Owned := by
    intro i
    simp [World.Open, World.init]
  refine h.invariant hinit fun s a t hs hspares hstep => ?_
  have hcall := call_stable (P := fun w => Spares w a) World.stable_owned cfg a.1 a.2 ?_
  · exact of_callStep (A := fun _ _ => True) (hcall.weaken_post (fun _ _ h => ⟨trivial, h⟩)
      fun _ _ h => h) ⟨hs, hspares⟩ hstep
  · rintro hconnect v ⟨hv, hspared⟩
    rcases hspared hconnect with hnone | hfailed
    · exact dial_hold_stable World.stable_owned a.2.connect.dial v ⟨hv, hnone⟩
    · cases hdial : a.2.connect.dial with
      | ok =>
          rw [hdial] at hfailed
          cases hfailed
      | failed f => exact hv

/-- `Connect` abandons the connection that is held if it opens another one, whatever comes of the
Auth exchange. -/
theorem connect_abandons (cfg : Config φ) (env : CallEnv φ) {w t : World φ} {i : ℕ}
    (hi : w.Open i) (hdial : env.connect.dial.isOk = true)
    (hstep : callStep (call cfg) w (.connect, env) = some t) : t.Abandoned i := by
  have hopen : Ensures (· = w) (dial env.connect.dial >>= hold) (fun _ t => t.Abandoned i)
      (fun _ t => t.Abandoned i) := by
    cases hd : env.connect.dial with
    | ok => exact (dial_hold_abandons hi).weaken_post (fun _ _ h => h) fun _ _ h => h.elim
    | failed f =>
        rw [hd] at hdial
        cases hdial
  have hconnect : Ensures (· = w) (call cfg env .connect)
      (fun _ t => True ∧ t.Abandoned i) (fun _ t => t.Abandoned i) :=
    (connectLocked_stable (World.stable_abandoned i) cfg env.connect hopen).bind
      fun _ => ensures_pure Result.done fun _ h => ⟨trivial, h⟩
  exact of_callStep hconnect rfl hstep

/-- A connection that was abandoned is never closed. -/
theorem abandoned_forever (cfg : Config φ) {w t : World φ} {i : ℕ} (hw : w.Abandoned i)
    (h : Reachable (callStep (call cfg)) (fun _ _ => True) w t) : t.Abandoned i := by
  refine h.invariant (I := fun u => u.Abandoned i) hw fun s a u hs _ hstep => ?_
  have hcall := call_stable (P := fun _ => True) (World.stable_abandoned i) cfg a.1 a.2 ?_
  · exact of_callStep (A := fun _ _ => True) (hcall.weaken_post (fun _ _ h => ⟨trivial, h⟩)
      fun _ _ h => h) ⟨hs, trivial⟩ hstep
  · rintro - v ⟨hv, -⟩
    cases a.2.connect.dial with
    | ok =>
        exact dial_hold_abandons hv.1 v rfl
    | failed f => exact hv

/-- A client without a token, and a network on which connections are opened. -/
def plainConfig : Config Unit where
  authToken := none
  autoReconnect := false
  maxFrameBytes := 1024
  decode := fun _ => .error (.malformed "")
  validate := fun _ => .ok ()
  normalizeAtomic := fun _ e => e

def dialing : CallEnv Unit where
  lock := none
  connect := ⟨.ok, none, none, ⟨⟨[], []⟩, .ok⟩, none⟩
  first := ⟨⟨[], []⟩, .ok⟩
  shutdown := none
  reconnect := ⟨.ok, none, none, ⟨⟨[], []⟩, .ok⟩, none⟩
  retry := ⟨⟨[], []⟩, .ok⟩

/-- A client that connects, is closed, and connects once more. -/
theorem owned_of_spares_reopened :
    ∃ w : World Unit, w.held = some 1 ∧ w.Owned :=
  ⟨_, rfl, owned_of_spares plainConfig (w := _) ⟨_, (((Run.nil World.init).snoc
    (a := (.connect, dialing)) (fun _ => Or.inl rfl) rfl).snoc (a := (.close, dialing)) nofun
      rfl).snoc (a := (.connect, dialing)) (fun _ => Or.inl rfl) rfl⟩⟩

/-- Two calls of `Connect` leave two open connections. -/
theorem connected_twice :
    ∃ w, exec (callStep (call plainConfig)) (fun _ _ => True) World.init
        [(.connect, dialing), (.connect, dialing)] = some w ∧ w.held = some 1 ∧ w.Open 0 ∧
      ¬ w.Owned := by
  refine ⟨_, rfl, rfl, ⟨by decide, rfl⟩, World.Abandoned.not_owned (i := 0) ⟨⟨by decide, rfl⟩, ?_⟩⟩
  intro h
  cases h

end Go

end LockStep

end DittoClient
