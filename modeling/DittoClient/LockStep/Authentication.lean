import DittoClient.LockStep.Pairing
import Mathlib.Data.List.Infix

/-!
# Authenticated connections

With a token configured, a client opens a connection, stores it, and sends Auth on it. The
connection that is held between two calls is authenticated when the server has sent AuthOk
on it; a connection is guarded when no frame but Auth was written on it before that. Every
call keeps both, provided an attempt to connect either gets an answer to Auth that can be
decoded or forgets the connection. The four clients differ in which failures of the Auth
exchange make them forget it.
-/

namespace DittoClient

namespace LockStep

open DittoClient.Octets
open DittoClient.Protobuf
open DittoClient.Wire
open DittoClient.Program
open DittoClient.Transition

variable {φ : Type}

/-- The server has sent AuthOk on the connection. -/
def Connection.Authed (decode : Decoder) (c : Connection) : Prop :=
  ∃ f ∈ c.sent, decode f.payload.bytes = .ok .authOk

/-- Every frame but Auth was written when the server had already sent AuthOk. -/
def Connection.Guarded (decode : Decoder) (c : Connection) : Prop :=
  ∀ x ∈ c.written, x.frame.isAuth = false →
    ∃ f ∈ c.sent.take x.seen, decode f.payload.bytes = .ok .authOk

namespace World

/-- No frame but Auth was ever written on a connection that was not authenticated. -/
def Guarded (decode : Decoder) (w : World φ) : Prop :=
  ∀ j, (w.conns j).Guarded decode

/-- The connection that is held is authenticated, and no frame but Auth was ever written
on a connection that was not. -/
structure Authenticated (decode : Decoder) (w : World φ) : Prop where
  held : ∀ i, w.held = some i → (w.conns i).Authed decode
  guarded : w.Guarded decode

theorem Guarded.authenticated_of_none {decode : Decoder} {w : World φ} (h : w.Guarded decode)
    (hw : w.held = none) : w.Authenticated decode where
  held i hi := by
    rw [hw] at hi
    cases hi
  guarded := h

theorem authenticated_init {decode : Decoder} : (init : World φ).Authenticated decode :=
  Guarded.authenticated_of_none (fun j x hx => by simp [init, Connection.fresh] at hx) rfl

/-- Traffic keeps the connections guarded if it writes Auth only, or on a connection that
is authenticated. -/
theorem Follows.guarded {decode : Decoder} {w t : World φ} {frame : Option Request}
    (h : w.Follows frame t) (hw : w.Guarded decode)
    (hframe : ∀ i req, w.held = some i → frame = some req → req.isAuth = false →
      (w.conns i).Authed decode) : t.Guarded decode := by
  intro j x hx hauth
  rcases h.written j x hx with hold | ⟨hheld, hreq, hseen⟩
  · obtain ⟨f, hf, hdecode⟩ := hw j x hold hauth
    exact ⟨f, (List.IsPrefix.take (h.sent j) _).subset hf, hdecode⟩
  · obtain ⟨f, hf, hdecode⟩ := hframe j x.frame hheld hreq.symm hauth
    refine ⟨f, ?_, hdecode⟩
    have hprefix := List.prefix_take_iff.mpr ⟨h.sent j, hseen⟩
    exact hprefix.subset hf

theorem Follows.authenticated {decode : Decoder} {w t : World φ} {frame : Option Request}
    (h : w.Follows frame t) (hw : w.Authenticated decode) : t.Authenticated decode where
  held i hi := by
    obtain ⟨f, hf, hdecode⟩ := hw.held i (h.held.symm.trans hi)
    exact ⟨f, (h.sent i).subset hf, hdecode⟩
  guarded := h.guarded hw.guarded fun i _ hi _ _ => hw.held i hi

end World

/-- The first exchange on a connection that was just opened: the first frame the server
sends is the one that is decoded. -/
theorem exchange_fresh (accepts : ℕ → Bool) (decode : Decoder) (x : Exchange φ)
    (req : Request) {w : World φ} {i : ℕ} (hw : w.held = some i)
    (hfresh : w.conns i = Connection.fresh) :
    Ensures (· = w) (exchange accepts decode x req)
      (fun r t => x.outcome accepts decode = some (.ok r) ∧
        ∃ f ∈ (t.conns i).sent, decode f.payload.bytes = .ok r)
      (fun e _ => (∃ d, e = .decode d ∧ x.outcome accepts decode = some (.error d)) ∨
        (e.isIo = true ∧ x.outcome accepts decode = none)) := by
  rintro w rfl
  cases hx : x.write with
  | refused f =>
      simp only [exchange, sendall, bind, EStateM.bind, hw, hx]
      exact Or.inr ⟨rfl, by simp [Exchange.outcome, hx]⟩
  | failed complete f =>
      simp only [exchange, sendall, bind, EStateM.bind, hw, hx]
      exact Or.inr ⟨rfl, by simp [Exchange.outcome, hx]⟩
  | ok =>
      have hstep : exchange accepts decode x req w = recvFrame accepts decode
          (x.toArrival.apply i (w.update i fun c => c.write req true)) := by
        simp only [exchange, sendall, bind, EStateM.bind, hw, hx]
      rw [hstep]
      generalize ht : x.toArrival.apply i (w.update i fun c => c.write req true) = t
      have hheld : t.held = some i := by
        rw [← ht]
        exact hw
      have hrecvs : t.recvs = x.recvs := by
        rw [← ht, Arrival.apply_recvs]
      have hconn : t.conns i =
          x.acts.foldl Connection.serve (Connection.fresh.write req true) := by
        rw [← ht, Arrival.apply_conns_self, World.update_conns_self, hfresh]
      cases hacts : x.acts with
      | nil =>
          have hnil : (t.conns i).inbound = [] := by
            rw [hconn, hacts]
            rfl
          refine ((recvFrame_ensures_of_nil hheld hnil accepts decode).weaken_post
            (fun _ _ h => h.elim) fun e u h => ?_) t rfl
          exact Or.inr ⟨h.1, by simp [Exchange.outcome, hx, hacts]⟩
      | cons f acts =>
          have hserve : (Connection.fresh.write req true).serve f =
              { Connection.fresh.write req true with sent := [f] } := by
            cases f with
            | reply p => rfl
            | push p => rfl
          rw [hacts, List.foldl_cons, hserve] at hconn
          obtain ⟨⟨rest, hsent⟩, -, hread⟩ := Connection.foldl_serve_traffic acts
            { Connection.fresh.write req true with sent := [f] }
          rw [← hconn] at hsent hread
          have hin : (t.conns i).inbound =
              frame f.payload ++ frames (rest.map ServerFrame.payload) := by
            rw [Connection.inbound, hread, Connection.stream, ← hsent]
            rfl
          have houtcome : x.outcome accepts decode =
              if delivers accepts t.recvs f.payload.bytes.length
              then some (decode f.payload.bytes) else none := by
            rw [hrecvs, Exchange.outcome, hx, hacts]
          rw [houtcome]
          refine ((recvFrame_ensures hheld hin accepts decode).weaken_post ?_ ?_) t rfl
          · rintro r u ⟨hdecode, hdel, rs, hu⟩
            refine ⟨by rw [if_pos hdel, hdecode], f, ?_, hdecode⟩
            rw [hu, World.advance_conns_self, ← hsent]
            exact List.mem_cons_self
          · rintro e u (⟨d, he, hdecode, hdel, -⟩ | ⟨hio, hdel, -⟩)
            · exact Or.inl ⟨d, he, by rw [if_pos hdel, hdecode]⟩
            · exact Or.inr ⟨hio, by simp [hdel]⟩

section Keeps

variable {decode : Decoder}

theorem exchange_authenticated (accepts : ℕ → Bool) (x : Exchange φ) (req : Request) :
    Ensures (World.Authenticated decode) (exchange accepts decode x req)
      (fun _ t => t.Authenticated decode) (fun _ t => t.Authenticated decode) :=
  fun w hw => ((exchange_follows accepts decode x req w).weaken_post
    (fun _ _ h => h.authenticated hw) fun _ _ h => h.authenticated hw) w rfl

theorem awaitFrame_authenticated (accepts : ℕ → Bool) (a : Arrival φ) :
    Ensures (World.Authenticated decode) (awaitFrame accepts decode a)
      (fun _ t => t.Authenticated decode) (fun _ t => t.Authenticated decode) :=
  fun w hw => ((awaitFrame_follows accepts decode a w).weaken_post
    (fun _ _ h => h.authenticated hw) fun _ _ h => h.authenticated hw) w rfl

/-- Closing a connection leaves its history alone. -/
theorem release_authenticated (E : Failure φ → World φ → Prop) :
    Ensures (World.Guarded decode) release
      (fun _ t => t.held = none ∧ t.Authenticated decode) E := by
  intro w hw
  cases h : w.held with
  | none =>
      simp only [release, h]
      exact ⟨trivial, hw.authenticated_of_none h⟩
  | some i =>
      simp only [release, h]
      refine ⟨trivial, World.Guarded.authenticated_of_none (fun j => ?_) rfl⟩
      by_cases hj : j = i
      · subst hj
        simp only [World.update_conns_self]
        exact hw j
      · change Connection.Guarded decode
          ((w.update i fun c => { c with closed := true }).conns j)
        rw [World.update_conns_of_ne w _ hj]
        exact hw j

/-- A connection has just been opened and stored. -/
def World.Opened (decode : Decoder) (w : World φ) : Prop :=
  w.Guarded decode ∧ ∃ i, w.held = some i ∧ w.conns i = Connection.fresh

theorem dial_hold_opened (d : Dial φ) :
    Ensures (World.Authenticated decode) (dial d >>= hold)
      (fun _ t => d.isOk = true ∧ t.Opened decode) (fun _ t => t.Authenticated decode) := by
  intro w hw
  cases d with
  | failed f => exact hw
  | ok =>
      refine ⟨rfl, fun j => ?_, w.next, rfl, ?_⟩
      · change Connection.Guarded decode ((w.update w.next fun _ => Connection.fresh).conns j)
        by_cases hj : j = w.next
        · subst hj
          rw [World.update_conns_self]
          exact fun x hx => by simp [Connection.fresh] at hx
        · rw [World.update_conns_of_ne w _ hj]
          exact hw.guarded j
      · change (w.update w.next fun _ => Connection.fresh).conns w.next = _
        rw [World.update_conns_self]

/-- The Auth exchange on a connection that was just opened. -/
theorem auth_exchange (accepts : ℕ → Bool) (x : Exchange φ) (token : String) :
    Ensures (World.Opened decode) (exchange accepts decode x (.auth token))
      (fun r t => t.Guarded decode ∧ x.outcome accepts decode = some (.ok r) ∧
        (r = .authOk → t.Authenticated decode))
      (fun e t => t.Guarded decode ∧
        ((∃ d, e = .decode d ∧ x.outcome accepts decode = some (.error d)) ∨
          (e.isIo = true ∧ x.outcome accepts decode = none))) := by
  rintro w ⟨hguarded, i, hi, hfresh⟩
  have hauth : ∀ j req, w.held = some j → some (Request.auth token) = some req →
      req.isAuth = false → (w.conns j).Authed decode := by
    rintro j req - ⟨⟩ ⟨⟩
  refine (((exchange_follows accepts decode x (.auth token) w).and
    (exchange_fresh accepts decode x (.auth token) hi hfresh)).mono (fun _ h => ⟨h, h⟩)
      ?_ fun e t h => ⟨h.1.guarded hguarded hauth, h.2⟩) w rfl
  rintro r t ⟨hfollows, hout, f, hf, hdecode⟩
  refine ⟨hfollows.guarded hguarded hauth, hout, fun hr => ⟨fun j hj => ?_,
    hfollows.guarded hguarded hauth⟩⟩
  rw [hfollows.held, hi] at hj
  cases hj
  exact ⟨f, hf, by rw [hdecode, hr]⟩

end Keeps

/-- In every state between two calls that keep to `C`, the connection that is held is
authenticated, and no frame but Auth was ever written on one that was not. -/
def Authenticating (C : World φ → Call × CallEnv φ → Prop)
    (call : CallEnv φ → Call → Client φ Result) (decode : Decoder) : Prop :=
  ∀ w, Reachable (callStep call) C World.init w → w.Authenticated decode

theorem authenticating_of_ensures {C : World φ → Call × CallEnv φ → Prop}
    {call : CallEnv φ → Call → Client φ Result} {decode : Decoder}
    (hcall : ∀ c env, Ensures (fun w => w.Authenticated decode ∧ C w (c, env)) (call env c)
      (fun _ t => t.Authenticated decode) (fun _ t => t.Authenticated decode)) :
    Authenticating C call decode := by
  intro w hw
  refine hw.invariant World.authenticated_init fun s a u hs hcond hstep => ?_
  exact of_callStep (A := fun _ _ => True) ((hcall a.1 a.2).weaken_post
    (fun _ _ h => ⟨trivial, h⟩) fun _ _ h => h) ⟨hs, hcond⟩ hstep

namespace Python

/-- An attempt to connect that is not given up between storing the connection and
authenticating it. -/
def Authenticates (cfg : Config φ) (a : Attempt φ) : Prop :=
  a.dial.isOk = true → ∃ r, a.auth.outcome cfg.accepts cfg.decode = some (.ok r) ∧
    (r ≠ .authOk → a.shutdown = none)

theorem closeLocked_authenticated (decode : Decoder) (shutdown : Option φ) :
    Ensures (fun w => w.Guarded decode ∧ (shutdown = none ∨ w.Authenticated decode))
      (closeLocked shutdown) (fun _ t => t.Authenticated decode)
      (fun _ t => t.Authenticated decode) := by
  refine (connected_ensures _ _).bind fun b => Ensures.ite (fun _ => ?_) fun hb => ?_
  · refine ((meet_ensures shutdown).weaken_post (fun _ _ h => h.1.1.1) ?_).bind fun _ =>
      (release_authenticated _).weaken_post (fun _ _ h => h.2) fun _ _ h => h
    rintro e t ⟨⟨⟨-, hnone | h⟩, -⟩, hsome⟩
    · rw [hnone] at hsome
      cases hsome
    · exact h
  · refine ensures_pure _ ?_
    rintro w ⟨⟨hw, -⟩, hconn⟩
    have hnot : ¬ w.Connected := fun h => hb (hconn.mpr h)
    exact hw.authenticated_of_none (by simpa [World.Connected] using hnot)

theorem connectLocked_authenticated {cfg : Config φ} {token : String}
    (htoken : cfg.authToken = some token) (a : Attempt φ) :
    Ensures (fun w => w.Authenticated cfg.decode ∧ (w.held = none → Authenticates cfg a))
      (connectLocked cfg a) (fun _ t => t.Authenticated cfg.decode)
      (fun _ t => t.Authenticated cfg.decode) := by
  refine (connected_ensures _ _).bind fun b => Ensures.ite (fun _ => ?_) fun hb => ?_
  · exact ensures_pure _ fun w hw => hw.1.1
  · refine (Ensures.of_fact (P := World.Authenticated cfg.decode)
      fun ha : Authenticates cfg a => ?_).strengthen_pre ?_
    · refine (dial_hold_opened a.dial).bind fun _ => Ensures.of_fact fun hdial => ?_
      obtain ⟨r, hout, hshut⟩ := ha hdial
      rw [htoken]
      refine Ensures.bind ((auth_exchange cfg.accepts a.auth token).weaken_post
        (fun _ _ h => h) ?_) fun resp => Ensures.ite (fun hok => ?_) fun hne => ?_
      · rintro e t ⟨-, ⟨d, -, hd⟩ | ⟨-, hnone⟩⟩
        · rw [hout] at hd
          cases hd
        · rw [hout] at hnone
          cases hnone
      · exact ensures_pure _ fun t ht => ht.2.2 hok
      · refine ((closeLocked_authenticated cfg.decode a.shutdown).strengthen_pre ?_).bind
          fun _ => ensures_throw _ fun _ h => h
        rintro t ⟨hguarded, hresp, -⟩
        rw [hout] at hresp
        cases hresp
        exact ⟨hguarded, Or.inl (hshut hne)⟩
    · rintro w ⟨⟨hw, ha⟩, hconn⟩
      have hnot : ¬ w.Connected := fun h => hb (hconn.mpr h)
      exact ⟨ha (by simpa [World.Connected] using hnot), hw⟩

theorem send_authenticated {cfg : Config φ} {token : String}
    (htoken : cfg.authToken = some token) (env : CallEnv φ) (frame : Request)
    (retrySafe : Bool)
    (hretry : retrySafe = true → cfg.autoReconnect = true → Authenticates cfg env.reconnect) :
    Ensures (World.Authenticated cfg.decode) (send cfg env frame retrySafe)
      (fun _ t => t.Authenticated cfg.decode) (fun _ t => t.Authenticated cfg.decode) := by
  refine (connected_ensures _ _).bind fun b => Ensures.ite (fun _ => ?_)
    fun _ => ensures_throw _ fun _ h => h.1
  refine Ensures.tryCatch ((exchange_authenticated cfg.accepts env.first frame).strengthen_pre
    fun _ h => h.1) fun first => Ensures.ite (fun _ => ?_) fun _ => ensures_throw _ fun _ h => h
  refine ((closeLocked_authenticated cfg.decode env.shutdown).strengthen_pre
    fun _ h => ⟨h.guarded, Or.inr h⟩).bind fun _ => Ensures.ite (fun hsafe =>
      Ensures.ite (fun hauto => ?_) fun _ => ensures_throw _ fun _ h => h)
        fun _ => ensures_throw _ fun _ h => h
  exact ((connectLocked_authenticated htoken env.reconnect).strengthen_pre
    fun _ h => ⟨h, fun _ => hretry hsafe hauto⟩).bind fun _ =>
      exchange_authenticated cfg.accepts env.retry frame

/-- The attempts to connect of a call are not given up halfway. -/
structure CallAuthenticates (cfg : Config φ) (w : World φ) (a : Call × CallEnv φ) : Prop where
  connecting : a.1 = .connect → w.held = none → Authenticates cfg a.2.connect
  reconnecting : a.1.retrySafe = true → cfg.autoReconnect = true →
    Authenticates cfg a.2.reconnect

theorem call_authenticated {cfg : Config φ} {token : String}
    (htoken : cfg.authToken = some token) (c : Call) (env : CallEnv φ) :
    Ensures (fun w => w.Authenticated cfg.decode ∧ CallAuthenticates cfg w (c, env))
      (call cfg env c) (fun _ t => t.Authenticated cfg.decode)
      (fun _ t => t.Authenticated cfg.decode) := by
  rintro w ⟨hw, hc⟩
  cases hreq : c.request? with
  | some frame =>
      exact ((call_ensures_of_request cfg env hreq (A := fun _ _ => True) (fun _ h => h)
        fun _ => (send_authenticated htoken env frame c.retrySafe hc.reconnecting).weaken_post
          (fun _ _ h => ⟨trivial, h⟩) fun _ _ h => h).weaken_post (fun _ _ h => h.2)
            fun _ _ h => h) w hw
  | none =>
      cases c with
      | connect =>
          exact ((connectLocked_authenticated htoken env.connect).bind
            fun _ => ensures_pure Result.done fun _ h => h) w ⟨hw, hc.connecting rfl⟩
      | close =>
          exact ((closeLocked_authenticated cfg.decode env.shutdown).bind
            fun _ => ensures_pure Result.done fun _ h => h) w ⟨hw.guarded, Or.inr hw⟩
      | waitWatchEvent =>
          refine ((connected_ensures _ _).bind fun b => Ensures.ite (fun _ => ?_)
            fun _ => ensures_throw _ fun _ h => h.1) w hw
          exact ((request_ensures (A := fun _ _ => True) _ ((awaitFrame_authenticated
            cfg.accepts env.first.toArrival).mono (fun _ h => h.1) (fun _ _ h => ⟨trivial, h⟩)
              fun _ _ h => h)).weaken_post (fun _ _ h => h.2) fun _ _ h => h)
      | _ => cases hreq

end Python

namespace Go

/-- An attempt to connect in which the decoder does not panic on the answer to Auth. -/
def Authenticates (cfg : Config φ) (a : Attempt φ) : Prop :=
  a.dial.isOk = true →
    ∀ message, a.auth.outcome cfg.accepts cfg.decode ≠ some (.error (.runtime message))

theorem connectLocked_authenticated {cfg : Config φ} {token : String}
    (htoken : authToken cfg = some token) {a : Attempt φ} (ha : Authenticates cfg a) :
    Ensures (World.Authenticated cfg.decode) (connectLocked cfg a)
      (fun _ t => t.Authenticated cfg.decode) (fun _ t => t.Authenticated cfg.decode) := by
  refine (dial_hold_opened a.dial).bind fun _ => Ensures.of_fact fun hdial => ?_
  rw [htoken]
  have hrelease : ∀ e : Failure φ, Ensures (World.Guarded cfg.decode)
      (do
        release
        throw e : Client φ ClientResponse)
      (fun _ _ => False) (fun _ t => t.Authenticated cfg.decode) := fun e =>
    (release_authenticated _).bind fun _ => ensures_throw _ fun _ h => h.2
  refine Ensures.bind (Ensures.tryCatch (auth_exchange cfg.accepts a.auth token) fun err =>
    Ensures.ite (fun _ => ?_) fun herr => ensures_throw _ ?_) fun resp =>
      Ensures.ite (fun hok => ?_) fun _ => ?_
  · exact (hrelease err).mono (fun _ h => h.1) (fun _ _ h => h.elim) fun _ _ h => h
  · rintro t ⟨-, ⟨d, rfl, hd⟩ | ⟨hio, -⟩⟩
    · cases d with
      | malformed message => exact absurd rfl herr
      | runtime message => exact absurd hd (ha hdial message)
    · exact absurd (isErr_of_isIo hio) herr
  · exact ensures_pure _ fun t ht => ht.2.2 hok
  · exact ((release_authenticated _).strengthen_pre fun _ h => h.1).bind
      fun _ => ensures_throw _ fun _ h => h.2

theorem ensureConnectedLocked_authenticated {cfg : Config φ} {token : String}
    (htoken : authToken cfg = some token) (a : Attempt φ) :
    Ensures (fun w => w.Authenticated cfg.decode ∧ (w.held = none → Authenticates cfg a))
      (ensureConnectedLocked cfg a) (fun _ t => t.Authenticated cfg.decode)
      (fun _ t => t.Authenticated cfg.decode) := by
  refine (connected_ensures _ _).bind fun b => Ensures.ite (fun _ => ?_) fun hb => ?_
  · exact ensures_pure _ fun w hw => hw.1.1
  · rintro w ⟨⟨hw, ha⟩, hconn⟩
    have hnot : ¬ w.Connected := fun h => hb (hconn.mpr h)
    exact connectLocked_authenticated htoken (ha (by simpa [World.Connected] using hnot)) w hw

theorem sendRequestLocked_authenticated {cfg : Config φ} {token : String}
    (htoken : authToken cfg = some token) (env : CallEnv φ) (frame : Request)
    (retrySafe : Bool)
    (hretry : retrySafe = true → cfg.autoReconnect = true → Authenticates cfg env.reconnect) :
    Ensures (World.Authenticated cfg.decode) (sendRequestLocked cfg env frame retrySafe)
      (fun _ t => t.Authenticated cfg.decode) (fun _ t => t.Authenticated cfg.decode) := by
  refine Ensures.tryCatch (exchange_authenticated cfg.accepts env.first frame) fun err =>
    Ensures.ite (fun _ => ?_) fun _ => ensures_throw _ fun _ h => h
  refine ((release_authenticated _).strengthen_pre fun _ h => h.guarded).bind fun _ =>
    Ensures.ite (fun hsafe => Ensures.ite (fun hauto => ?_) fun _ => ensures_throw _
      fun _ h => h.2) fun _ => ensures_throw _ fun _ h => h.2
  exact ((ensureConnectedLocked_authenticated htoken env.reconnect).strengthen_pre
    fun _ h => ⟨h.2, fun _ => hretry hsafe hauto⟩).bind fun _ =>
      exchange_authenticated cfg.accepts env.retry frame

/-- The attempts to connect of a call do not panic. `connect` opens a connection even if
one is held. -/
structure CallAuthenticates (cfg : Config φ) (w : World φ) (a : Call × CallEnv φ) : Prop where
  connecting : a.1 = .connect ∨ (a.1 ≠ .close ∧ w.held = none) → Authenticates cfg a.2.connect
  reconnecting : a.1.retrySafe = true → cfg.autoReconnect = true →
    Authenticates cfg a.2.reconnect

theorem call_authenticated {cfg : Config φ} {token : String}
    (htoken : authToken cfg = some token) (c : Call) (env : CallEnv φ) :
    Ensures (fun w => w.Authenticated cfg.decode ∧ CallAuthenticates cfg w (c, env))
      (call cfg env c) (fun _ t => t.Authenticated cfg.decode)
      (fun _ t => t.Authenticated cfg.decode) := by
  rintro w ⟨hw, hc⟩
  cases hreq : c.request? with
  | some frame =>
      have hclose : c ≠ .close := by
        rintro rfl
        cases hreq
      refine ((call_ensures_of_request cfg env hreq (A := fun _ _ => True) (fun _ h => h)
        (ensureConnectedLocked_authenticated htoken env.connect) fun _ =>
          (sendRequestLocked_authenticated htoken env frame c.retrySafe
            hc.reconnecting).weaken_post (fun _ _ h => ⟨trivial, h⟩)
              fun _ _ h => h).weaken_post (fun _ _ h => h.2) fun _ _ h => h) w ?_
      exact ⟨hw, fun hnone => hc.connecting (Or.inr ⟨hclose, hnone⟩)⟩
  | none =>
      cases c with
      | connect =>
          exact ((connectLocked_authenticated htoken (hc.connecting (Or.inl rfl))).bind
            fun _ => ensures_pure Result.done fun _ h => h) w hw
      | close =>
          refine ((connected_ensures _ _).bind fun b => Ensures.ite (fun _ => ?_)
            fun _ => ensures_pure _ fun _ h => h.1) w hw
          refine ((release_authenticated _).strengthen_pre fun _ h => h.1.guarded).bind
            fun _ => Ensures.bind ((meet_ensures env.shutdown).weaken_post
              (fun _ _ h => h.1) fun _ _ h => h.1.2) fun _ => ensures_pure _ fun _ h => h.2
      | waitWatchEvent =>
          refine ((ensureConnectedLocked_authenticated htoken env.connect).bind fun _ =>
            (request_ensures (A := fun _ _ => True) _ ((awaitFrame_authenticated
              cfg.accepts env.first.toArrival).weaken_post (fun _ _ h => ⟨trivial, h⟩)
                fun _ _ h => h)).weaken_post (fun _ _ h => h.2) fun _ _ h => h) w ?_
          exact ⟨hw, fun hnone => hc.connecting (Or.inr ⟨by simp, hnone⟩)⟩
      | _ => cases hreq

end Go

namespace Rust

/-- An attempt to connect in which the answer to Auth arrives and can be decoded. -/
def Authenticates (cfg : Config (Fault φ)) (a : Attempt (Fault φ)) : Prop :=
  a.dial.isOk = true → ∃ r, a.auth.outcome cfg.accepts cfg.decode = some (.ok r)

theorem ensureConnectedLocked_authenticated {cfg : Config (Fault φ)} {token : String}
    (htoken : cfg.authToken = some token) (a : Attempt (Fault φ)) :
    Ensures (fun w => w.Authenticated cfg.decode ∧ (w.held = none → Authenticates cfg a))
      (ensureConnectedLocked cfg a) (fun _ t => t.Authenticated cfg.decode)
      (fun _ t => t.Authenticated cfg.decode) := by
  refine (connected_ensures _ _).bind fun b => Ensures.ite (fun _ => ?_) fun hb => ?_
  · exact ensures_pure _ fun w hw => hw.1.1
  · refine (Ensures.of_fact (P := World.Authenticated cfg.decode)
      fun ha : Authenticates cfg a => ?_).strengthen_pre ?_
    · refine (dial_hold_opened a.dial).bind fun _ => Ensures.of_fact fun hdial => ?_
      obtain ⟨r, hout⟩ := ha hdial
      rw [authenticateLocked, htoken]
      refine Ensures.bind ((auth_exchange cfg.accepts a.auth token).weaken_post
        (fun _ _ h => h) ?_) fun resp => Ensures.ite (fun hok => ?_) fun hne => ?_
      · rintro e t ⟨-, ⟨d, -, hd⟩ | ⟨-, hnone⟩⟩
        · rw [hout] at hd
          cases hd
        · rw [hout] at hnone
          cases hnone
      · exact ensures_pure _ fun t ht => ht.2.2 hok
      · exact ((release_authenticated _).strengthen_pre fun _ h => h.1).bind
          fun _ => ensures_throw _ fun _ h => h.2
    · rintro w ⟨⟨hw, ha⟩, hconn⟩
      have hnot : ¬ w.Connected := fun h => hb (hconn.mpr h)
      exact ⟨ha (by simpa [World.Connected] using hnot), hw⟩

/-- The attempts to connect of a call get an answer to Auth that can be decoded. -/
structure CallAuthenticates (cfg : Config (Fault φ)) (w : World (Fault φ))
    (a : Call × CallEnv (Fault φ)) : Prop where
  connecting : a.1 ≠ .close → w.held = none → Authenticates cfg a.2.connect
  reconnecting : a.1.retrySafe = true → cfg.autoReconnect = true →
    Authenticates cfg a.2.reconnect

theorem sendRequest_authenticated {cfg : Config (Fault φ)} {token : String}
    (htoken : cfg.authToken = some token) (env : CallEnv (Fault φ)) (frame : Request)
    (retrySafe : Bool)
    (hretry : retrySafe = true → cfg.autoReconnect = true → Authenticates cfg env.reconnect) :
    Ensures (fun w => w.Authenticated cfg.decode ∧
        (w.held = none → Authenticates cfg env.connect))
      (sendRequest cfg env frame retrySafe)
      (fun _ t => t.Authenticated cfg.decode) (fun _ t => t.Authenticated cfg.decode) := by
  refine Ensures.bind ((meet_ensures env.lock).weaken_post (fun _ _ h => h.1)
    fun _ _ h => h.1.1) fun _ => (ensureConnectedLocked_authenticated htoken
      env.connect).bind fun _ => ?_
  refine Ensures.tryCatch (exchange_authenticated cfg.accepts env.first frame) fun err =>
    Ensures.ite (fun _ => ?_) fun _ => ensures_throw _ fun _ h => h
  refine ((release_authenticated _).strengthen_pre fun _ h => h.guarded).bind fun _ =>
    Ensures.ite (fun hsafe => Ensures.ite (fun hauto => ?_) fun _ => ensures_throw _
      fun _ h => h.2) fun _ => ensures_throw _ fun _ h => h.2
  exact ((ensureConnectedLocked_authenticated htoken env.reconnect).strengthen_pre
    fun _ h => ⟨h.2, fun _ => hretry hsafe hauto⟩).bind fun _ =>
      exchange_authenticated cfg.accepts env.retry frame

theorem call_authenticated {cfg : Config (Fault φ)} {token : String}
    (htoken : cfg.authToken = some token) (c : Call) (env : CallEnv (Fault φ)) :
    Ensures (fun w => w.Authenticated cfg.decode ∧ CallAuthenticates cfg w (c, env))
      (call cfg env c) (fun _ t => t.Authenticated cfg.decode)
      (fun _ t => t.Authenticated cfg.decode) := by
  rintro w ⟨hw, hc⟩
  have hlock : ∀ P : World (Fault φ) → Prop, (∀ t, P t → t.Authenticated cfg.decode) →
      Ensures P (meet env.lock) (fun _ => P) (fun _ t => t.Authenticated cfg.decode) :=
    fun P hP => (meet_ensures env.lock).weaken_post (fun _ _ h => h.1)
      fun _ t h => hP t h.1
  cases hreq : c.request? with
  | some frame =>
      have hclose : c ≠ .close := by
        rintro rfl
        cases hreq
      exact ((call_ensures_of_request cfg env hreq (A := fun _ _ => True) (fun _ h => h.1)
        fun _ => (sendRequest_authenticated htoken env frame c.retrySafe
          hc.reconnecting).weaken_post (fun _ _ h => ⟨trivial, h⟩)
            fun _ _ h => h).weaken_post (fun _ _ h => h.2) fun _ _ h => h) w
              ⟨hw, hc.connecting hclose⟩
  | none =>
      cases c with
      | connect =>
          exact ((hlock _ fun _ h => h.1).bind fun _ =>
            (ensureConnectedLocked_authenticated htoken env.connect).bind
              fun _ => ensures_pure Result.done fun _ h => h) w
                ⟨hw, hc.connecting (by simp)⟩
      | close =>
          refine ((hlock _ fun _ h => h).bind fun _ => (connected_ensures _ _).bind fun b =>
            Ensures.ite (fun _ => ?_) fun _ => ensures_pure Result.done fun _ h => h.1) w hw
          refine ((release_authenticated _).strengthen_pre fun _ h => h.1.guarded).bind
            fun _ => Ensures.bind ((meet_ensures env.shutdown).weaken_post
              (fun _ _ h => h.1) fun _ _ h => h.1.2) fun _ => ensures_pure _ fun _ h => h.2
      | waitWatchEvent =>
          exact ((hlock _ fun _ h => h.1).bind fun _ =>
            (ensureConnectedLocked_authenticated htoken env.connect).bind fun _ =>
              (request_ensures (A := fun _ _ => True) _ ((awaitFrame_authenticated
                cfg.accepts env.first.toArrival).weaken_post (fun _ _ h => ⟨trivial, h⟩)
                  fun _ _ h => h)).weaken_post (fun _ _ h => h.2) fun _ _ h => h) w
                    ⟨hw, hc.connecting (by simp)⟩
      | _ => cases hreq

end Rust

namespace Java

/-- An attempt to connect in which the streams are obtained and the answer to Auth arrives
and can be decoded. -/
def Authenticates (cfg : Config φ) (a : Attempt φ) : Prop :=
  a.dial.isOk = true → a.input = none ∧ a.output = none ∧
    ∃ r, a.auth.outcome (accepts cfg) cfg.decode = some (.ok r)

variable {decode : Decoder}

theorem closeSocketOnly_authenticated (E : Failure φ → World φ → Prop) :
    Ensures (World.Guarded decode) closeSocketOnly (fun _ t => t.Authenticated decode) E :=
  (release_authenticated _).bind fun _ _ ht => ⟨ht.2.held, ht.2.guarded⟩

theorem hasOutput_ensures (P : World φ → Prop) (E : Failure φ → World φ → Prop) :
    Ensures P hasOutput (fun _ => P) E :=
  fun _ hw => hw

theorem hasInput_ensures (P : World φ → Prop) (E : Failure φ → World φ → Prop) :
    Ensures P hasInput (fun _ => P) E :=
  fun _ hw => hw

theorem sendFrame_readResponse_authenticated (cfg : Config φ) (x : Exchange φ)
    (data : Request) :
    Ensures (World.Authenticated cfg.decode)
      (do
        sendFrame x data
        readResponse cfg)
      (fun _ t => t.Authenticated cfg.decode) (fun _ t => t.Authenticated cfg.decode) := by
  refine Ensures.bind (R := fun _ t => t.Authenticated cfg.decode) ?_ fun _ => ?_
  · refine (hasOutput_ensures _ _).bind fun _ => Ensures.ite (fun _ w hw => ?_) fun _ => ensures_throw _
      fun _ h => h
    exact ((sendall_follows x data w).weaken_post (fun _ _ h => h.authenticated hw)
      fun _ _ h => h.authenticated hw) w rfl
  · refine (hasInput_ensures _ _).bind fun _ => Ensures.ite (fun _ w hw => ?_) fun _ => ensures_throw _
      fun _ h => h
    exact ((recvFrame_follows (accepts cfg) cfg.decode w).weaken_post
      (fun _ _ h => h.authenticated hw) fun _ _ h => h.authenticated hw) w rfl

theorem connectSocket_authenticated {cfg : Config φ} {token : String}
    (htoken : cfg.authToken = some token) (a : Attempt φ) :
    Ensures (fun w => w.Authenticated cfg.decode ∧ (w.held = none → Authenticates cfg a))
      (connectSocket cfg a) (fun _ t => t.Authenticated cfg.decode)
      (fun _ t => t.Authenticated cfg.decode) := by
  refine (connected_ensures _ _).bind fun b => Ensures.ite (fun _ => ?_) fun hb => ?_
  · exact ensures_pure _ fun w hw => hw.1.1
  · refine (Ensures.of_fact (P := World.Authenticated cfg.decode)
      fun ha : Authenticates cfg a => ?_).strengthen_pre ?_
    · refine (dial_hold_opened a.dial).bind fun _ => Ensures.of_fact fun hdial => ?_
      obtain ⟨hin, hout, r, hr⟩ := ha hdial
      rw [hin, hout, htoken]
      -- the streams are obtained one after the other
      have hnone : ∀ P : World φ → Prop, Ensures P (meet none) (fun _ => P)
          (fun _ t => t.Authenticated cfg.decode) := fun P => fun _ h => h
      have hset : Ensures (World.Opened cfg.decode) (setInput : Client φ Unit)
          (fun _ t => t.Opened cfg.decode ∧ t.input = true)
          (fun _ t => t.Authenticated cfg.decode) := fun _ h => ⟨h, rfl⟩
      have hboth : Ensures (fun w : World φ => w.Opened cfg.decode ∧ w.input = true) setOutput
          (fun _ t => Both t ∧ t.Opened cfg.decode)
          (fun _ t => t.Authenticated cfg.decode) := fun _ h => ⟨⟨h.2, rfl⟩, h.1⟩
      refine (hnone _).bind fun _ => hset.bind fun _ => (hnone _).bind fun _ =>
        hboth.bind fun _ => ?_
      dsimp only
      rw [← bind_assoc]
      refine Ensures.bind ((sendFrame_readResponse_ensures cfg a.auth (.auth token)
        (auth_exchange (accepts cfg) a.auth token)).weaken_post (fun _ _ h => h) ?_)
          fun resp => Ensures.ite (fun hok => ?_) fun _ => ?_
      · rintro e t ⟨-, -, ⟨d, -, hd⟩ | ⟨-, hnone⟩⟩
        · rw [hr] at hd
          cases hd
        · rw [hr] at hnone
          cases hnone
      · exact ensures_pure _ fun t ht => ht.2.2.2 hok
      · exact ((closeSocketOnly_authenticated _).strengthen_pre fun _ h => h.2.1).bind
          fun _ => ensures_throw _ fun _ h => h
    · rintro w ⟨⟨hw, ha⟩, hconn⟩
      have hnot : ¬ w.Connected := fun h => hb (hconn.mpr h)
      exact ⟨ha (by simpa [World.Connected] using hnot), hw⟩

/-- The attempts to connect of a call are not given up between storing the connection and
authenticating it. -/
structure CallAuthenticates (cfg : Config φ) (w : World φ) (a : Call × CallEnv φ) : Prop where
  connecting : a.1 = .connect → w.held = none → Authenticates cfg a.2.connect
  reconnecting : a.1.retrySafe = true → cfg.autoReconnect = true →
    Authenticates cfg a.2.reconnect

theorem sendAndRead_authenticated {cfg : Config φ} {token : String}
    (htoken : cfg.authToken = some token) (env : CallEnv φ) (data : Request)
    (retrySafe : Bool)
    (hretry : retrySafe = true → cfg.autoReconnect = true → Authenticates cfg env.reconnect) :
    Ensures (World.Authenticated cfg.decode) (sendAndRead cfg env data retrySafe)
      (fun _ t => t.Authenticated cfg.decode) (fun _ t => t.Authenticated cfg.decode) := by
  refine Ensures.tryCatch (sendFrame_readResponse_authenticated cfg env.first data)
    fun first => Ensures.ite (fun _ => ?_) fun _ => ensures_throw _ fun _ h => h
  refine ((closeSocketOnly_authenticated _).strengthen_pre fun _ h => h.guarded).bind
    fun _ => Ensures.ite (fun hsafe => Ensures.ite (fun hauto => ?_) fun _ =>
      ensures_throw _ fun _ h => h) fun _ => ensures_throw _ fun _ h => h
  exact ((connectSocket_authenticated htoken env.reconnect).strengthen_pre
    fun _ h => ⟨h, fun _ => hretry hsafe hauto⟩).bind fun _ =>
      sendFrame_readResponse_authenticated cfg env.retry data

theorem call_authenticated {cfg : Config φ} {token : String}
    (htoken : cfg.authToken = some token) (c : Call) (env : CallEnv φ) :
    Ensures (fun w => w.Authenticated cfg.decode ∧ CallAuthenticates cfg w (c, env))
      (call cfg env c) (fun _ t => t.Authenticated cfg.decode)
      (fun _ t => t.Authenticated cfg.decode) := by
  rintro w ⟨hw, hc⟩
  cases hreq : c.request? with
  | some frame =>
      exact ((call_ensures_of_request cfg env hreq (A := fun _ _ => True) (fun _ h => h)
        fun _ => (sendAndRead_authenticated htoken env frame c.retrySafe
          hc.reconnecting).weaken_post (fun _ _ h => ⟨trivial, h⟩)
            fun _ _ h => h).weaken_post (fun _ _ h => h.2) fun _ _ h => h) w hw
  | none =>
      cases c with
      | connect =>
          exact ((connectSocket_authenticated htoken env.connect).bind
            fun _ => ensures_pure Result.done fun _ h => h) w ⟨hw, hc.connecting rfl⟩
      | close =>
          exact ((closeSocketOnly_authenticated _).bind
            fun _ => ensures_pure Result.done fun _ h => h) w hw.guarded
      | waitWatchEvent =>
          refine ((hasInput_ensures _ _).bind fun b => Ensures.ite (fun _ => ?_)
            fun _ => ensures_throw _ fun _ h => h) w hw
          exact ((request_ensures (A := fun _ _ => True) _ ((awaitFrame_authenticated
            (accepts cfg) env.first.toArrival).weaken_post (fun _ _ h => ⟨trivial, h⟩)
              fun _ _ h => h)).weaken_post (fun _ _ h => h.2) fun _ _ h => h)
      | _ => cases hreq

end Java

/-- With a token configured, which must not be empty in Go, every state the four clients reach
by calls whose attempts to connect are not given up between storing the connection and
authenticating it holds an authenticated connection only, and no frame but Auth was ever
written on a connection that was not authenticated. -/
theorem connections_authenticated {cfg : Config φ} {rustCfg : Config (Rust.Fault φ)}
    {token : String} (h : cfg.authToken = some token) (hr : rustCfg.authToken = some token) :
    Authenticating (Python.CallAuthenticates cfg) (Python.call cfg) cfg.decode ∧
      (token ≠ "" → Authenticating (Go.CallAuthenticates cfg) (Go.call cfg) cfg.decode) ∧
        Authenticating (Rust.CallAuthenticates rustCfg) (Rust.call rustCfg) rustCfg.decode ∧
          Authenticating (Java.CallAuthenticates cfg) (Java.call cfg) cfg.decode := by
  refine ⟨authenticating_of_ensures (Python.call_authenticated h), fun hne => ?_,
    authenticating_of_ensures (Rust.call_authenticated hr),
    authenticating_of_ensures (Java.call_authenticated h)⟩
  -- the empty text is no token in Go
  have hgo : Go.authToken cfg = some token := by
    simp [Go.authToken, h, hne]
  exact authenticating_of_ensures (Go.call_authenticated hgo)

/-- The settings of a client with a token. -/
def Config.withToken (decode : Decoder) : Config φ :=
  { Config.plain decode with authToken := some "secret" }

/-- `connect`, with Auth answered by AuthOk. -/
def answeredAuth : Call × CallEnv φ :=
  (.connect, { CallEnv.undisturbed [] with
    connect := ⟨.ok, none, none, .undisturbed [replyOf .authOk (by decide)], none⟩ })

/-- A Python client that gets AuthOk holds an authenticated connection. -/
theorem connections_authenticated_answered :
    ∃ w, callStep (Python.call (.withToken pythonDialect.decodeResponse : Config Unit))
        World.init answeredAuth = some w ∧ w.held = some 0 ∧
      w.Authenticated pythonDialect.decodeResponse := by
  have hstep : ∃ w, callStep (Python.call (.withToken pythonDialect.decodeResponse))
      World.init (answeredAuth : Call × CallEnv Unit) = some w ∧ w.held = some 0 :=
    ⟨_, rfl, rfl⟩
  obtain ⟨w, hw, hheld⟩ := hstep
  have hauth : Python.CallAuthenticates (.withToken pythonDialect.decodeResponse) World.init
      (answeredAuth : Call × CallEnv Unit) :=
    ⟨fun _ _ _ => ⟨.authOk, rfl, fun h => absurd rfl h⟩, fun h => by cases h⟩
  have htoken : (.withToken pythonDialect.decodeResponse : Config Unit).authToken =
      some "secret" := rfl
  have hrust : (.withToken (rustDialect false).decodeResponse :
      Config (Rust.Fault Unit)).authToken = some "secret" := rfl
  have hall := connections_authenticated htoken hrust
  exact ⟨w, hw, hheld, hall.1 w ⟨_, Run.single hauth hw⟩⟩

section Unauthenticated

/-- `connect`, with no answer to Auth in time. -/
def unansweredAuth : Call × CallEnv φ :=
  (.connect, .undisturbed [])

theorem not_authenticating {call : CallEnv φ → Call → Client φ Result} {decode : Decoder}
    (h : ∃ w, callStep call World.init unansweredAuth = some w ∧
      ∃ i, w.held = some i ∧ (w.conns i).sent = []) :
    ¬ Authenticating (fun _ _ => True) call decode := by
  intro hall
  obtain ⟨w, hw, i, hheld, hsent⟩ := h
  obtain ⟨f, hf, -⟩ := (hall w ⟨_, Run.single trivial hw⟩).held i hheld
  rw [hsent] at hf
  cases hf

/-- When the answer to Auth does not arrive in time, the Python, the Rust and the Java
client keep the connection. -/
theorem unauthenticated_kept :
    ¬ Authenticating (fun _ _ => True)
        (Python.call (.withToken pythonDialect.decodeResponse : Config Unit))
        pythonDialect.decodeResponse ∧
      ¬ Authenticating (fun _ _ => True)
          (Rust.call (.withToken (rustDialect false).decodeResponse :
            Config (Rust.Fault Unit)))
          (rustDialect false).decodeResponse ∧
        ¬ Authenticating (fun _ _ => True)
          (Java.call (.withToken pythonDialect.decodeResponse : Config Unit))
          pythonDialect.decodeResponse :=
  ⟨not_authenticating ⟨_, rfl, _, rfl, rfl⟩, not_authenticating ⟨_, rfl, _, rfl, rfl⟩,
    not_authenticating ⟨_, rfl, _, rfl, rfl⟩⟩

end Unauthenticated

end LockStep

end DittoClient
