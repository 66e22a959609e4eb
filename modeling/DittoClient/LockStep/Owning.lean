import DittoClient.LockStep.Ownership

/-!
# The connections of the Python, Rust and Java clients

The clients in Python, Rust and Java return from a second `connect` at once, and drop a connection
only by closing it. So in every run, whatever fails, the connections that are open are the one that
is held (`connections_owned`): none is forgotten while it is open, and no two are open at a time.
-/

namespace DittoClient

namespace LockStep

open DittoClient.Protobuf
open DittoClient.Wire
open DittoClient.Program
open DittoClient.Transition

variable {φ : Type} {I : World φ → Prop}

/-- A connection is opened where none is held. -/
theorem dial_hold_idle_stable (hI : World.Stable I) (d : Dial φ) {b : Bool} (hb : ¬ b = true) :
    Ensures (fun w => I w ∧ (b = true ↔ w.Connected)) (dial d >>= hold) (fun _ => I)
      (fun _ => I) := by
  refine (dial_hold_stable hI d).strengthen_pre ?_
  rintro w ⟨hw, hconn⟩
  have hnot : ¬ w.Connected := fun h => hb (hconn.mpr h)
  exact ⟨hw, by simpa [World.Connected] using hnot⟩

theorem meet_stable (f : Option φ) : Ensures I (meet f) (fun _ => I) (fun _ => I) :=
  (meet_ensures f).weaken_post (fun _ _ h => h.1) fun _ _ h => h.1

namespace Python

theorem closeLocked_stable (hI : World.Stable I) (shutdown : Option φ) :
    Ensures I (closeLocked shutdown) (fun _ => I) (fun _ => I) := by
  refine (connected_ensures _ _).bind fun b => Ensures.ite (fun _ => ?_)
    fun _ => ensures_pure _ fun _ h => h.1
  exact ((meet_stable shutdown).strengthen_pre fun _ h => h.1).bind fun _ =>
    (release_stable hI _).weaken_post (fun _ _ h => h.1) fun _ _ h => h

theorem connectLocked_stable (hI : World.Stable I) (cfg : Config φ) (a : Attempt φ) :
    Ensures I (connectLocked cfg a) (fun _ => I) (fun _ => I) := by
  refine (connected_ensures _ _).bind fun b => Ensures.ite
    (fun _ => ensures_pure _ fun _ h => h.1) fun hb => (dial_hold_idle_stable hI a.dial hb).bind
      fun _ => ?_
  cases cfg.authToken with
  | none => exact ensures_pure _ fun _ h => h
  | some token =>
      exact (exchange_stable hI cfg.accepts cfg.decode a.auth (.auth token)).bind fun resp =>
        Ensures.ite (fun _ => ensures_pure _ fun _ h => h) fun _ =>
          (closeLocked_stable hI a.shutdown).bind fun _ => ensures_throw _ fun _ h => h

theorem send_stable (hI : World.Stable I) (cfg : Config φ) (env : CallEnv φ) (frame : Request)
    (retrySafe : Bool) : Ensures I (send cfg env frame retrySafe) (fun _ => I) (fun _ => I) := by
  refine (connected_ensures _ _).bind fun b => Ensures.ite (fun _ => ?_)
    fun _ => ensures_throw _ fun _ h => h.1
  refine Ensures.tryCatch ((exchange_stable hI cfg.accepts cfg.decode env.first
    frame).strengthen_pre fun _ h => h.1) fun first => Ensures.ite (fun _ => ?_)
      fun _ => ensures_throw _ fun _ h => h
  refine (closeLocked_stable hI env.shutdown).bind fun _ => Ensures.ite (fun _ => Ensures.ite
    (fun _ => ?_) fun _ => ensures_throw _ fun _ h => h) fun _ => ensures_throw _ fun _ h => h
  exact (connectLocked_stable hI cfg env.reconnect).bind fun _ =>
    exchange_stable hI cfg.accepts cfg.decode env.retry frame

theorem call_stable (hI : World.Stable I) (cfg : Config φ) (c : Call) (env : CallEnv φ) :
    Ensures I (call cfg env c) (fun _ => I) (fun _ => I) := by
  cases hreq : c.request? with
  | some frame =>
      exact (call_ensures_of_request cfg env hreq (A := fun _ _ => True) (fun _ h => h)
        fun _ => (send_stable hI cfg env frame c.retrySafe).weaken_post
          (fun _ _ h => ⟨trivial, h⟩) fun _ _ h => h).weaken_post (fun _ _ h => h.2)
            fun _ _ h => h
  | none =>
      cases c with
      | connect =>
          exact (connectLocked_stable hI cfg env.connect).bind
            fun _ => ensures_pure Result.done fun _ h => h
      | close =>
          exact (closeLocked_stable hI env.shutdown).bind
            fun _ => ensures_pure Result.done fun _ h => h
      | waitWatchEvent =>
          refine (connected_ensures _ _).bind fun b => Ensures.ite (fun _ => ?_)
            fun _ => ensures_throw _ fun _ h => h.1
          exact (request_ensures (A := fun _ _ => True) _ (((awaitFrame_stable hI cfg.accepts
            cfg.decode env.first.toArrival).strengthen_pre fun _ h => h.1).weaken_post
              (fun _ _ h => ⟨trivial, h⟩) fun _ _ h => h)).weaken_post (fun _ _ h => h.2)
                fun _ _ h => h
      | _ => cases hreq

end Python

namespace Rust

variable {I : World (Fault φ) → Prop}

theorem ensureConnectedLocked_stable (hI : World.Stable I) (cfg : Config (Fault φ))
    (a : Attempt (Fault φ)) :
    Ensures I (ensureConnectedLocked cfg a) (fun _ => I) (fun _ => I) := by
  refine (connected_ensures _ _).bind fun b => Ensures.ite
    (fun _ => ensures_pure _ fun _ h => h.1) fun hb => (dial_hold_idle_stable hI a.dial hb).bind
      fun _ => ?_
  rw [authenticateLocked]
  cases cfg.authToken with
  | none => exact ensures_pure _ fun _ h => h
  | some token =>
      exact (exchange_stable hI cfg.accepts cfg.decode a.auth (.auth token)).bind fun resp =>
        Ensures.ite (fun _ => ensures_pure _ fun _ h => h) fun _ => release_throw_stable hI _ _

theorem sendRequest_stable (hI : World.Stable I) (cfg : Config (Fault φ))
    (env : CallEnv (Fault φ)) (frame : Request) (retrySafe : Bool) :
    Ensures I (sendRequest cfg env frame retrySafe) (fun _ => I) (fun _ => I) := by
  refine (meet_stable env.lock).bind fun _ =>
    (ensureConnectedLocked_stable hI cfg env.connect).bind fun _ => Ensures.tryCatch
      (exchange_stable hI cfg.accepts cfg.decode env.first frame) fun err =>
        Ensures.ite (fun _ => ?_) fun _ => ensures_throw _ fun _ h => h
  refine (release_stable hI _).bind fun _ => Ensures.ite (fun _ => Ensures.ite (fun _ => ?_)
    fun _ => ensures_throw _ fun _ h => h.1) fun _ => ensures_throw _ fun _ h => h.1
  exact ((ensureConnectedLocked_stable hI cfg env.reconnect).strengthen_pre fun _ h => h.1).bind
    fun _ => exchange_stable hI cfg.accepts cfg.decode env.retry frame

theorem call_stable (hI : World.Stable I) (cfg : Config (Fault φ)) (c : Call)
    (env : CallEnv (Fault φ)) : Ensures I (call cfg env c) (fun _ => I) (fun _ => I) := by
  cases hreq : c.request? with
  | some frame =>
      exact (call_ensures_of_request cfg env hreq (A := fun _ _ => True) (fun _ h => h)
        fun _ => (sendRequest_stable hI cfg env frame c.retrySafe).weaken_post
          (fun _ _ h => ⟨trivial, h⟩) fun _ _ h => h).weaken_post (fun _ _ h => h.2)
            fun _ _ h => h
  | none =>
      cases c with
      | connect =>
          exact (meet_stable env.lock).bind fun _ =>
            (ensureConnectedLocked_stable hI cfg env.connect).bind
              fun _ => ensures_pure Result.done fun _ h => h
      | close =>
          refine (meet_stable env.lock).bind fun _ => (connected_ensures _ _).bind fun b =>
            Ensures.ite (fun _ => ?_) fun _ => ensures_pure _ fun _ h => h.1
          exact ((release_stable hI _).strengthen_pre fun _ h => h.1).bind fun _ =>
            ((meet_stable env.shutdown).strengthen_pre fun _ h => h.1).bind
              fun _ => ensures_pure Result.done fun _ h => h
      | waitWatchEvent =>
          exact (meet_stable env.lock).bind fun _ =>
            (ensureConnectedLocked_stable hI cfg env.connect).bind fun _ =>
              (request_ensures (A := fun _ _ => True) _ ((awaitFrame_stable hI cfg.accepts
                cfg.decode env.first.toArrival).weaken_post (fun _ _ h => ⟨trivial, h⟩)
                  fun _ _ h => h)).weaken_post (fun _ _ h => h.2) fun _ _ h => h
      | _ => cases hreq

end Rust

namespace Java

/-- A property of the connections does not depend on the streams. -/
def Streamless (I : World φ → Prop) : Prop :=
  ∀ (w : World φ) (i o : Bool), I w → I { w with input := i, output := o }

theorem closeSocketOnly_stable (hI : World.Stable I) (hs : Streamless I)
    (E : Failure φ → World φ → Prop) : Ensures I closeSocketOnly (fun _ => I) E :=
  (release_stable hI _).bind fun _ => fun w hw => hs w false false hw.1

theorem sendFrame_stable (hI : World.Stable I) (x : Exchange φ) (data : Request) :
    Ensures I (sendFrame x data) (fun _ => I) (fun _ => I) := by
  have houtput : Ensures I hasOutput (fun _ => I) (fun _ => I) := fun _ hw => hw
  exact houtput.bind fun _ => Ensures.ite (fun _ => sendall_stable hI x data)
    fun _ => ensures_throw _ fun _ h => h

theorem hasInput_stable : Ensures I hasInput (fun _ => I) (fun _ => I) :=
  fun _ hw => hw

theorem readResponse_stable (hI : World.Stable I) (cfg : Config φ) :
    Ensures I (readResponse cfg) (fun _ => I) (fun _ => I) :=
  hasInput_stable.bind fun _ => Ensures.ite
    (fun _ => recvFrame_stable hI (accepts cfg) cfg.decode) fun _ => ensures_throw _ fun _ h => h

theorem connectSocket_stable (hI : World.Stable I) (hs : Streamless I) (cfg : Config φ)
    (a : Attempt φ) : Ensures I (connectSocket cfg a) (fun _ => I) (fun _ => I) := by
  have hinput : Ensures I setInput (fun _ => I) (fun _ => I) :=
    fun w hw => hs w true w.output hw
  have houtput : Ensures I setOutput (fun _ => I) (fun _ => I) :=
    fun w hw => hs w w.input true hw
  refine (connected_ensures _ _).bind fun b => Ensures.ite
    (fun _ => ensures_pure _ fun _ h => h.1) fun hb => (dial_hold_idle_stable hI a.dial hb).bind
      fun _ => (meet_stable a.input).bind fun _ => hinput.bind fun _ =>
        (meet_stable a.output).bind fun _ => houtput.bind fun _ => ?_
  cases cfg.authToken with
  | none => exact ensures_pure _ fun _ h => h
  | some token =>
      exact (sendFrame_stable hI a.auth (.auth token)).bind fun _ =>
        (readResponse_stable hI cfg).bind fun resp => Ensures.ite
          (fun _ => ensures_pure _ fun _ h => h) fun _ =>
            (closeSocketOnly_stable hI hs _).bind fun _ => ensures_throw _ fun _ h => h

theorem sendAndRead_stable (hI : World.Stable I) (hs : Streamless I) (cfg : Config φ)
    (env : CallEnv φ) (data : Request) (retrySafe : Bool) :
    Ensures I (sendAndRead cfg env data retrySafe) (fun _ => I) (fun _ => I) := by
  have hexchange : ∀ x : Exchange φ, Ensures I (do
      sendFrame x data
      readResponse cfg) (fun _ => I) (fun _ => I) := fun x =>
    (sendFrame_stable hI x data).bind fun _ => readResponse_stable hI cfg
  refine Ensures.tryCatch (hexchange env.first) fun first => Ensures.ite (fun _ => ?_)
    fun _ => ensures_throw _ fun _ h => h
  refine (closeSocketOnly_stable hI hs _).bind fun _ => Ensures.ite (fun _ => Ensures.ite
    (fun _ => ?_) fun _ => ensures_throw _ fun _ h => h) fun _ => ensures_throw _ fun _ h => h
  exact (connectSocket_stable hI hs cfg env.reconnect).bind fun _ => hexchange env.retry

theorem call_stable (hI : World.Stable I) (hs : Streamless I) (cfg : Config φ) (c : Call)
    (env : CallEnv φ) : Ensures I (call cfg env c) (fun _ => I) (fun _ => I) := by
  cases hreq : c.request? with
  | some frame =>
      exact (call_ensures_of_request cfg env hreq (A := fun _ _ => True) (fun _ h => h)
        fun _ => (sendAndRead_stable hI hs cfg env frame c.retrySafe).weaken_post
          (fun _ _ h => ⟨trivial, h⟩) fun _ _ h => h).weaken_post (fun _ _ h => h.2)
            fun _ _ h => h
  | none =>
      cases c with
      | connect =>
          exact (connectSocket_stable hI hs cfg env.connect).bind
            fun _ => ensures_pure Result.done fun _ h => h
      | close =>
          exact (closeSocketOnly_stable hI hs _).bind
            fun _ => ensures_pure Result.done fun _ h => h
      | waitWatchEvent =>
          refine hasInput_stable.bind fun _ => Ensures.ite (fun _ => ?_)
            fun _ => ensures_throw _ fun _ h => h
          exact (request_ensures (A := fun _ _ => True) _ ((awaitFrame_stable hI (accepts cfg)
            cfg.decode env.first.toArrival).weaken_post (fun _ _ h => ⟨trivial, h⟩)
              fun _ _ h => h)).weaken_post (fun _ _ h => h.2) fun _ _ h => h
      | _ => cases hreq

end Java

/-- In every run of a client, whatever fails, the open connections are the one that is held. -/
def Owns (call : CallEnv φ → Call → Client φ Result) : Prop :=
  ∀ w, Reachable (callStep call) (fun _ _ => True) World.init w → w.Owned

theorem owns_of_stable {call : CallEnv φ → Call → Client φ Result}
    (hcall : ∀ c env, Ensures World.Owned (call env c) (fun _ => World.Owned)
      fun _ => World.Owned) : Owns call := by
  intro w h
  have hinit : (World.init : World φ).Owned := by
    intro i
    simp [World.Open, World.init]
  refine h.invariant hinit fun s a t hs _ hstep => ?_
  exact of_callStep (A := fun _ _ => True) ((hcall a.1 a.2).weaken_post
    (fun _ _ h => ⟨trivial, h⟩) fun _ _ h => h) hs hstep

/-- The clients in Python, Rust and Java own every connection that they have opened. -/
theorem connections_owned (cfg : Config φ) (rustCfg : Config (Rust.Fault φ)) :
    Owns (Python.call cfg) ∧ Owns (Rust.call rustCfg) ∧ Owns (Java.call cfg) := by
  refine ⟨?_, ?_, ?_⟩
  · exact owns_of_stable (Python.call_stable World.stable_owned cfg)
  · exact owns_of_stable (Rust.call_stable World.stable_owned rustCfg)
  · exact owns_of_stable (Java.call_stable World.stable_owned (fun _ _ _ h => h) cfg)

end LockStep

end DittoClient
