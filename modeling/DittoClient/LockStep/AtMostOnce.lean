import DittoClient.LockStep.Go
import DittoClient.LockStep.Java
import DittoClient.LockStep.Python
import DittoClient.LockStep.Rust
import DittoClient.LockStep.Transmission

/-!
# At most one transmission of a mutation

For each of the four clients the request of a call is traced through validation,
connecting and sending. Whatever state a call starts from and whatever the network does,
a request that is not retry-safe is handed to a socket at most once and no connection is
opened after that; a retry-safe one is handed over at most twice; and what is returned was
read after the last write (`requests_transmitted`).
-/

namespace DittoClient

namespace LockStep

open DittoClient.Protobuf
open DittoClient.Wire
open DittoClient.Program

variable {φ : Type} {accepts : ℕ → Bool} {decode : Decoder} {frame : Request}

/-- How a call that is made in `w` is to send `frame`: the first attempt begins where `enter`
leaves the world. -/
def Call.sending (cfg : Config φ) (accepts : ℕ → Bool) (enter : Client φ Unit)
    (attempt : Client φ ClientResponse) (c : Call) (frame : Request) (w : World φ) :
    Sending φ where
  accepts := accepts
  decode := cfg.decode
  frame := frame
  begins u := enter w = .ok () u
  attempt := attempt
  again := c.retrySafe && cfg.autoReconnect

/-- The program sends the frame of a call, and returns what it reads off the response. -/
def Calling (cfg : Config φ) (accepts : ℕ → Bool) (enter : Client φ Unit)
    (attempt : Client φ ClientResponse) (ping : ClientResponse → Except (Failure φ) Result)
    (c : Call) (frame : Request) (m : Client φ Result) : Prop :=
  ∀ w, (c.sending cfg accepts enter attempt frame w).SentBy m
    (fun res r => c.accept ping r = .ok res) w

theorem mapFailure_calms {α : Type} {m : Client φ α} (h : Calms accepts decode frame m)
    (f : Failure φ → Failure φ) : Calms accepts decode frame (mapFailure f m) :=
  h.tryCatch fun _ => Within.throw _

/-- The frame of a call is not an Auth frame. -/
theorem Call.auth_ne {c : Call} (hc : c.request? = some frame) (token : String) :
    Request.auth token ≠ frame := by
  rintro rfl
  cases c <;> cases hc

section Unchanged

variable {α : Type} {w u : World φ}

theorem connected_unchanged {b : Bool} (h : connected w = .ok b u) : w = u := by
  cases h
  rfl

theorem check_unchanged {cfg : Config φ} {a : Unit} (h : cfg.check frame w = .ok a u) :
    w = u := by
  unfold Config.check ofExcept at h
  split at h
  · cases h
    rfl
  · cases h

/-- What succeeds under other names for its failures succeeds. -/
theorem ok_of_mapFailure {f : Failure φ → Failure φ} {m : Client φ α} {a : α}
    (h : mapFailure f m w = .ok a u) : m w = .ok a u := by
  unfold mapFailure at h
  change EStateM.tryCatch m (fun e => throw (f e)) w = .ok a u at h
  unfold EStateM.tryCatch at h
  cases hm : m w with
  | ok a' t =>
      simp only [hm] at h
      exact h
  | error e t =>
      simp only [hm] at h
      cases h

end Unchanged

namespace Python

/-- Closing where no connection is held does what releasing it would do. -/
theorem closeLocked_closes (shutdown : Option φ) :
    Closes accepts decode (closeLocked shutdown) := by
  refine fun w => (connected_traced _ w).bind fun b es t _ _ hes => ?_
  obtain ⟨rfl, rfl, rfl⟩ := hes
  refine TracedAt.ite (fun _ => ?_) fun hnone => ?_
  · cases shutdown with
    | some f => exact ⟨[], Path.nil t, rfl⟩
    | none => exact release_closes t
  · have hheld : t.held = none := by simpa using hnone
    have hrelease : release t = .ok () t := by simp only [release, hheld]
    exact ⟨[.closed], Path.single hrelease, Or.inl rfl⟩

theorem closeLocked_calms (shutdown : Option φ) :
    Calms accepts decode frame (closeLocked shutdown) :=
  (closeLocked_closes shutdown).calms

theorem connectLocked_calms (cfg : Config φ) (a : Attempt φ)
    (hframe : ∀ token, Request.auth token ≠ frame) :
    Calms cfg.accepts cfg.decode frame (connectLocked cfg a) := by
  refine connected_calms.bind fun b => Within.ite (Within.pure _)
    ((dial_hold_calms a.dial).bind fun _ => ?_)
  cases cfg.authToken with
  | none => exact Within.pure _
  | some token =>
      exact ((exchange_exchanges a.auth _).calms (hframe token)).bind fun resp =>
        Within.ite (Within.pure _) ((closeLocked_calms a.shutdown).bind fun _ => Within.throw _)

/-- The first attempt of the Python client, which does not connect before it. -/
abbrev attempt (cfg : Config φ) (env : CallEnv φ) (frame : Request) : Client φ ClientResponse :=
  exchange cfg.accepts cfg.decode env.first frame

theorem send_sent (cfg : Config φ) (env : CallEnv φ) (c : Call)
    (hframe : ∀ token, Request.auth token ≠ frame) (w : World φ) :
    (c.sending cfg cfg.accepts (pure ()) (attempt cfg env frame) frame w).SentBy
      (send cfg env frame c.retrySafe) Eq w := by
  refine Calms.then_sent connected_calms fun b u hu => ?_
  obtain rfl := connected_unchanged hu
  exact TracedAt.ite (fun _ => attempts_sent (c.sending ..) (exchange_exchanges env.first frame)
    (closeLocked_closes env.shutdown) (connectLocked_calms cfg env.reconnect hframe)
    (exchange_exchanges env.retry frame) rfl rfl)
      fun _ => tracedAt_throw _ (Or.inl (Calm.once (List.forall_mem_nil _)))

theorem call_calling (cfg : Config φ) (env : CallEnv φ) {c : Call}
    (hc : c.request? = some frame) :
    Calling cfg cfg.accepts (pure ()) (attempt cfg env frame) acceptPing c frame
      (call cfg env c) := by
  intro w
  have hsend := send_sent cfg env c (Call.auth_ne hc) w
  cases c with
  | connect => cases hc
  | close => cases hc
  | waitWatchEvent => cases hc
  | ping =>
      cases hc
      exact request_sent _ hsend
  | _ =>
      cases hc
      refine (check_calms cfg _).then_sent fun _ u hu => ?_
      obtain rfl := check_unchanged hu
      exact request_sent _ hsend

end Python

namespace Go

theorem connectLocked_calms (cfg : Config φ) (a : Attempt φ)
    (hframe : ∀ token, Request.auth token ≠ frame) :
    Calms cfg.accepts cfg.decode frame (connectLocked cfg a) := by
  refine (dial_hold_calms a.dial).bind fun _ => ?_
  cases authToken cfg with
  | none => exact Within.pure _
  | some token =>
      refine Within.bind (Within.tryCatch ((exchange_exchanges a.auth _).calms (hframe token))
        fun err => Within.ite (release_calms.bind fun _ => Within.throw _) (Within.throw _))
          fun resp => Within.ite (Within.pure _) (release_calms.bind fun _ => Within.throw _)

theorem ensureConnectedLocked_calms (cfg : Config φ) (a : Attempt φ)
    (hframe : ∀ token, Request.auth token ≠ frame) :
    Calms cfg.accepts cfg.decode frame (ensureConnectedLocked cfg a) :=
  connected_calms.bind fun _ => Within.ite (Within.pure _) (connectLocked_calms cfg a hframe)

/-- The first attempt of the Go client, on the connection that it has ensured. -/
abbrev attempt (cfg : Config φ) (env : CallEnv φ) (frame : Request) : Client φ ClientResponse :=
  exchange cfg.accepts cfg.decode env.first frame

theorem call_calling (cfg : Config φ) (env : CallEnv φ) {c : Call}
    (hc : c.request? = some frame) :
    Calling cfg cfg.accepts (ensureConnectedLocked cfg env.connect) (attempt cfg env frame)
      acceptPing c frame (call cfg env c) := by
  intro w
  have hframe := Call.auth_ne hc
  have hconnect := ensureConnectedLocked_calms cfg env.connect hframe
  have hsend : ∀ u, ensureConnectedLocked cfg env.connect w = .ok () u →
      (c.sending cfg cfg.accepts (ensureConnectedLocked cfg env.connect) (attempt cfg env frame)
        frame w).SentBy (sendRequestLocked cfg env frame c.retrySafe) Eq u :=
    fun u hu => attempts_sent (c.sending ..) (exchange_exchanges env.first frame) release_closes
      (ensureConnectedLocked_calms cfg env.reconnect hframe) (exchange_exchanges env.retry frame)
      rfl hu
  cases c with
  | connect => cases hc
  | close => cases hc
  | waitWatchEvent => cases hc
  | ping =>
      cases hc
      exact hconnect.then_sent fun _ u hu => request_sent _ (hsend u hu)
  | setNx key value ttl ns =>
      cases hc
      refine Calms.then_sent (mapFailure_calms hconnect _) fun _ u hu =>
        (check_calms cfg _).then_sent fun _ v hv => mapFailure_sent _ (request_sent _ ?_)
      obtain rfl := check_unchanged hv
      exact hsend u (ok_of_mapFailure hu)
  | incr key delta ttl ns =>
      cases hc
      refine Calms.then_sent (mapFailure_calms hconnect _) fun _ u hu =>
        (check_calms cfg _).then_sent fun _ v hv => mapFailure_sent _ (request_sent _ ?_)
      obtain rfl := check_unchanged hv
      exact hsend u (ok_of_mapFailure hu)
  | _ =>
      cases hc
      refine hconnect.then_sent fun _ u hu => (check_calms cfg _).then_sent fun _ v hv => ?_
      obtain rfl := check_unchanged hv
      exact request_sent _ (hsend u hu)

end Go

namespace Rust

theorem ensureConnectedLocked_calms (cfg : Config (Fault φ)) (a : Attempt (Fault φ))
    (hframe : ∀ token, Request.auth token ≠ frame) :
    Calms cfg.accepts cfg.decode frame (ensureConnectedLocked cfg a) := by
  refine connected_calms.bind fun _ => Within.ite (Within.pure _)
    ((dial_hold_calms a.dial).bind fun _ => ?_)
  unfold authenticateLocked
  cases cfg.authToken with
  | none => exact Within.pure _
  | some token =>
      exact ((exchange_exchanges a.auth _).calms (hframe token)).bind fun resp =>
        Within.ite (Within.pure _) (release_calms.bind fun _ => Within.throw _)

/-- What the Rust client does before the first attempt. -/
abbrev enter (cfg : Config (Fault φ)) (env : CallEnv (Fault φ)) : Client (Fault φ) Unit := do
  meet env.lock
  ensureConnectedLocked cfg env.connect

/-- The first attempt of the Rust client. -/
abbrev attempt (cfg : Config (Fault φ)) (env : CallEnv (Fault φ)) (frame : Request) :
    Client (Fault φ) ClientResponse :=
  exchange cfg.accepts cfg.decode env.first frame

theorem sendRequest_sent (cfg : Config (Fault φ)) (env : CallEnv (Fault φ)) (c : Call)
    (hframe : ∀ token, Request.auth token ≠ frame) (w : World (Fault φ)) :
    (c.sending cfg cfg.accepts (enter cfg env) (attempt cfg env frame) frame w).SentBy
      (sendRequest cfg env frame c.retrySafe) Eq w := by
  refine (meet_calms env.lock).then_sent fun _ u hu =>
    (ensureConnectedLocked_calms cfg env.connect hframe).then_sent fun _ v hv =>
      attempts_sent (c.sending ..) (exchange_exchanges env.first frame) release_closes
        (ensureConnectedLocked_calms cfg env.reconnect hframe)
        (exchange_exchanges env.retry frame) rfl ?_
  change EStateM.bind (meet env.lock) _ w = .ok () v
  simp only [EStateM.bind, hu]
  exact hv

theorem call_calling (cfg : Config (Fault φ)) (env : CallEnv (Fault φ)) {c : Call}
    (hc : c.request? = some frame) :
    Calling cfg cfg.accepts (enter cfg env) (attempt cfg env frame) acceptPing c frame
      (call cfg env c) := by
  intro w
  have hsend := sendRequest_sent cfg env c (Call.auth_ne hc) w
  cases c with
  | connect => cases hc
  | close => cases hc
  | waitWatchEvent => cases hc
  | ping =>
      cases hc
      exact request_sent _ hsend
  | setNx key value ttl ns =>
      cases hc
      refine (check_calms cfg _).then_sent fun _ u hu =>
        mapFailure_sent _ (request_sent _ ?_)
      rwa [← check_unchanged hu]
  | incr key delta ttl ns =>
      cases hc
      refine (check_calms cfg _).then_sent fun _ u hu =>
        mapFailure_sent _ (request_sent _ ?_)
      rwa [← check_unchanged hu]
  | _ =>
      cases hc
      refine (check_calms cfg _).then_sent fun _ u hu => request_sent _ ?_
      rwa [← check_unchanged hu]

end Rust

namespace Java

theorem streams_calms {m : Client φ Unit}
    (h : ∀ w : World φ, ∃ i o, m w = .ok () { w with input := i, output := o }) :
    Calms accepts decode frame m := by
  intro w
  obtain ⟨i, o, hm⟩ := h w
  rw [TracedAt, hm]
  exact ⟨[.streams], Path.single rfl, by simp [Event.hands]⟩

theorem closeSocketOnly_closes : Closes accepts decode (closeSocketOnly : Client φ Unit) := by
  refine Traced.bind (release_traced _) fun _ es hes w => ?_
  subst hes
  exact ⟨[.streams], Path.single rfl, Or.inr rfl⟩

/-- Write a frame and read the response. -/
abbrev exchangeFrames (cfg : Config φ) (x : Exchange φ) (data : Request) :
    Client φ ClientResponse := do
  sendFrame x data
  readResponse cfg

/-- Writing a frame and reading the response, where either stream may be missing. -/
theorem exchangeFrames_exchanges (cfg : Config φ) (x : Exchange φ) (data : Request) :
    Exchanges (LockStep.Java.accepts cfg) cfg.decode data (exchangeFrames cfg x data) := by
  intro w
  by_cases hout : w.output = true
  · by_cases hin : w.input = true
    · rw [TracedAt, exchangeFrames, sendFrame_readResponse cfg x data ⟨hin, hout⟩]
      exact exchange_exchanges x data w
    · have hsent : sendFrame x data w = sendall x data w := by
        simp only [sendFrame, hasOutput, bind, EStateM.bind, hout, if_true]
      have hsend := sendall_traced (LockStep.Java.accepts cfg) cfg.decode x data w
      rw [TracedAt, ← hsent] at hsend
      refine TracedAt.bind hsend fun _ es t hm _ hes => ?_
      obtain ⟨i, -, rfl⟩ := hes
      have hnone : t.input = false := by
        rw [((sendall_follows x data w).of_ok rfl (hsent.symm.trans hm)).input]
        simpa using hin
      simp only [TracedAt, readResponse, hasInput, bind, EStateM.bind, hnone]
      exact ⟨[], Path.nil t, Or.inr ⟨i, Or.inl rfl⟩⟩
  · simp only [TracedAt, exchangeFrames, sendFrame, hasOutput, bind, EStateM.bind, hout]
    exact ⟨[], Path.nil w, Or.inl rfl⟩

theorem connectSocket_calms (cfg : Config φ) (a : Attempt φ)
    (hframe : ∀ token, Request.auth token ≠ frame) :
    Calms (LockStep.Java.accepts cfg) cfg.decode frame (connectSocket cfg a) := by
  have hinput : Calms (LockStep.Java.accepts cfg) cfg.decode frame (setInput : Client φ Unit) :=
    streams_calms fun w => ⟨true, w.output, rfl⟩
  have houtput : Calms (LockStep.Java.accepts cfg) cfg.decode frame
      (setOutput : Client φ Unit) := streams_calms fun w => ⟨w.input, true, rfl⟩
  refine connected_calms.bind fun _ => Within.ite (Within.pure _)
    ((dial_hold_calms a.dial).bind fun _ => (meet_calms a.input).bind fun _ =>
      hinput.bind fun _ => (meet_calms a.output).bind fun _ => houtput.bind fun _ => ?_)
  cases cfg.authToken with
  | none => exact Within.pure _
  | some token =>
      dsimp only
      rw [← bind_assoc]
      exact ((exchangeFrames_exchanges cfg a.auth _).calms (hframe token)).bind
        fun resp => Within.ite (Within.pure _)
          (closeSocketOnly_closes.calms.bind fun _ => Within.throw _)

theorem call_calling (cfg : Config φ) (env : CallEnv φ) {c : Call}
    (hc : c.request? = some frame) :
    Calling cfg (LockStep.Java.accepts cfg) (pure ()) (exchangeFrames cfg env.first frame)
      acceptPing c frame (call cfg env c) := by
  intro w
  have hsend : (c.sending cfg (LockStep.Java.accepts cfg) (pure ())
      (exchangeFrames cfg env.first frame) frame w).SentBy
        (sendAndRead cfg env frame c.retrySafe) Eq w :=
    attempts_sent (c.sending ..) (exchangeFrames_exchanges cfg env.first frame)
      closeSocketOnly_closes (connectSocket_calms cfg env.reconnect (Call.auth_ne hc))
      (exchangeFrames_exchanges cfg env.retry frame) rfl rfl
  cases c with
  | connect => cases hc
  | close => cases hc
  | waitWatchEvent => cases hc
  | ping =>
      cases hc
      exact request_sent _ hsend
  | setNx key value ttl ns =>
      cases hc
      refine mapFailure_sent _ ((check_calms cfg _).then_sent fun _ u hu => request_sent _ ?_)
      rwa [← check_unchanged hu]
  | incr key delta ttl ns =>
      cases hc
      refine mapFailure_sent _ ((check_calms cfg _).then_sent fun _ u hu => request_sent _ ?_)
      rwa [← check_unchanged hu]
  | _ =>
      cases hc
      refine (check_calms cfg _).then_sent fun _ u hu => request_sent _ ?_
      rwa [← check_unchanged hu]

end Java

/-- From every state and whatever the network does, a call that sends a request hands its
frame over at most once and opens no connection after that, or, when it is retry-safe, at
most twice; and it returns what was read after its last write. A second attempt is made only
with automatic reconnection, and only where `attempt`, run where `enter` leaves the world,
fails. -/
def Transmits (cfg : Config φ) (accepts : ℕ → Bool) (enter : CallEnv φ → Client φ Unit)
    (attempt : CallEnv φ → Request → Client φ ClientResponse)
    (ping : ClientResponse → Except (Failure φ) Result)
    (call : CallEnv φ → Call → Client φ Result) : Prop :=
  ∀ (env : CallEnv φ) (c : Call) (frame : Request) (w : World φ), c.request? = some frame →
    ∃ es t, Went accepts cfg.decode w es t ∧
      (c.retrySafe = false → Once frame es) ∧
      (c.retrySafe = true →
        (c.sending cfg accepts (enter env) (attempt env frame) frame w).Twice w es t) ∧
      ((∃ res, call env c w = .ok res t ∧ ∃ r, c.accept ping r = .ok res ∧
          EndsWith frame r es) ∨
        ∃ e, call env c w = .error e t)

theorem transmits_of_calling {cfg : Config φ} {accepts : ℕ → Bool}
    {enter : CallEnv φ → Client φ Unit} {attempt : CallEnv φ → Request → Client φ ClientResponse}
    {ping : ClientResponse → Except (Failure φ) Result}
    {call : CallEnv φ → Call → Client φ Result}
    (h : ∀ env (c : Call) frame, c.request? = some frame →
      Calling cfg accepts (enter env) (attempt env frame) ping c frame (call env c)) :
    Transmits cfg accepts enter attempt ping call := by
  intro env c frame w hc
  let x := c.sending cfg accepts (enter env) (attempt env frame) frame w
  have honce : ∀ {es : List Event} {t : World φ}, x.Sends w es t → c.retrySafe = false →
      Once frame es := by
    intro es t hsends hsafe
    refine hsends.once ?_
    change (c.retrySafe && cfg.autoReconnect) = false
    rw [hsafe, Bool.false_and]
  cases hm : call env c w with
  | ok res t =>
      obtain ⟨es, hwent, hsends, hres⟩ := (h env c frame hc w).of_ok hm
      exact ⟨es, t, hwent, honce hsends, fun _ => hsends.twice, Or.inl ⟨res, rfl, hres⟩⟩
  | error e t =>
      obtain ⟨es, hwent, hsends⟩ := (h env c frame hc w).of_error hm
      exact ⟨es, t, hwent, honce hsends, fun _ => hsends.twice, Or.inr ⟨e, rfl⟩⟩

/-- The four clients transmit a mutation at most once. -/
theorem requests_transmitted (cfg : Config φ) (rustCfg : Config (Rust.Fault φ)) :
    Transmits cfg cfg.accepts (fun _ => pure ()) (Python.attempt cfg) acceptPing
        (Python.call cfg) ∧
      Transmits cfg cfg.accepts (fun env => Go.ensureConnectedLocked cfg env.connect)
        (Go.attempt cfg) acceptPing (Go.call cfg) ∧
      Transmits rustCfg rustCfg.accepts (Rust.enter rustCfg) (Rust.attempt rustCfg)
        Rust.acceptPing (Rust.call rustCfg) ∧
      Transmits cfg (Java.accepts cfg) (fun _ => pure ())
        (fun env => Java.exchangeFrames cfg env.first) acceptPing (Java.call cfg) :=
  ⟨transmits_of_calling fun env _ _ hc => Python.call_calling cfg env hc,
    transmits_of_calling fun env _ _ hc => Go.call_calling cfg env hc,
    transmits_of_calling fun env _ _ hc => Rust.call_calling rustCfg env hc,
    transmits_of_calling fun env _ _ hc => Java.call_calling cfg env hc⟩

end LockStep

end DittoClient
