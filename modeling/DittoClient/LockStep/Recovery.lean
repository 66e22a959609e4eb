import DittoClient.LockStep.Pairing

/-!
# Runs in which exchanges break off

A client recovers from an exchange that breaks off when it drops the connection, so that the next
call begins on a new one. `RecoversWith` is this condition on a call that may find watches on its
connection: what the server pushes lies behind the answers, and a wait reads a frame to its end.
Such a call returns what was computed from the answer to its own request, and leaves no exchange
half-done on the connection that is held.
-/

namespace DittoClient

namespace LockStep

open DittoClient.Octets
open DittoClient.Protobuf
open DittoClient.Wire
open DittoClient.Program

variable {φ : Type}

/-- The calls after which no half-done exchange is left on the connection that is held, where
`connects` and `sends` say when this is so for an attempt to connect and for the exchanges of a
request. -/
structure RecoversWith (accepts : ℕ → Bool) (connects : Attempt φ → Prop)
    (sends : CallEnv φ → Bool → Prop) (w : World φ) (a : Call × CallEnv φ) : Prop where
  orderly : a.2.Orderly
  connects : connects a.2.connect
  sends : a.1.request?.isSome = true → sends a.2 a.1.retrySafe
  waits : a.1 = .waitWatchEvent → WaitDelivers accepts a.2.first.toArrival w ∧
    (w.held = none → NoPush a.2.first.acts)
  ahead : NothingAhead w a

namespace Python

def Recovers (cfg : Config φ) : World φ → Call × CallEnv φ → Prop :=
  RecoversWith cfg.accepts (Attempt.Settles cfg.authToken cfg.accepts cfg.decode) (SendSettles cfg)

theorem call_recovers (cfg : Config φ) (c : Call) (env : CallEnv φ) :
    Ensures (fun w => w.Rested False ∧ Recovers cfg w (c, env)) (call cfg env c)
      (fun res t => OwnAnswer cfg acceptPing c res t ∧ t.Rested False)
      (fun _ t => t.Rested False) := by
  rintro w ⟨hr, hw⟩
  cases hc : c.request? with
  | some frame =>
      have hsome : c.request?.isSome = true := by
        rw [hc]
        rfl
      exact ((call_rested_of_request cfg env hc hw.orderly (hw.ahead hsome).1).weaken_post
        (fun _ _ h => ⟨h.1, h.2.mono False.elim⟩) fun _ _ h => h.mono False.elim) w
          ⟨hr.drained hw.ahead hc, fun _ _ => hw.sends hsome⟩
  | none =>
      cases c with
      | connect =>
          exact ensures_of_no_request (c := .connect) rfl
            (connect_rested cfg env False hw.orderly.connect) w ⟨hr, fun _ => hw.connects⟩
      | close =>
          exact ensures_of_no_request (c := .close) rfl (close_rested env False) w hr
      | waitWatchEvent =>
          exact ensures_of_no_request (c := .waitWatchEvent) rfl (waitWatchEvent_settled cfg env) w
            ⟨hr, (hw.waits rfl).1⟩
      | _ => cases hc

end Python

namespace Go

/-- An attempt to connect that fails drops the connection. -/
def Recovers (cfg : Config φ) : World φ → Call × CallEnv φ → Prop :=
  RecoversWith cfg.accepts (fun _ => True) (SendSettles cfg)

theorem call_recovers (cfg : Config φ) (c : Call) (env : CallEnv φ) :
    Ensures (fun w => w.Rested False ∧ Recovers cfg w (c, env)) (call cfg env c)
      (fun res t => OwnAnswer cfg acceptPing c res t ∧ t.Rested False)
      (fun _ t => t.Rested False) := by
  rintro w ⟨hr, hw⟩
  cases hc : c.request? with
  | some frame =>
      have hsome : c.request?.isSome = true := by
        rw [hc]
        rfl
      exact ((call_rested_of_request cfg env hc hw.orderly (hw.ahead hsome).1).weaken_post
        (fun _ _ h => ⟨h.1, h.2.mono False.elim⟩) fun _ _ h => h.mono False.elim) w
          ⟨hr.drained hw.ahead hc, fun _ _ => hw.sends hsome⟩
  | none =>
      cases c with
      | connect =>
          exact ensures_of_no_request (c := .connect) rfl
            (connect_rested cfg env False hw.orderly.connect) w hr
      | close =>
          exact ensures_of_no_request (c := .close) rfl (close_rested env False) w hr
      | waitWatchEvent =>
          exact ensures_of_no_request (c := .waitWatchEvent) rfl
            (waitWatchEvent_settled cfg env hw.orderly.connect) w ⟨hr, hw.waits rfl⟩
      | _ => cases hc

end Go

namespace Rust

def Recovers (cfg : Config (Fault φ)) : World (Fault φ) → Call × CallEnv (Fault φ) → Prop :=
  RecoversWith cfg.accepts (Attempt.Settles cfg.authToken cfg.accepts cfg.decode) (SendSettles cfg)

theorem call_recovers (cfg : Config (Fault φ)) (c : Call) (env : CallEnv (Fault φ)) :
    Ensures (fun w => w.Rested False ∧ Recovers cfg w (c, env)) (call cfg env c)
      (fun res t => OwnAnswer cfg acceptPing c res t ∧ t.Rested False)
      (fun _ t => t.Rested False) := by
  rintro w ⟨hr, hw⟩
  cases hc : c.request? with
  | some frame =>
      have hsome : c.request?.isSome = true := by
        rw [hc]
        rfl
      exact ((call_rested_of_request cfg env hc hw.orderly (hw.ahead hsome).1).weaken_post
        (fun _ _ h => ⟨h.1, h.2.mono False.elim⟩) fun _ _ h => h.mono False.elim) w
          ⟨hr.drained hw.ahead hc, fun _ _ => ⟨fun _ => hw.connects, fun _ => hw.sends hsome⟩⟩
  | none =>
      cases c with
      | connect =>
          exact ensures_of_no_request (c := .connect) rfl
            (connect_rested cfg env False hw.orderly.connect) w ⟨hr, fun _ _ => hw.connects⟩
      | close =>
          exact ensures_of_no_request (c := .close) rfl (close_rested env False) w hr
      | waitWatchEvent =>
          exact ensures_of_no_request (c := .waitWatchEvent) rfl
            (waitWatchEvent_settled cfg env hw.orderly.connect hw.connects) w ⟨hr, hw.waits rfl⟩
      | _ => cases hc

end Rust

namespace Java

/-- When a request leaves no exchange half-done: if the first exchange breaks off or its response
cannot be decoded, then a second attempt settles. -/
def SendSettles (cfg : Config φ) (env : CallEnv φ) (retrySafe : Bool) : Prop :=
  env.first.Fails (accepts cfg) cfg.decode → retrySafe = true → cfg.autoReconnect = true →
    env.reconnect.Settles cfg.authToken (accepts cfg) cfg.decode ∧
      env.RetrySettles cfg.authToken (accepts cfg) cfg.decode

def Recovers (cfg : Config φ) : World φ → Call × CallEnv φ → Prop :=
  RecoversWith (accepts cfg) (Attempt.Settles cfg.authToken (accepts cfg) cfg.decode)
    (SendSettles cfg)

theorem isIoException_of_isIo {e : Failure φ} (h : e.isIo = true) : isIoException e = true := by
  cases e with
  | fault f => rfl
  | timeout => rfl
  | closedByServer => rfl
  | frameTooLarge len => rfl
  | _ => cases h

theorem fails_of_isIoException {accepts : ℕ → Bool} {decode : Decoder} {x : Exchange φ}
    {d : DecodeError} (hd : x.outcome accepts decode = some (.error d))
    (h : isIoException (.decode d : Failure φ) = true) : x.Fails accepts decode := by
  cases d with
  | malformed message => exact Or.inr ⟨message, hd⟩
  | runtime message => cases h

/-- When a connection was opened, both of its streams are there, and its Auth exchange was answered
by AuthOk. -/
theorem connectSocket_opens (cfg : Config φ) (a : Attempt φ) (ha : NoPush a.auth.acts) :
    Ensures (fun w => w.held = none) (connectSocket cfg a)
      (fun _ t => a.Opens cfg.authToken (accepts cfg) cfg.decode ∧ Both t ∧ t.Connected ∧
        t.Rested True) (fun _ _ => True) := by
  refine (connected_ensures _ _).bind fun b => Ensures.ite (fun hb => ?_) fun _ => ?_
  · refine ensures_pure _ fun w hw => ?_
    have hsome := hw.2.mp hb
    rw [World.Connected, hw.1] at hsome
    cases hsome
  · refine Ensures.bind ((dial_hold_ensures (P := fun w => w.held = none) a.dial).mono
      (fun _ h => h.1) (fun _ _ h => h) fun _ _ _ => trivial) fun _ =>
        Ensures.of_fact fun hdial => ?_
    -- the streams are obtained one after the other
    refine Ensures.bind ((meet_ensures a.input).weaken_post (fun _ _ h => h.1)
      fun _ _ _ => trivial) fun _ => Ensures.bind
        (R := fun _ t => t.input = true ∧ t.Connected ∧ t.Rested True) ?_ fun _ =>
          Ensures.bind ((meet_ensures a.output).weaken_post (fun _ _ h => h.1)
            fun _ _ _ => trivial) fun _ => Ensures.bind
              (R := fun _ t => Both t ∧ t.Connected ∧ t.Rested True) ?_ fun _ => ?_
    · exact fun t ht => ⟨rfl, ht⟩
    · exact fun t ht => ⟨⟨ht.1, rfl⟩, ht.2⟩
    · cases htoken : cfg.authToken with
      | none => exact ensures_pure _ fun t ht => ⟨⟨hdial, by simp⟩, ht⟩
      | some token =>
          dsimp only
          rw [← bind_assoc]
          refine Ensures.bind ((sendFrame_readResponse_ensures cfg a.auth (.auth token)
            (exchange_rested (accepts cfg) cfg.decode a.auth (.auth token)
              fun f hf => ha f (List.mem_of_mem_head? hf))).weaken_post (fun _ _ h => h)
                fun _ _ _ => trivial) fun resp => Ensures.ite
                  (fun hok => ensures_pure _ ?_) fun _ => ?_
          · rintro t ⟨hboth, hout, hc, -, hr⟩
            exact ⟨⟨hdial, fun _ => by rw [hout, hok]⟩, hboth, hc, hr.mono fun _ => ha⟩
          · exact (closeSocketOnly_ensures _ _).bind fun _ => ensures_throw _ fun _ _ => trivial

/-- A request leaves the connection at rest if it settles, and what it returns is the answer to its
own frame. -/
theorem sendAndRead_recovers (cfg : Config φ) (env : CallEnv φ) (data : Request)
    (retrySafe : Bool) (henv : env.Orderly) (hq : Quiet env.first.acts)
    (hs : SendSettles cfg env retrySafe) :
    Ensures (fun w => w.Rested True ∧ Streams w) (sendAndRead cfg env data retrySafe)
      (fun r t => t.Answered cfg.decode data r ∧ t.Rested False ∧ Streams t)
      (fun _ t => t.Rested False ∧ Streams t) := by
  rintro w ⟨hr, hst⟩
  by_cases ho : w.output = true
  · have hboth : Both w := ⟨hst.1 ho, ho⟩
    refine (Ensures.tryCatch ((sendFrame_readResponse_ensures cfg env.first data (exchange_rested
      (accepts cfg) cfg.decode env.first data hq)).weaken_post ?_ fun _ _ h => h) fun first =>
        Ensures.ite (fun hio => ?_) fun hio => ensures_throw _ ?_) w
          ⟨hboth, hst.2 hboth.1, hr⟩
    · rintro r t ⟨hb, -, hc, hans, ht⟩
      exact ⟨hans, ht.mono False.elim, Streams.of_both hb hc⟩
    · -- an `IOException`: the socket is closed
      by_cases hfail : env.first.Fails (accepts cfg) cfg.decode
      · refine (closeSocketOnly_ensures _ _).bind fun _ => Ensures.ite (fun hsafe => Ensures.ite
          (fun hauto => ?_) fun _ => ensures_throw _ fun t ht => rested_streams_of_none ht)
            fun _ => ensures_throw _ fun t ht => rested_streams_of_none ht
        obtain ⟨hattempt, hagain⟩ := hs hfail hsafe hauto
        refine Ensures.bind (((connectSocket_opens cfg env.reconnect henv.reconnect).and
          (connectSocket_rested cfg env.reconnect False henv.reconnect hattempt)).mono
            (fun t ht => ⟨ht.1, rested_streams_of_none ht⟩) (fun _ _ h => h.1) fun _ _ h => h.2)
              fun _ => Ensures.of_fact fun hopens => ?_
        exact exchange_settles cfg env.retry data False.elim henv.retry (hagain hopens)
      · rintro t ⟨-, -, ⟨d, rfl, hd, -⟩ | ⟨-, hnone, -⟩⟩
        · exact absurd (fails_of_isIoException hd hio) hfail
        · exact absurd (Or.inl hnone) hfail
    · rintro t ⟨hb, hc, ⟨d, -, -, ht⟩ | ⟨hyes, -⟩⟩
      · exact ⟨ht.mono False.elim, Streams.of_both hb hc⟩
      · exact absurd (isIoException_of_isIo hyes) hio
  · have hsend : Ensures (· = w) (sendFrame env.first data) (fun _ _ => False)
        (fun e t => e = .nullPointer ∧ t = w) := by
      rintro w rfl
      simp [sendFrame, hasOutput, bind, EStateM.bind, ho]
      exact ⟨rfl, rfl⟩
    refine (Ensures.tryCatch (hsend.bind fun _ => fun _ h => h.elim) fun first =>
      Ensures.ite (fun hio => ?_) fun _ => ensures_throw _ ?_) w rfl
    · rintro t ⟨rfl, -⟩
      cases hio
    · rintro t ⟨-, rfl⟩
      exact ⟨hr.mono False.elim, hst⟩

theorem call_recovers (cfg : Config φ) (c : Call) (env : CallEnv φ) :
    Ensures (fun w => (w.Rested False ∧ Streams w) ∧ Recovers cfg w (c, env)) (call cfg env c)
      (fun res t => OwnAnswer cfg acceptPing c res t ∧ t.Rested False ∧ Streams t)
      (fun _ t => t.Rested False ∧ Streams t) := by
  rintro w ⟨hr, hw⟩
  cases hc : c.request? with
  | some frame =>
      have hsome : c.request?.isSome = true := by
        rw [hc]
        rfl
      refine ((call_ensures_of_request cfg env hc (fun _ h => ⟨h.1.mono False.elim, h.2⟩)
        fun _ => sendAndRead_recovers cfg env frame c.retrySafe hw.orderly (hw.ahead hsome).1
          (hw.sends hsome)).weaken_post ?_ fun _ _ h => h) w ⟨hr.1.drained hw.ahead hc, hr.2⟩
      exact fun _ _ h => ⟨ownAnswer_of_request hc h.1, h.2⟩
  | none =>
      cases c with
      | connect =>
          exact ensures_of_no_request (c := .connect) rfl
            (connect_rested cfg env False hw.orderly.connect hw.connects) w hr
      | close =>
          exact ensures_of_no_request (c := .close) rfl (close_rested (fun _ => True) False) w
            trivial
      | waitWatchEvent =>
          exact ensures_of_no_request (c := .waitWatchEvent) rfl
            (waitForWatchEvent_settled cfg env) w ⟨hr, (hw.waits rfl).1⟩
      | _ => cases hc

end Java

end LockStep

end DittoClient
