import DittoClient.LockStep.Session

/-!
# The Python client

`DittoTcpClient` of the Python package. A request needs a connection: it is opened by
`connect`, and again inside a request only after the connection was lost under a
retry-safe request with automatic reconnection. Failures of the `OSError` family drop the
connection; the error of a payload that cannot be decoded does not, and neither does any
failure of the Auth exchange or of the second exchange.
-/

namespace DittoClient

namespace LockStep

namespace Python

open DittoClient.Protobuf
open DittoClient.Wire
open DittoClient.Program

variable {φ : Type}

/-- Shut the socket down and forget it. An unexpected error of `shutdown` is raised
before the socket is forgotten. -/
def closeLocked (shutdown : Option φ) : Client φ Unit := do
  if ← connected then do
    meet shutdown
    release
  else pure ()

/-- Open a connection, store it, and authenticate. -/
def connectLocked (cfg : Config φ) (a : Attempt φ) : Client φ Unit := do
  if ← connected then pure ()
  else do
    dial a.dial >>= hold
    match cfg.authToken with
    | none => pure ()
    | some token => do
      let resp ← exchange cfg.accepts cfg.decode a.auth (.auth token)
      if resp = .authOk then pure ()
      else do
        closeLocked a.shutdown
        throw (authFailure resp)

/-- Send a request and read the response, with a second attempt for a retry-safe
request. -/
def send (cfg : Config φ) (env : CallEnv φ) (frame : Request) (retrySafe : Bool) :
    Client φ ClientResponse := do
  if ← connected then
    tryCatch (exchange cfg.accepts cfg.decode env.first frame) fun first =>
      if first.isIo then do
        closeLocked env.shutdown
        if retrySafe then
          if cfg.autoReconnect then do
            connectLocked cfg env.reconnect
            exchange cfg.accepts cfg.decode env.retry frame
          else throw first
        else throw .outcomeUnknown
      else throw first
  else throw .notConnected

/-- An operation: validate the arguments, send the request, read the result off the
response. -/
def operation (cfg : Config φ) (env : CallEnv φ) (frame : Request) (retrySafe : Bool)
    (accept : ClientResponse → Except (Failure φ) Result) : Client φ Result := do
  cfg.check frame
  request (send cfg env frame retrySafe) accept

def connect (cfg : Config φ) (env : CallEnv φ) : Client φ Result := do
  connectLocked cfg env.connect
  pure .done

def close (env : CallEnv φ) : Client φ Result := do
  closeLocked env.shutdown
  pure .done

def ping (cfg : Config φ) (env : CallEnv φ) : Client φ Result :=
  request (send cfg env .ping true) acceptPing

def get (cfg : Config φ) (env : CallEnv φ) (key : String) (ns : Option String) :
    Client φ Result :=
  operation cfg env (.get key ns) true acceptGet

def set (cfg : Config φ) (env : CallEnv φ) (key : String) (value : List UInt8)
    (ttlSecs : Option ℤ) (ns : Option String) : Client φ Result :=
  operation cfg env (.set key value ttlSecs ns) false acceptSet

def setNx (cfg : Config φ) (env : CallEnv φ) (key : String) (value : List UInt8)
    (ttlSecs : Option ℤ) (ns : Option String) : Client φ Result :=
  operation cfg env (.setNx key value ttlSecs ns) false acceptSetNx

def incr (cfg : Config φ) (env : CallEnv φ) (key : String)
    (delta ttlSecsOnCreate : Option ℤ) (ns : Option String) : Client φ Result :=
  operation cfg env (.incr key delta ttlSecsOnCreate ns) false acceptIncr

def delete (cfg : Config φ) (env : CallEnv φ) (key : String) (ns : Option String) :
    Client φ Result :=
  operation cfg env (.delete key ns) false acceptDelete

def deleteByPattern (cfg : Config φ) (env : CallEnv φ) (pattern : String)
    (ns : Option String) : Client φ Result :=
  operation cfg env (.deleteByPattern pattern ns) false acceptDeleteByPattern

def setTtlByPattern (cfg : Config φ) (env : CallEnv φ) (pattern : String)
    (ttlSecs : Option ℤ) (ns : Option String) : Client φ Result :=
  operation cfg env (.setTtlByPattern pattern ttlSecs ns) false acceptSetTtlByPattern

def watch (cfg : Config φ) (env : CallEnv φ) (key : String) (ns : Option String) :
    Client φ Result :=
  operation cfg env (.watch key ns) false acceptWatch

def unwatch (cfg : Config φ) (env : CallEnv φ) (key : String) (ns : Option String) :
    Client φ Result :=
  operation cfg env (.unwatch key ns) false acceptUnwatch

def waitWatchEvent (cfg : Config φ) (env : CallEnv φ) : Client φ Result := do
  if ← connected then
    request (awaitFrame cfg.accepts cfg.decode env.first.toArrival) acceptWatchEvent
  else throw .notConnected

/-- A public call. -/
def call (cfg : Config φ) (env : CallEnv φ) : Call → Client φ Result
  | .connect => connect cfg env
  | .close => close env
  | .ping => ping cfg env
  | .get key ns => get cfg env key ns
  | .set key value ttl ns => set cfg env key value ttl ns
  | .setNx key value ttl ns => setNx cfg env key value ttl ns
  | .incr key delta ttl ns => incr cfg env key delta ttl ns
  | .delete key ns => delete cfg env key ns
  | .deleteByPattern pattern ns => deleteByPattern cfg env pattern ns
  | .setTtlByPattern pattern ttl ns => setTtlByPattern cfg env pattern ttl ns
  | .watch key ns => watch cfg env key ns
  | .unwatch key ns => unwatch cfg env key ns
  | .waitWatchEvent => waitWatchEvent cfg env

section Rested

/-- Closing a connection forgets it, or raises and leaves it as it was. -/
theorem closeLocked_rested (shutdown : Option φ) (np : Prop) :
    Ensures (fun w => w.Connected ∧ (shutdown.isSome = true → w.Rested np))
      (closeLocked shutdown) (fun _ t => shutdown = none ∧ t.held = none)
      (fun _ t => t.Rested np) := by
  refine (connected_ensures _ _).bind fun b => Ensures.ite (fun _ => ?_) fun hb => ?_
  · refine ((meet_ensures shutdown).weaken_post (fun _ _ h => h) ?_).bind fun _ => ?_
    · rintro e t ⟨⟨⟨-, h⟩, -⟩, hs⟩
      exact h hs
    · rintro t ⟨-, hnone⟩
      exact ((release_ensures (· = t) (fun _ t => t.Rested np)).weaken_post
        (fun _ _ h => ⟨hnone, h⟩) fun _ _ h => h) t rfl
  · exact ensures_pure _ fun w hw => absurd (hw.2.mpr hw.1.1) hb

/-- When a request leaves no exchange half-done: if the first exchange breaks off, then
`shutdown` does not raise, unless nothing was written, and a second attempt settles. -/
def SendSettles (cfg : Config φ) (env : CallEnv φ) (retrySafe : Bool) : Prop :=
  env.first.outcome cfg.accepts cfg.decode = none →
    (env.shutdown.isSome = true → env.first.refused = true) ∧
      (env.shutdown.isSome = false → retrySafe = true → cfg.autoReconnect = true →
        env.reconnect.Settles cfg.authToken cfg.accepts cfg.decode ∧
          env.RetrySettles cfg.authToken cfg.accepts cfg.decode)

/-- Connecting leaves the connection at rest unless the Auth exchange breaks off. When a
connection was opened, its Auth exchange was answered by AuthOk. -/
theorem connectLocked_rested (cfg : Config φ) (a : Attempt φ) (held : Bool) (np : Prop)
    (ha : NoPush a.auth.acts)
    (hs : held = false → a.Settles cfg.authToken cfg.accepts cfg.decode) :
    Ensures (fun w => w.held.isSome = held ∧ w.Rested np) (connectLocked cfg a)
      (fun _ t => (held = false → a.Opens cfg.authToken cfg.accepts cfg.decode) ∧
        t.Connected ∧ t.Rested np)
      (fun _ t => t.Rested np) := by
  refine (connected_ensures _ _).bind fun b => Ensures.ite (fun hb => ?_) fun hb => ?_
  · refine ensures_pure _ ?_
    rintro w ⟨⟨hheld, hrest⟩, hconn⟩
    have hc := hconn.mp hb
    exact ⟨fun h => absurd (hc.symm.trans (hheld.trans h)) (by simp), hc, hrest⟩
  · have hfalse : ∀ w : World φ, (w.held.isSome = held ∧ w.Rested np) ∧
        (b = true ↔ w.Connected) → held = false := by
      rintro w ⟨⟨hheld, -⟩, hconn⟩
      rw [← hheld, Bool.eq_false_iff]
      exact fun h => hb (hconn.mpr h)
    intro w hw
    have hf := hfalse w hw
    refine Ensures.bind (P := (· = w)) (R := fun _ t => a.dial.isOk = true ∧ t.Connected ∧
      t.Rested True) ?_ (fun _ => ?_) w rfl
    · refine (dial_hold_ensures a.dial).weaken_post (fun _ _ h => h) ?_
      rintro e t ⟨-, rfl⟩
      exact hw.1.2
    · cases htoken : cfg.authToken with
      | none =>
          refine ensures_pure _ fun t ht =>
            ⟨fun _ => ⟨ht.1, by simp⟩, ht.2.1, ht.2.2.mono fun _ => trivial⟩
      | some token =>
          refine Ensures.of_fact fun hdial => ?_
          have hauth : a.auth.Settles cfg.accepts cfg.decode := hs hf hdial (by rw [htoken]; rfl)
          refine ((authenticate_rested cfg.accepts cfg.decode a.auth token
            (closeLocked a.shutdown) np ha hauth ?_).mono (fun _ h => h) ?_ fun _ _ h => h)
          · exact ((closeLocked_rested a.shutdown np).mono (fun t h => ⟨h.1, fun _ => h.2⟩)
              (fun _ _ h => World.rested_of_none h.2) fun _ _ h => h)
          · exact fun _ t h => ⟨fun _ => ⟨hdial, fun _ => h.1⟩, h.2⟩

/-- A request leaves the connection at rest if it settles, and what it returns is the
answer to its own frame. -/
theorem send_rested (cfg : Config φ) (env : CallEnv φ) (frame : Request) (retrySafe : Bool)
    (henv : env.Orderly) (hq : Quiet env.first.acts) :
    Ensures (fun w => w.Rested True ∧ (w.Connected → SendSettles cfg env retrySafe))
      (send cfg env frame retrySafe)
      (fun r t => t.Answered cfg.decode frame r ∧ t.Rested env.NoPush)
      (fun _ t => t.Rested env.NoPush) := by
  refine (connected_ensures _ _).bind fun b => Ensures.ite (fun hb => ?_) fun hb => ?_
  · refine (Ensures.of_fact (P := fun w => w.Connected ∧ w.Rested True)
      fun hs : SendSettles cfg env retrySafe => ?_).strengthen_pre
        fun w hw => ⟨hw.1.2 (hw.2.mp hb), hw.2.mp hb, hw.1.1⟩
    refine Ensures.tryCatch ((exchange_rested cfg.accepts cfg.decode env.first frame
      hq).weaken_post ?_ fun _ _ h => h) fun first => Ensures.ite (fun hio => ?_) fun hio => ensures_throw _ ?_
    · rintro r t ⟨-, -, hans, hr⟩
      exact ⟨hans, hr.mono And.left⟩
    · -- the first exchange broke off
      by_cases hout : env.first.outcome cfg.accepts cfg.decode = none
      · obtain ⟨hshut, hretry⟩ := hs hout
        refine ((closeLocked_rested env.shutdown env.NoPush).strengthen_pre ?_).bind
          fun _ => Ensures.of_fact fun hnone => Ensures.ite (fun hsafe => Ensures.ite
            (fun hauto => ?_) fun _ => ?_) fun _ => ?_
        · rintro t ⟨hc, ⟨d, rfl, -⟩ | ⟨-, -, -, hr⟩⟩
          · cases hio
          · exact ⟨hc, fun hsome => (hr (hshut hsome)).mono And.left⟩
        · obtain ⟨hattempt, hagain⟩ := hretry (by rw [hnone]; rfl) hsafe hauto
          refine (((connectLocked_rested cfg env.reconnect false True henv.reconnect
            fun _ => hattempt).mono ?_ (fun _ _ h => h) ?_).bind fun _ =>
              Ensures.of_fact fun hopens => ?_)
          · exact fun t ht => ⟨by rw [ht]; rfl, World.rested_of_none ht⟩
          · exact fun _ t ht => ht.mono fun _ => trivial
          · exact retry_rested cfg.accepts cfg.decode env.retry frame And.right henv.retry
              (hagain (hopens rfl))
        · exact ensures_throw _ fun t ht => World.rested_of_none ht
        · exact ensures_throw _ fun t ht => World.rested_of_none ht
      · rintro t ⟨-, ⟨d, rfl, -⟩ | ⟨-, hnone, -⟩⟩
        · cases hio
        · exact absurd hnone hout
    · rintro t ⟨-, ⟨d, -, -, hr⟩ | ⟨hyes, -⟩⟩
      · exact hr.mono And.left
      · exact absurd hyes hio
  · exact ensures_throw _ fun w hw => hw.1.1.mono fun _ => trivial

theorem connect_rested (cfg : Config φ) (env : CallEnv φ) (np : Prop)
    (ha : NoPush env.connect.auth.acts) :
    Ensures (fun w => w.Rested np ∧
        (w.held = none → env.connect.Settles cfg.authToken cfg.accepts cfg.decode))
      (connect cfg env) (fun _ t => t.Rested np) (fun _ t => t.Rested np) := by
  rintro w ⟨hr, hs⟩
  have hconnect : Ensures (· = w) (connect cfg env) (fun _ t => t.Rested np)
      (fun _ t => t.Rested np) := by
    refine ((connectLocked_rested cfg env.connect w.held.isSome np ha
      fun h => hs (by simpa using h)).mono ?_ (fun _ _ h => h.2.2) fun _ _ h => h).bind
        fun _ => ensures_pure _ fun _ h => h
    rintro w rfl
    exact ⟨rfl, hr⟩
  exact hconnect w rfl

theorem close_rested (env : CallEnv φ) (np : Prop) :
    Ensures (World.Rested np) (close env) (fun _ t => t.Rested np) (fun _ t => t.Rested np) := by
  have hclose : Ensures (fun w => w.Connected ∧ (env.shutdown.isSome = true → w.Rested np))
      (close env) (fun _ t => t.Rested np) (fun _ t => t.Rested np) :=
    ((closeLocked_rested env.shutdown np).weaken_post
      (fun _ _ h => World.rested_of_none h.2) fun _ _ h => h).bind
        fun _ => ensures_pure _ fun _ h => h
  intro w hr
  by_cases hc : w.Connected
  · exact hclose w ⟨hc, fun _ => hr⟩
  · have hidle : closeLocked env.shutdown w = .ok () w := by
      have hf : w.held.isSome = false := by simpa [World.Connected] using hc
      simp only [closeLocked, connected, bind, EStateM.bind, hf]
      rfl
    simp only [close, bind, EStateM.bind, hidle]
    exact hr

theorem waitWatchEvent_settled (cfg : Config φ) (env : CallEnv φ) :
    Ensures (fun w => w.Rested False ∧ WaitDelivers cfg.accepts env.first.toArrival w)
      (waitWatchEvent cfg env) (fun _ t => t.Rested False) (fun _ t => t.Rested False) := by
  refine (connected_ensures _ _).bind fun b => Ensures.ite (fun hb => ?_) fun _ => ?_
  · refine ((request_ensures (A := fun _ _ => True) _ (((awaitFrame_settled cfg.accepts
      cfg.decode env.first.toArrival).strengthen_pre ?_).weaken_post
        (fun _ _ h => ⟨trivial, h⟩) fun _ _ h => h)).weaken_post (fun _ _ h => h.2) fun _ _ h => h)
    rintro w ⟨⟨hr, hd⟩, hc⟩
    exact ⟨hc.mp hb, hr, hd⟩
  · exact ensures_throw _ fun w hw => hw.1.1

theorem waitWatchEvent_rested (cfg : Config φ) (env : CallEnv φ) (ha : NoPush env.first.acts) :
    Ensures (World.Rested True) (waitWatchEvent cfg env)
      (fun _ _ => False) (fun _ t => t.Rested True) := by
  refine (connected_ensures _ _).bind fun b => Ensures.ite (fun hb => ?_) fun _ => ?_
  · refine ((request_ensures (A := fun _ _ => False) _ (((awaitFrame_rested cfg.accepts
      cfg.decode ha).strengthen_pre ?_).weaken_post
        (fun _ _ h => h.elim) fun _ _ h => h)).weaken_post ?_ fun _ _ h => h)
    · exact fun w hw => ⟨hw.2.mp hb, hw.1⟩
    · rintro res t ⟨⟨r, h, -⟩, -⟩
      exact h
  · exact ensures_throw _ fun w hw => hw.1

/-- A call that sends a request validates its arguments, sends the request, and reads
the result off the response. -/
theorem call_ensures_of_request (cfg : Config φ) (env : CallEnv φ) {c : Call}
    {frame : Request} (hc : c.request? = some frame) {P R : World φ → Prop}
    {A : ClientResponse → World φ → Prop} (hPR : ∀ w, P w → R w)
    (hsend : cfg.Admits c → Ensures P (send cfg env frame c.retrySafe)
      (fun r t => A r t ∧ R t) (fun _ => R)) :
    Ensures P (call cfg env c)
      (fun res t => Computed acceptPing c A res t ∧ R t) (fun _ => R) := by
  have hcheck : Ensures P (cfg.check frame)
      (fun _ w => cfg.validate frame = .ok () ∧ P w) (fun _ => R) :=
    (check_ensures cfg frame).weaken_post (fun _ _ h => h) fun _ w h => hPR w h.2
  have hok : cfg.validate frame = .ok () → cfg.Admits c := fun h frame' h' _ => by
    rw [hc] at h'
    cases h'
    exact h
  cases c with
  | connect => cases hc
  | close => cases hc
  | waitWatchEvent => cases hc
  | ping =>
      cases hc
      exact request_ensures _ (hsend fun _ _ h => absurd rfl h)
  | _ =>
      cases hc
      exact hcheck.bind fun _ => Ensures.of_fact fun h => request_ensures _ (hsend (hok h))

/-- The calls that send a request. -/
theorem call_rested_of_request (cfg : Config φ) (env : CallEnv φ) {c : Call}
    {frame : Request} (hc : c.request? = some frame) (henv : env.Orderly)
    (hq : Quiet env.first.acts) :
    Ensures (fun w => w.Rested True ∧
        (cfg.Admits c → w.Connected → SendSettles cfg env c.retrySafe))
      (call cfg env c)
      (fun res t => OwnAnswer cfg acceptPing c res t ∧ t.Rested env.NoPush)
      (fun _ t => t.Rested env.NoPush) := by
  refine (call_ensures_of_request cfg env hc (fun _ h => h.1.mono fun _ => trivial)
    fun hadmit => (send_rested cfg env frame c.retrySafe henv hq).strengthen_pre
      fun _ h => ⟨h.1, h.2 hadmit⟩).weaken_post ?_ fun _ _ h => h
  rintro res t ⟨h, hrest⟩
  exact ⟨ownAnswer_of_request hc h, hrest⟩

end Rested

end Python

end LockStep

end DittoClient
