import DittoClient.LockStep.Session

/-!
# The Rust client

`DittoTcpClient` of the Rust crate. A call is a future that may be dropped at any of its
awaits: while it waits for the lock, connects, writes or reads. A drop is modelled as a
failure that passes every handler, so that nothing of the call runs after it. An error of
the first exchange sets the stream that is held to `None`; an error of the Auth exchange
or of the second exchange does not.
-/

namespace DittoClient

namespace LockStep

namespace Rust

open DittoClient.Protobuf
open DittoClient.Wire
open DittoClient.Program

/-- What an await can meet: a failure of the transport, or that the future is dropped
there. -/
inductive Fault (φ : Type)
  | io (f : φ)
  | dropped
  deriving DecidableEq

variable {φ : Type}

/-- Whether a failure is an error value, as opposed to a panic or a drop. -/
def isErr : Failure (Fault φ) → Bool
  | .decode (.runtime _) => false
  | .fault .dropped => false
  | _ => true

/-- Write a frame and read the response. -/
def sendLocked (cfg : Config (Fault φ)) (x : Exchange (Fault φ)) (frame : Request) :
    Client (Fault φ) ClientResponse :=
  exchange cfg.accepts cfg.decode x frame

def authenticateLocked (cfg : Config (Fault φ)) (x : Exchange (Fault φ)) :
    Client (Fault φ) Unit :=
  match cfg.authToken with
  | none => pure ()
  | some token => do
    let response ← sendLocked cfg x (.auth token)
    if response = .authOk then pure ()
    else do
      release
      throw (authFailure response)

/-- Open a stream, store it, and authenticate. -/
def ensureConnectedLocked (cfg : Config (Fault φ)) (a : Attempt (Fault φ)) :
    Client (Fault φ) Unit := do
  if ← connected then pure ()
  else do
    dial a.dial >>= hold
    authenticateLocked cfg a.auth

/-- Send a request and read the response, with a second attempt for a retry-safe
request. -/
def sendRequest (cfg : Config (Fault φ)) (env : CallEnv (Fault φ)) (frame : Request)
    (retrySafe : Bool) : Client (Fault φ) ClientResponse := do
  meet env.lock
  ensureConnectedLocked cfg env.connect
  tryCatch (sendLocked cfg env.first frame) fun err =>
    if isErr err then do
      release
      if retrySafe then
        if cfg.autoReconnect then do
          ensureConnectedLocked cfg env.reconnect
          sendLocked cfg env.retry frame
        else throw err
      else throw .outcomeUnknown
    else throw err

/-- The response to a ping may be an error; any other response means that it failed. -/
def acceptPing : ClientResponse → Except (Failure (Fault φ)) Result
  | .pong => .ok (.bool true)
  | .error code message => .error (.server code message)
  | _ => .ok (.bool false)

/-- An operation: validate the arguments, send the request, read the result off the
response. -/
def operation (cfg : Config (Fault φ)) (env : CallEnv (Fault φ)) (frame : Request)
    (retrySafe : Bool) (accept : ClientResponse → Except (Failure (Fault φ)) Result) :
    Client (Fault φ) Result := do
  cfg.check frame
  request (sendRequest cfg env frame retrySafe) accept

/-- The renaming of the errors of an atomic operation. -/
def normalizeAtomicTcpError (cfg : Config (Fault φ)) (name : String)
    (err : Failure (Fault φ)) : Failure (Fault φ) :=
  if isErr err then cfg.normalize name err else err

/-- An atomic operation. -/
def atomic (cfg : Config (Fault φ)) (env : CallEnv (Fault φ)) (name : String)
    (frame : Request) (accept : ClientResponse → Except (Failure (Fault φ)) Result) :
    Client (Fault φ) Result := do
  cfg.check frame
  mapFailure (normalizeAtomicTcpError cfg name)
    (request (sendRequest cfg env frame false) accept)

def connect (cfg : Config (Fault φ)) (env : CallEnv (Fault φ)) : Client (Fault φ) Result := do
  meet env.lock
  ensureConnectedLocked cfg env.connect
  pure .done

/-- The stream is taken before it is shut down. -/
def close (env : CallEnv (Fault φ)) : Client (Fault φ) Result := do
  meet env.lock
  if ← connected then do
    release
    meet env.shutdown
    pure .done
  else pure .done

def ping (cfg : Config (Fault φ)) (env : CallEnv (Fault φ)) : Client (Fault φ) Result :=
  request (sendRequest cfg env .ping true) acceptPing

def get (cfg : Config (Fault φ)) (env : CallEnv (Fault φ)) (key : String)
    (ns : Option String) : Client (Fault φ) Result :=
  operation cfg env (.get key ns) true acceptGet

def set (cfg : Config (Fault φ)) (env : CallEnv (Fault φ)) (key : String)
    (value : List UInt8) (ttlSecs : Option ℤ) (ns : Option String) :
    Client (Fault φ) Result :=
  operation cfg env (.set key value ttlSecs ns) false acceptSet

def setNx (cfg : Config (Fault φ)) (env : CallEnv (Fault φ)) (key : String)
    (value : List UInt8) (ttlSecs : Option ℤ) (ns : Option String) :
    Client (Fault φ) Result :=
  atomic cfg env "SET_NX" (.setNx key value ttlSecs ns) acceptSetNx

def incr (cfg : Config (Fault φ)) (env : CallEnv (Fault φ)) (key : String)
    (delta ttlSecsOnCreate : Option ℤ) (ns : Option String) : Client (Fault φ) Result :=
  atomic cfg env "INCR" (.incr key delta ttlSecsOnCreate ns) acceptIncr

def delete (cfg : Config (Fault φ)) (env : CallEnv (Fault φ)) (key : String)
    (ns : Option String) : Client (Fault φ) Result :=
  operation cfg env (.delete key ns) false acceptDelete

def deleteByPattern (cfg : Config (Fault φ)) (env : CallEnv (Fault φ)) (pattern : String)
    (ns : Option String) : Client (Fault φ) Result :=
  operation cfg env (.deleteByPattern pattern ns) false acceptDeleteByPattern

def setTtlByPattern (cfg : Config (Fault φ)) (env : CallEnv (Fault φ)) (pattern : String)
    (ttlSecs : Option ℤ) (ns : Option String) : Client (Fault φ) Result :=
  operation cfg env (.setTtlByPattern pattern ttlSecs ns) false acceptSetTtlByPattern

def watch (cfg : Config (Fault φ)) (env : CallEnv (Fault φ)) (key : String)
    (ns : Option String) : Client (Fault φ) Result :=
  operation cfg env (.watch key ns) false acceptWatch

def unwatch (cfg : Config (Fault φ)) (env : CallEnv (Fault φ)) (key : String)
    (ns : Option String) : Client (Fault φ) Result :=
  operation cfg env (.unwatch key ns) false acceptUnwatch

def waitWatchEvent (cfg : Config (Fault φ)) (env : CallEnv (Fault φ)) :
    Client (Fault φ) Result := do
  meet env.lock
  ensureConnectedLocked cfg env.connect
  request (awaitFrame cfg.accepts cfg.decode env.first.toArrival) acceptWatchEvent

/-- A public call. -/
def call (cfg : Config (Fault φ)) (env : CallEnv (Fault φ)) : Call → Client (Fault φ) Result
  | .connect => connect cfg env
  | .close => close env
  | .ping => ping cfg env
  | .get key ns => get cfg env key ns
  | .set key value ttl ns => set cfg env key value ttl ns
  | .setNx key value ttl ns => setNx cfg env key value ttl ns
  | .incr key delta ttl ns => incr cfg env key delta ttl ns
  | .delete key ns => delete cfg env key ns
  | .deleteByPattern pattern ns => deleteByPattern cfg env pattern ns
  | .setTtlByPattern pattern ttl ns => setTtlByPattern cfg env pattern ttl ns
  | .watch key ns => watch cfg env key ns
  | .unwatch key ns => unwatch cfg env key ns
  | .waitWatchEvent => waitWatchEvent cfg env

section Rested

/-- When a request leaves no exchange half-done: the future is not dropped inside the
first exchange, and if the first exchange fails, then a second attempt settles. -/
structure SendSettles (cfg : Config (Fault φ)) (env : CallEnv (Fault φ)) (retrySafe : Bool) :
    Prop where
  kept : env.first.outcome cfg.accepts cfg.decode = none →
    env.first.refused = true ∨ ¬ env.first.Meets .dropped
  retried : env.first.Fails cfg.accepts cfg.decode → retrySafe = true →
    cfg.autoReconnect = true →
      env.reconnect.Settles cfg.authToken cfg.accepts cfg.decode ∧
        env.RetrySettles cfg.authToken cfg.accepts cfg.decode

theorem isErr_of_isIo {e : Failure (Fault φ)} (h : e.isIo = true)
    (hf : e ≠ .fault .dropped) : isErr e = true := by
  cases e with
  | decode d => cases h
  | fault f =>
      cases f with
      | io f => rfl
      | dropped => exact absurd rfl hf
  | _ => rfl

theorem fails_of_isErr {accepts : ℕ → Bool} {decode : Decoder} {x : Exchange (Fault φ)}
    {d : DecodeError} (hd : x.outcome accepts decode = some (.error d))
    (h : isErr (.decode d : Failure (Fault φ)) = true) : x.Fails accepts decode := by
  cases d with
  | malformed message => exact Or.inr ⟨message, hd⟩
  | runtime message => cases h

/-- Connecting leaves the connection at rest unless the Auth exchange breaks off. When a
connection was opened, its Auth exchange was answered by AuthOk. -/
theorem ensureConnectedLocked_rested (cfg : Config (Fault φ)) (a : Attempt (Fault φ))
    (np : Prop) (ha : NoPush a.auth.acts) (w : World (Fault φ)) (hr : w.Rested np)
    (hs : w.held = none → a.Settles cfg.authToken cfg.accepts cfg.decode) :
    Ensures (· = w) (ensureConnectedLocked cfg a)
      (fun _ t => t.Connected ∧ t.Rested np ∧
        ((w.Connected ∧ t = w) ∨
          (w.held = none ∧ a.Opens cfg.authToken cfg.accepts cfg.decode)))
      (fun _ t => t.Rested np) := by
  refine (connected_ensures _ _).bind fun b => Ensures.ite (fun hb => ?_) fun hb => ?_
  · rintro t ⟨rfl, hconn⟩
    exact ⟨hconn.mp hb, hr, Or.inl ⟨hconn.mp hb, rfl⟩⟩
  · rintro t ⟨rfl, hconn⟩
    have hnone : t.held = none := by
      have hnot : ¬ t.Connected := fun h => hb (hconn.mpr h)
      simpa [World.Connected] using hnot
    refine Ensures.bind (P := (· = t)) ((dial_hold_ensures a.dial).weaken_post
      (fun _ _ h => h) fun e u h => by rw [h.2]; exact hr)
        (fun _ => Ensures.of_fact fun hdial => ?_) t rfl
    rw [authenticateLocked]
    cases htoken : cfg.authToken with
    | none =>
        exact ensures_pure _ fun u hu => ⟨hu.1, hu.2.mono fun _ => trivial,
          Or.inr ⟨hnone, hdial, by simp⟩⟩
    | some token =>
        refine (authenticate_rested cfg.accepts cfg.decode a.auth token release np ha
          (hs hnone hdial (by rw [htoken]; rfl)) ?_).weaken_post ?_ fun _ _ h => h
        · exact (release_ensures _ _).weaken_post (fun _ _ h => World.rested_of_none h)
            fun _ _ h => h
        · exact fun _ u hu => ⟨hu.2.1, hu.2.2, Or.inr ⟨hnone, hdial, fun _ => hu.1⟩⟩

/-- When a request that is sent with the connections of `w` leaves no exchange half-done:
opening a connection for it settles, and so does the request. -/
def SendsFrom (cfg : Config (Fault φ)) (env : CallEnv (Fault φ)) (retrySafe : Bool)
    (w : World (Fault φ)) : Prop :=
  env.lock = none →
    (w.held = none → env.connect.Settles cfg.authToken cfg.accepts cfg.decode) ∧
      (env.Reaches cfg.authToken cfg.accepts cfg.decode w → SendSettles cfg env retrySafe)

/-- A request leaves the connection at rest if it settles, and what it returns is the
answer to its own frame. -/
theorem sendRequest_rested (cfg : Config (Fault φ)) (env : CallEnv (Fault φ))
    (frame : Request) (retrySafe : Bool) (henv : env.Orderly) (hq : Quiet env.first.acts) :
    Ensures (fun w => w.Rested True ∧ SendsFrom cfg env retrySafe w)
      (sendRequest cfg env frame retrySafe)
      (fun r t => t.Answered cfg.decode frame r ∧ t.Rested env.NoPush)
      (fun _ t => t.Rested env.NoPush) := by
  have hmono : ∀ {t : World (Fault φ)}, t.Rested True → t.Rested env.NoPush :=
    fun h => h.mono fun _ => trivial
  refine Ensures.bind ((meet_ensures env.lock).weaken_post (fun _ _ h => h)
    fun _ _ h => hmono h.1.1) fun _ => Ensures.bind
      (R := fun _ t => SendSettles cfg env retrySafe ∧ t.Connected ∧ t.Rested True) ?_
        fun _ => Ensures.of_fact fun hs => ?_
  · rintro w ⟨⟨hr, hc⟩, hlock⟩
    refine ((ensureConnectedLocked_rested cfg env.connect True henv.connect w hr
      (hc hlock).1).weaken_post ?_ fun _ _ h => hmono h) w rfl
    rintro - t ⟨hconn, ht, hreach⟩
    exact ⟨(hc hlock).2 (hreach.imp_left And.left), hconn, ht⟩
  · refine Ensures.tryCatch ((exchange_rested cfg.accepts cfg.decode env.first frame
      hq).weaken_post ?_ fun _ _ h => h) fun err => Ensures.ite (fun herr => ?_) fun herr =>
        ensures_throw _ ?_
    · rintro r t ⟨-, -, hans, hr⟩
      exact ⟨hans, hr.mono And.left⟩
    · -- an error value: the stream is dropped
      by_cases hfail : env.first.Fails cfg.accepts cfg.decode
      · refine (release_ensures _ _).bind fun _ => Ensures.ite (fun hsafe => Ensures.ite
          (fun hauto => ?_) fun _ => ensures_throw _ fun t ht => World.rested_of_none ht)
            fun _ => ensures_throw _ fun t ht => World.rested_of_none ht
        obtain ⟨hattempt, hagain⟩ := hs.retried hfail hsafe hauto
        refine Ensures.bind (R := fun _ t => env.reconnect.Opens cfg.authToken cfg.accepts
          cfg.decode ∧ t.Connected ∧ t.Rested True) ?_ fun _ => Ensures.of_fact fun hopens => ?_
        · intro w hw
          refine ((ensureConnectedLocked_rested cfg env.reconnect True henv.reconnect w
            (World.rested_of_none hw) fun _ => hattempt).weaken_post ?_
              fun _ _ h => hmono h) w rfl
          rintro - t ⟨hc, hr, ⟨hcon, -⟩ | ⟨-, hopens⟩⟩
          · rw [World.Connected, hw] at hcon
            cases hcon
          · exact ⟨hopens, hc, hr⟩
        · exact retry_rested cfg.accepts cfg.decode env.retry frame And.right henv.retry
            (hagain hopens)
      · rintro t ⟨-, ⟨d, rfl, hd, -⟩ | ⟨-, hnone, -⟩⟩
        · exact absurd (fails_of_isErr hd herr) hfail
        · exact absurd (Or.inl hnone) hfail
    · rintro t ⟨-, ⟨d, -, -, hr⟩ | ⟨hio, hnone, hmeets, hr⟩⟩
      · exact hr.mono And.left
      · have hdropped : err = .fault .dropped := by
          by_contra hne
          exact herr (isErr_of_isIo hio hne)
        rcases hs.kept hnone with h | h
        · exact (hr h).mono And.left
        · exact absurd (hmeets _ hdropped) h

/-- A call that sends a request validates its arguments, sends the request, and reads
the result off the response. -/
theorem call_ensures_of_request (cfg : Config (Fault φ)) (env : CallEnv (Fault φ)) {c : Call}
    {frame : Request} (hc : c.request? = some frame) {P R : World (Fault φ) → Prop}
    {A : ClientResponse → World (Fault φ) → Prop} (hPR : ∀ w, P w → R w)
    (hsend : cfg.Admits c → Ensures P (sendRequest cfg env frame c.retrySafe)
      (fun r t => A r t ∧ R t) (fun _ => R)) :
    Ensures P (call cfg env c)
      (fun res t => Computed acceptPing c A res t ∧ R t) (fun _ => R) := by
  have hcheck : Ensures P (cfg.check frame)
      (fun _ w => cfg.validate frame = .ok () ∧ P w) (fun _ => R) :=
    (check_ensures cfg frame).weaken_post (fun _ _ h => h) fun _ w h => hPR w h.2
  have hok : cfg.validate frame = .ok () → cfg.Admits c := fun h frame' h' _ => by
    rw [hc] at h'
    cases h'
    exact h
  cases c with
  | connect => cases hc
  | close => cases hc
  | waitWatchEvent => cases hc
  | ping =>
      cases hc
      exact request_ensures _ (hsend fun _ _ h => absurd rfl h)
  | setNx key value ttl ns =>
      cases hc
      exact hcheck.bind fun _ => Ensures.of_fact fun h =>
        mapFailure_ensures _ (request_ensures _ (hsend (hok h)))
  | incr key delta ttl ns =>
      cases hc
      exact hcheck.bind fun _ => Ensures.of_fact fun h =>
        mapFailure_ensures _ (request_ensures _ (hsend (hok h)))
  | _ =>
      cases hc
      exact hcheck.bind fun _ => Ensures.of_fact fun h => request_ensures _ (hsend (hok h))

/-- The calls that send a request. -/
theorem call_rested_of_request (cfg : Config (Fault φ)) (env : CallEnv (Fault φ)) {c : Call}
    {frame : Request} (hc : c.request? = some frame) (henv : env.Orderly)
    (hq : Quiet env.first.acts) :
    Ensures (fun w => w.Rested True ∧ (cfg.Admits c → SendsFrom cfg env c.retrySafe w))
      (call cfg env c)
      (fun res t => OwnAnswer cfg acceptPing c res t ∧ t.Rested env.NoPush)
      (fun _ t => t.Rested env.NoPush) := by
  refine (call_ensures_of_request cfg env hc (fun _ h => h.1.mono fun _ => trivial)
    fun hadmit => (sendRequest_rested cfg env frame c.retrySafe henv hq).strengthen_pre
      fun _ h => ⟨h.1, h.2 hadmit⟩).weaken_post ?_ fun _ _ h => h
  rintro res t ⟨h, hrest⟩
  exact ⟨ownAnswer_of_request hc h, hrest⟩

theorem connect_rested (cfg : Config (Fault φ)) (env : CallEnv (Fault φ)) (np : Prop)
    (ha : NoPush env.connect.auth.acts) :
    Ensures (fun w => w.Rested np ∧ (env.lock = none → w.held = none →
        env.connect.Settles cfg.authToken cfg.accepts cfg.decode))
      (connect cfg env) (fun _ t => t.Rested np) (fun _ t => t.Rested np) := by
  refine Ensures.bind ((meet_ensures env.lock).weaken_post (fun _ _ h => h)
    fun _ _ h => h.1.1) fun _ => Ensures.bind (R := fun _ t => t.Rested np) ?_
      fun _ => ensures_pure _ fun _ h => h
  rintro w ⟨⟨hr, hc⟩, hlock⟩
  exact ((ensureConnectedLocked_rested cfg env.connect np ha w hr (hc hlock)).weaken_post
    (fun _ _ h => h.2.1) fun _ _ h => h) w rfl

theorem close_rested (env : CallEnv (Fault φ)) (np : Prop) :
    Ensures (World.Rested np) (close env) (fun _ t => t.Rested np) (fun _ t => t.Rested np) := by
  refine Ensures.bind ((meet_ensures env.lock).weaken_post (fun _ _ h => h.1)
    fun _ _ h => h.1) fun _ => ?_
  refine (connected_ensures _ _).bind fun b => Ensures.ite (fun _ => ?_) fun _ => ?_
  · refine (release_ensures _ _).bind fun _ => Ensures.bind (R := fun _ t => t.Rested np) ?_
      fun _ => ensures_pure _ fun _ h => h
    exact (meet_ensures env.shutdown).weaken_post (fun _ t h => World.rested_of_none h.1)
      fun _ t h => World.rested_of_none h.1
  · exact ensures_pure _ fun w hw => hw.1

theorem waitWatchEvent_rested (cfg : Config (Fault φ)) (env : CallEnv (Fault φ))
    (hconnect : NoPush env.connect.auth.acts) (ha : NoPush env.first.acts) :
    Ensures (fun w => w.Rested True ∧ (env.lock = none → w.held = none →
        env.connect.Settles cfg.authToken cfg.accepts cfg.decode))
      (waitWatchEvent cfg env) (fun _ _ => False) (fun _ t => t.Rested True) := by
  refine Ensures.bind ((meet_ensures env.lock).weaken_post (fun _ _ h => h)
    fun _ _ h => h.1.1) fun _ => Ensures.bind
      (R := fun _ t => t.Connected ∧ t.Rested True) ?_ fun _ => ?_
  · rintro w ⟨⟨hr, hc⟩, hlock⟩
    exact ((ensureConnectedLocked_rested cfg env.connect True hconnect w hr
      (hc hlock)).weaken_post
      (fun _ _ h => ⟨h.1, h.2.1⟩) fun _ _ h => h) w rfl
  · refine (request_ensures (A := fun _ _ => False) _ ((awaitFrame_rested cfg.accepts
      cfg.decode ha).weaken_post (fun _ _ h => h.elim) fun _ _ h => h)).weaken_post ?_
        fun _ _ h => h
    rintro res t ⟨⟨r, h, -⟩, -⟩
    exact h

/-- A wait on the connection that is held. On a connection that is opened for the wait
nothing is watched, hence nothing pushed. -/
theorem waitWatchEvent_settled (cfg : Config (Fault φ)) (env : CallEnv (Fault φ))
    (hconnect : NoPush env.connect.auth.acts)
    (hs : env.connect.Settles cfg.authToken cfg.accepts cfg.decode) :
    Ensures (fun w => w.Rested False ∧ WaitDelivers cfg.accepts env.first.toArrival w ∧
        (w.held = none → NoPush env.first.acts))
      (waitWatchEvent cfg env) (fun _ t => t.Rested False) (fun _ t => t.Rested False) := by
  rintro w ⟨hr, hdel, hfresh⟩
  by_cases hc : w.Connected
  · have hwait : Ensures (· = w) (waitWatchEvent cfg env) (fun _ t => t.Rested False)
        (fun _ t => t.Rested False) := by
      refine Ensures.bind ((meet_ensures env.lock).weaken_post (fun _ _ h => h.1) ?_)
        fun _ => Ensures.bind (R := fun _ t => t = w) ?_ fun _ => ?_
      · rintro e t ⟨rfl, -⟩
        exact hr
      · refine ((ensureConnectedLocked_rested cfg env.connect False hconnect w hr
          fun _ => hs).weaken_post ?_ fun _ _ h => h)
        rintro - t ⟨-, -, ⟨-, ht⟩ | ⟨hnone, -⟩⟩
        · exact ht
        · rw [World.Connected, hnone] at hc
          cases hc
      · refine (request_ensures (A := fun _ _ => True) _ (((awaitFrame_settled cfg.accepts
          cfg.decode env.first.toArrival).mono ?_ (fun _ _ h => ⟨trivial, h⟩)
            fun _ _ h => h))).weaken_post (fun _ _ h => h.2) fun _ _ h => h
        rintro t rfl
        exact ⟨hc, hr, hdel⟩
    exact hwait w rfl
  · have hnone : w.held = none := by simpa [World.Connected] using hc
    exact ((waitWatchEvent_rested cfg env hconnect (hfresh hnone)).weaken_post
      (fun _ _ h => h.elim) fun _ _ h => h.mono False.elim) w
        ⟨World.rested_of_none hnone, fun _ _ => hs⟩

end Rested

end Rust

end LockStep

end DittoClient
