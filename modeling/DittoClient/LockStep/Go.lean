import DittoClient.LockStep.Session

/-!
# The Go client

`TCPClient` of the Go package. Every operation connects first if it has to. Any error,
an undecodable response included, drops the connection of an Auth exchange and of a first
exchange; an error of the second exchange does not, and neither does a panic of the
decoder, which passes every handler.
-/

namespace DittoClient

namespace LockStep

namespace Go

open DittoClient.Protobuf
open DittoClient.Wire
open DittoClient.Program

variable {φ : Type}

/-- Whether a failure is an error value, as opposed to a panic. -/
def isErr : Failure φ → Bool
  | .decode (.runtime _) => false
  | _ => true

/-- The Auth token, where the empty string stands for none. -/
def authToken (cfg : Config φ) : Option String :=
  cfg.authToken.filter fun token => decide (token ≠ "")

/-- Write a frame and read the response. -/
def sendLocked (cfg : Config φ) (x : Exchange φ) (frame : Request) :
    Client φ ClientResponse :=
  exchange cfg.accepts cfg.decode x frame

/-- Open a connection, store it in the place of the one that is held, and
authenticate. -/
def connectLocked (cfg : Config φ) (a : Attempt φ) : Client φ Unit := do
  dial a.dial >>= hold
  match authToken cfg with
  | none => pure ()
  | some token => do
    let resp ← tryCatch (sendLocked cfg a.auth (.auth token)) fun err =>
      if isErr err then do
        release
        throw err
      else throw err
    if resp = .authOk then pure ()
    else do
      release
      throw (authFailure resp)

def ensureConnectedLocked (cfg : Config φ) (a : Attempt φ) : Client φ Unit := do
  if ← connected then pure () else connectLocked cfg a

/-- Send a request and read the response, with a second attempt for a retry-safe
request. -/
def sendRequestLocked (cfg : Config φ) (env : CallEnv φ) (frame : Request)
    (retrySafe : Bool) : Client φ ClientResponse :=
  tryCatch (sendLocked cfg env.first frame) fun err =>
    if isErr err then do
      release
      if retrySafe then
        if cfg.autoReconnect then do
          ensureConnectedLocked cfg env.reconnect
          sendLocked cfg env.retry frame
        else throw err
      else throw .outcomeUnknown
    else throw err

/-- An operation: connect, validate the arguments, send the request, read the result off
the response. -/
def operation (cfg : Config φ) (env : CallEnv φ) (frame : Request) (retrySafe : Bool)
    (accept : ClientResponse → Except (Failure φ) Result) : Client φ Result := do
  ensureConnectedLocked cfg env.connect
  cfg.check frame
  request (sendRequestLocked cfg env frame retrySafe) accept

/-- The renaming of the errors of an atomic operation. A panic is no error. -/
def normalizeAtomicTCPErr (cfg : Config φ) (name : String) (err : Failure φ) : Failure φ :=
  if isErr err then cfg.normalize name err else err

/-- An atomic operation. -/
def atomic (cfg : Config φ) (env : CallEnv φ) (name : String) (frame : Request)
    (accept : ClientResponse → Except (Failure φ) Result) : Client φ Result := do
  mapFailure (normalizeAtomicTCPErr cfg name) (ensureConnectedLocked cfg env.connect)
  cfg.check frame
  mapFailure (normalizeAtomicTCPErr cfg name)
    (request (sendRequestLocked cfg env frame false) accept)

def connect (cfg : Config φ) (env : CallEnv φ) : Client φ Result := do
  connectLocked cfg env.connect
  pure .done

/-- The error of closing is returned when the connection is already forgotten. -/
def close (env : CallEnv φ) : Client φ Result := do
  if ← connected then do
    release
    meet env.shutdown
    pure .done
  else pure .done

def ping (cfg : Config φ) (env : CallEnv φ) : Client φ Result := do
  ensureConnectedLocked cfg env.connect
  request (sendRequestLocked cfg env .ping true) acceptPing

def get (cfg : Config φ) (env : CallEnv φ) (key : String) (ns : Option String) :
    Client φ Result :=
  operation cfg env (.get key ns) true acceptGet

def set (cfg : Config φ) (env : CallEnv φ) (key : String) (value : List UInt8)
    (ttlSecs : Option ℤ) (ns : Option String) : Client φ Result :=
  operation cfg env (.set key value ttlSecs ns) false acceptSet

def setNX (cfg : Config φ) (env : CallEnv φ) (key : String) (value : List UInt8)
    (ttlSecs : Option ℤ) (ns : Option String) : Client φ Result :=
  atomic cfg env "SET_NX" (.setNx key value ttlSecs ns) acceptSetNx

def incr (cfg : Config φ) (env : CallEnv φ) (key : String)
    (delta ttlSecsOnCreate : Option ℤ) (ns : Option String) : Client φ Result :=
  atomic cfg env "INCR" (.incr key delta ttlSecsOnCreate ns) acceptIncr

def delete (cfg : Config φ) (env : CallEnv φ) (key : String) (ns : Option String) :
    Client φ Result :=
  operation cfg env (.delete key ns) false acceptDelete

def deleteByPattern (cfg : Config φ) (env : CallEnv φ) (pattern : String)
    (ns : Option String) : Client φ Result :=
  operation cfg env (.deleteByPattern pattern ns) false acceptDeleteByPattern

def setTtlByPattern (cfg : Config φ) (env : CallEnv φ) (pattern : String)
    (ttlSecs : Option ℤ) (ns : Option String) : Client φ Result :=
  operation cfg env (.setTtlByPattern pattern ttlSecs ns) false acceptSetTtlByPattern

def watch (cfg : Config φ) (env : CallEnv φ) (key : String) (ns : Option String) :
    Client φ Result :=
  operation cfg env (.watch key ns) false acceptWatch

def unwatch (cfg : Config φ) (env : CallEnv φ) (key : String) (ns : Option String) :
    Client φ Result :=
  operation cfg env (.unwatch key ns) false acceptUnwatch

def waitWatchEvent (cfg : Config φ) (env : CallEnv φ) : Client φ Result := do
  ensureConnectedLocked cfg env.connect
  request (awaitFrame cfg.accepts cfg.decode env.first.toArrival) acceptWatchEvent

/-- A public call. -/
def call (cfg : Config φ) (env : CallEnv φ) : Call → Client φ Result
  | .connect => connect cfg env
  | .close => close env
  | .ping => ping cfg env
  | .get key ns => get cfg env key ns
  | .set key value ttl ns => set cfg env key value ttl ns
  | .setNx key value ttl ns => setNX cfg env key value ttl ns
  | .incr key delta ttl ns => incr cfg env key delta ttl ns
  | .delete key ns => delete cfg env key ns
  | .deleteByPattern pattern ns => deleteByPattern cfg env pattern ns
  | .setTtlByPattern pattern ttl ns => setTtlByPattern cfg env pattern ttl ns
  | .watch key ns => watch cfg env key ns
  | .unwatch key ns => unwatch cfg env key ns
  | .waitWatchEvent => waitWatchEvent cfg env

section Rested

/-- When a request leaves no exchange half-done: if the first exchange breaks off or its
response cannot be decoded, then the second one settles. -/
def SendSettles (cfg : Config φ) (env : CallEnv φ) (retrySafe : Bool) : Prop :=
  env.first.Fails cfg.accepts cfg.decode → retrySafe = true → cfg.autoReconnect = true →
    env.RetrySettles (authToken cfg) cfg.accepts cfg.decode

theorem isErr_of_isIo {e : Failure φ} (h : e.isIo = true) : isErr e = true := by
  cases e with
  | decode d => cases h
  | _ => rfl

theorem fails_of_isErr {accepts : ℕ → Bool} {decode : Decoder} {x : Exchange φ}
    {d : DecodeError} (hd : x.outcome accepts decode = some (.error d))
    (h : isErr (.decode d : Failure φ) = true) : x.Fails accepts decode := by
  cases d with
  | malformed message => exact Or.inr ⟨message, hd⟩
  | runtime message => cases h

/-- Connecting leaves the connection at rest, whatever becomes of the Auth exchange. When
it succeeds, the Auth exchange was answered by AuthOk. -/
theorem connectLocked_rested (cfg : Config φ) (a : Attempt φ) (np : Prop)
    (ha : NoPush a.auth.acts) :
    Ensures (World.Rested np) (connectLocked cfg a)
      (fun _ t => a.Opens (authToken cfg) cfg.accepts cfg.decode ∧ t.Connected ∧ t.Rested True)
      (fun _ t => t.Rested np) := by
  have hmono : ∀ {t : World φ}, t.Rested True → t.Rested np :=
    fun h => h.mono fun _ => trivial
  refine Ensures.bind ((dial_hold_ensures a.dial).weaken_post (fun _ _ h => h)
    fun _ _ h => h.2) fun _ => Ensures.of_fact fun hdial => ?_
  cases htoken : authToken cfg with
  | none => exact ensures_pure _ fun t ht => ⟨⟨hdial, by simp⟩, ht⟩
  | some token =>
      refine Ensures.bind (Ensures.tryCatch (exchange_rested cfg.accepts cfg.decode a.auth
        (.auth token) fun f hf => ha f (List.mem_of_mem_head? hf)) fun err =>
          Ensures.ite (fun _ => ?_) fun herr => ensures_throw _ ?_) fun resp => ?_
      · exact (release_ensures _ _).bind fun _ => ensures_throw _ fun t ht =>
          World.rested_of_none ht
      · rintro t ⟨-, ⟨d, -, -, hr⟩ | ⟨hio, -⟩⟩
        · exact hmono (hr.mono fun _ => ha)
        · exact absurd (isErr_of_isIo hio) herr
      · refine Ensures.ite (fun hok => ensures_pure _ ?_) fun _ => ?_
        · rintro t ⟨hout, hc, -, hr⟩
          exact ⟨⟨hdial, fun _ => by rw [hout, hok]⟩, hc, hr.mono fun _ => ha⟩
        · exact (release_ensures _ _).bind fun _ => ensures_throw _ fun t ht =>
            World.rested_of_none ht

theorem ensureConnectedLocked_rested (cfg : Config φ) (env : CallEnv φ)
    (ha : NoPush env.connect.auth.acts) {w : World φ} (hr : w.Rested True) :
    Ensures (· = w) (ensureConnectedLocked cfg env.connect)
      (fun _ t => env.Reaches (authToken cfg) cfg.accepts cfg.decode w ∧ t.Connected ∧
        t.Rested True)
      (fun _ t => t.Rested True) := by
  refine (connected_ensures _ _).bind fun b => Ensures.ite (fun hb => ?_) fun hb => ?_
  · refine ensures_pure _ ?_
    rintro t ⟨rfl, hconn⟩
    exact ⟨Or.inl (hconn.mp hb), hconn.mp hb, hr⟩
  · rintro t ⟨rfl, hconn⟩
    have hnone : t.held = none := by
      have hnot : ¬ t.Connected := fun h => hb (hconn.mpr h)
      simpa [World.Connected] using hnot
    exact ((connectLocked_rested cfg env.connect True ha).weaken_post
      (fun _ _ h => ⟨Or.inr ⟨hnone, h.1⟩, h.2⟩) fun _ _ h => h) t hr
/-- A request leaves the connection at rest if it settles, and what it returns is the
answer to its own frame. -/
theorem sendRequestLocked_rested (cfg : Config φ) (env : CallEnv φ) (frame : Request)
    (retrySafe : Bool) (henv : env.Orderly) (hq : Quiet env.first.acts)
    (hs : SendSettles cfg env retrySafe) :
    Ensures (fun w => w.Connected ∧ w.Rested True) (sendRequestLocked cfg env frame retrySafe)
      (fun r t => t.Answered cfg.decode frame r ∧ t.Rested env.NoPush)
      (fun _ t => t.Rested env.NoPush) := by
  refine Ensures.tryCatch ((exchange_rested cfg.accepts cfg.decode env.first frame
    hq).weaken_post ?_ fun _ _ h => h) fun err => Ensures.ite (fun herr => ?_) fun herr =>
      ensures_throw _ ?_
  · rintro r t ⟨-, -, hans, hr⟩
    exact ⟨hans, hr.mono And.left⟩
  · -- an error value: the connection is dropped
    by_cases hfail : env.first.Fails cfg.accepts cfg.decode
    · refine (release_ensures _ _).bind fun _ => Ensures.ite (fun hsafe => Ensures.ite
        (fun hauto => ?_) fun _ => ?_) fun _ => ?_
      · refine Ensures.bind (R := fun _ t => env.reconnect.Opens (authToken cfg) cfg.accepts
          cfg.decode ∧ t.Connected ∧ t.Rested True) ?_ fun _ => Ensures.of_fact fun hopens => ?_
        · refine (connected_ensures _ _).bind fun b => Ensures.ite (fun hb => ?_) fun _ => ?_
          · refine ensures_pure _ fun w hw => ?_
            have hsome := hw.2.mp hb
            rw [World.Connected, hw.1] at hsome
            cases hsome
          · exact (connectLocked_rested cfg env.reconnect env.NoPush henv.reconnect).strengthen_pre
              fun w hw => World.rested_of_none hw.1
        · exact retry_rested cfg.accepts cfg.decode env.retry frame And.right henv.retry
            (hs hfail hsafe hauto hopens)
      · exact ensures_throw _ fun t ht => World.rested_of_none ht
      · exact ensures_throw _ fun t ht => World.rested_of_none ht
    · rintro t ⟨-, ⟨d, rfl, hd, -⟩ | ⟨-, hnone, -⟩⟩
      · exact absurd (fails_of_isErr hd herr) hfail
      · exact absurd (Or.inl hnone) hfail
  · rintro t ⟨-, ⟨d, -, -, hr⟩ | ⟨hio, -⟩⟩
    · exact hr.mono And.left
    · exact absurd (isErr_of_isIo hio) herr

/-- A call that sends a request connects, validates its arguments, sends the request,
and reads the result off the response. -/
theorem call_ensures_of_request (cfg : Config φ) (env : CallEnv φ) {c : Call}
    {frame : Request} (hc : c.request? = some frame) {P Q R : World φ → Prop}
    {A : ClientResponse → World φ → Prop} (hQR : ∀ w, Q w → R w)
    (hconnect : Ensures P (ensureConnectedLocked cfg env.connect) (fun _ => Q) (fun _ => R))
    (hsend : cfg.Admits c → Ensures Q (sendRequestLocked cfg env frame c.retrySafe)
      (fun r t => A r t ∧ R t) (fun _ => R)) :
    Ensures P (call cfg env c)
      (fun res t => Computed acceptPing c A res t ∧ R t) (fun _ => R) := by
  have hcheck : Ensures Q (cfg.check frame)
      (fun _ w => cfg.validate frame = .ok () ∧ Q w) (fun _ => R) :=
    (check_ensures cfg frame).weaken_post (fun _ _ h => h) fun _ w h => hQR w h.2
  have hok : cfg.validate frame = .ok () → cfg.Admits c := fun h frame' h' _ => by
    rw [hc] at h'
    cases h'
    exact h
  cases c with
  | connect => cases hc
  | close => cases hc
  | waitWatchEvent => cases hc
  | ping =>
      cases hc
      exact hconnect.bind fun _ => request_ensures _ (hsend fun _ _ h => absurd rfl h)
  | setNx key value ttl ns =>
      cases hc
      exact (mapFailure_ensures _ hconnect).bind fun _ => hcheck.bind fun _ =>
        Ensures.of_fact fun h => mapFailure_ensures _ (request_ensures _ (hsend (hok h)))
  | incr key delta ttl ns =>
      cases hc
      exact (mapFailure_ensures _ hconnect).bind fun _ => hcheck.bind fun _ =>
        Ensures.of_fact fun h => mapFailure_ensures _ (request_ensures _ (hsend (hok h)))
  | _ =>
      cases hc
      exact hconnect.bind fun _ => hcheck.bind fun _ => Ensures.of_fact fun h =>
        request_ensures _ (hsend (hok h))

/-- The calls that send a request. -/
theorem call_rested_of_request (cfg : Config φ) (env : CallEnv φ) {c : Call}
    {frame : Request} (hc : c.request? = some frame) (henv : env.Orderly)
    (hq : Quiet env.first.acts) :
    Ensures (fun w => w.Rested True ∧ (cfg.Admits c →
        env.Reaches (authToken cfg) cfg.accepts cfg.decode w →
          SendSettles cfg env c.retrySafe))
      (call cfg env c)
      (fun res t => OwnAnswer cfg acceptPing c res t ∧ t.Rested env.NoPush)
      (fun _ t => t.Rested env.NoPush) := by
  have hmono : ∀ {t : World φ}, t.Rested True → t.Rested env.NoPush :=
    fun h => h.mono fun _ => trivial
  rintro w ⟨hr, hs⟩
  have hcall := call_ensures_of_request cfg env hc (P := (· = w)) (R := World.Rested env.NoPush)
    (Q := fun t => (cfg.Admits c → SendSettles cfg env c.retrySafe) ∧ t.Connected ∧
      t.Rested True)
    (A := World.Answered cfg.decode frame) (fun _ h => hmono h.2.2)
    ((ensureConnectedLocked_rested cfg env henv.connect hr).weaken_post
      (fun _ _ h => ⟨fun hadmit => hs hadmit h.1, h.2⟩) fun _ _ h => hmono h)
    (fun hadmit => (Ensures.of_fact fun hsend =>
      sendRequestLocked_rested cfg env frame c.retrySafe henv hq hsend).strengthen_pre
        fun _ h => ⟨h.1 hadmit, h.2⟩)
  exact (hcall.weaken_post (fun _ _ h => ⟨ownAnswer_of_request hc h.1, h.2⟩)
    fun _ _ h => h) w rfl

theorem connect_rested (cfg : Config φ) (env : CallEnv φ) (np : Prop)
    (ha : NoPush env.connect.auth.acts) :
    Ensures (World.Rested np) (connect cfg env) (fun _ t => t.Rested np)
      (fun _ t => t.Rested np) :=
  ((connectLocked_rested cfg env.connect np ha).weaken_post
    (fun _ _ h => h.2.2.mono fun _ => trivial) fun _ _ h => h).bind
      fun _ => ensures_pure _ fun _ h => h

theorem close_rested (env : CallEnv φ) (np : Prop) :
    Ensures (World.Rested np) (close env) (fun _ t => t.Rested np) (fun _ t => t.Rested np) := by
  refine (connected_ensures _ _).bind fun b => Ensures.ite (fun _ => ?_) fun _ => ?_
  · refine (release_ensures _ _).bind fun _ => Ensures.bind (R := fun _ t => t.Rested np) ?_
      fun _ => ensures_pure _ fun _ h => h
    exact (meet_ensures env.shutdown).weaken_post (fun _ t h => World.rested_of_none h.1)
      fun _ t h => World.rested_of_none h.1
  · exact ensures_pure _ fun w hw => hw.1

theorem waitWatchEvent_rested (cfg : Config φ) (env : CallEnv φ)
    (hconnect : NoPush env.connect.auth.acts) (ha : NoPush env.first.acts) :
    Ensures (World.Rested True) (waitWatchEvent cfg env)
      (fun _ _ => False) (fun _ t => t.Rested True) := by
  refine Ensures.bind (R := fun _ t => t.Connected ∧ t.Rested True) (fun w hw =>
    ((ensureConnectedLocked_rested cfg env hconnect hw).weaken_post (fun _ _ h => h.2)
      fun _ _ h => h) w rfl) fun _ => (request_ensures (A := fun _ _ => False) _ ((awaitFrame_rested cfg.accepts
      cfg.decode ha).weaken_post (fun _ _ h => h.elim) fun _ _ h => h)).weaken_post ?_
        fun _ _ h => h
  rintro res t ⟨⟨r, h, -⟩, -⟩
  exact h

/-- A wait on the connection that is held. On a connection that is opened for the wait
nothing is watched, hence nothing pushed. -/
theorem waitWatchEvent_settled (cfg : Config φ) (env : CallEnv φ)
    (hconnect : NoPush env.connect.auth.acts) :
    Ensures (fun w => w.Rested False ∧ WaitDelivers cfg.accepts env.first.toArrival w ∧
        (w.held = none → NoPush env.first.acts))
      (waitWatchEvent cfg env) (fun _ t => t.Rested False) (fun _ t => t.Rested False) := by
  have hmono : ∀ {t : World φ}, t.Rested True → t.Rested False := fun h => h.mono False.elim
  rintro w ⟨hr, hdel, hfresh⟩
  by_cases hc : w.Connected
  · have hwait : Ensures (· = w) (waitWatchEvent cfg env) (fun _ t => t.Rested False)
        (fun _ t => t.Rested False) := by
      refine Ensures.bind (R := fun _ t => t = w) ?_ fun _ => ?_
      · refine (connected_ensures _ _).bind fun b => Ensures.ite (fun _ => ?_) fun hb => ?_
        · exact ensures_pure _ fun _ h => h.1
        · rintro t ⟨rfl, hconn⟩
          exact absurd (hconn.mpr hc) hb
      · refine (request_ensures (A := fun _ _ => True) _ (((awaitFrame_settled cfg.accepts
          cfg.decode env.first.toArrival).mono ?_ (fun _ _ h => ⟨trivial, h⟩)
            fun _ _ h => h))).weaken_post (fun _ _ h => h.2) fun _ _ h => h
        rintro t rfl
        exact ⟨hc, hr, hdel⟩
    exact hwait w rfl
  · have hnone : w.held = none := by simpa [World.Connected] using hc
    exact ((waitWatchEvent_rested cfg env hconnect (hfresh hnone)).weaken_post
      (fun _ _ h => h.elim) fun _ _ h => hmono h) w (World.rested_of_none hnone)

end Rested

end Go

end LockStep

end DittoClient
