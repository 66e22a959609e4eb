import DittoClient.LockStep.Traffic

/-!
# The Java client

`DittoTcpClient` of the Java library. It keeps the socket, its input and its output
stream in three fields, which are set one after the other when a connection is opened and
cleared together when it is closed; using a stream that is not there is a null pointer
error. An `IOException` drops the connection of a first exchange, but neither that of an
Auth exchange nor that of a second exchange.
-/

namespace DittoClient

namespace LockStep

namespace Java

open DittoClient.Protobuf
open DittoClient.Wire
open DittoClient.Program

variable {φ : Type}

/-- Whether a failure is an `IOException`. -/
def isIoException : Failure φ → Bool
  | .fault _ => true
  | .timeout => true
  | .closedByServer => true
  | .frameTooLarge _ => true
  | .decode (.malformed _) => true
  | .outcomeUnknown => true
  | .unexpected _ => true
  | .unexpectedAuth _ => true
  | _ => false

/-- The check of the length of a frame: it must be positive. -/
def accepts (cfg : Config φ) (len : ℕ) : Bool :=
  decide (0 < len) && cfg.accepts len

def setInput : Client φ Unit := fun w => .ok () { w with input := true }

def setOutput : Client φ Unit := fun w => .ok () { w with output := true }

def clearStreams : Client φ Unit := fun w => .ok () { w with input := false, output := false }

def hasInput : Client φ Bool := fun w => .ok w.input w

def hasOutput : Client φ Bool := fun w => .ok w.output w

def sendFrame (x : Exchange φ) (data : Request) : Client φ Unit := do
  if ← hasOutput then sendall x data else throw .nullPointer

def readResponse (cfg : Config φ) : Client φ ClientResponse := do
  if ← hasInput then recvFrame (accepts cfg) cfg.decode else throw .nullPointer

/-- Close the socket, ignoring an error, and clear the three fields. -/
def closeSocketOnly : Client φ Unit := do
  release
  clearStreams

/-- Open a socket, store it and its streams, and authenticate. -/
def connectSocket (cfg : Config φ) (a : Attempt φ) : Client φ Unit := do
  if ← connected then pure ()
  else do
    dial a.dial >>= hold
    meet a.input
    setInput
    meet a.output
    setOutput
    match cfg.authToken with
    | none => pure ()
    | some token => do
      sendFrame a.auth (.auth token)
      let resp ← readResponse cfg
      if resp = .authOk then pure ()
      else do
        closeSocketOnly
        throw (authFailure resp)

/-- Send a request and read the response, with a second attempt for a retry-safe
request. -/
def sendAndRead (cfg : Config φ) (env : CallEnv φ) (data : Request) (retrySafe : Bool) :
    Client φ ClientResponse :=
  tryCatch
    (do
      sendFrame env.first data
      readResponse cfg)
    fun first =>
      if isIoException first then do
        closeSocketOnly
        if retrySafe then
          if cfg.autoReconnect then do
            connectSocket cfg env.reconnect
            sendFrame env.retry data
            readResponse cfg
          else throw first
        else throw .outcomeUnknown
      else throw first

/-- An operation: validate the arguments, send the request, read the result off the
response. -/
def operation (cfg : Config φ) (env : CallEnv φ) (data : Request) (retrySafe : Bool)
    (accept : ClientResponse → Except (Failure φ) Result) : Client φ Result := do
  cfg.check data
  request (sendAndRead cfg env data retrySafe) accept

/-- The renaming of the `IOException`s of an atomic operation. -/
def normalizeTcpAtomicError (cfg : Config φ) (name : String) : Failure φ → Failure φ
  | .outcomeUnknown => .outcomeUnknown
  | e => if isIoException e then cfg.normalize name e else e

/-- An atomic operation. -/
def atomic (cfg : Config φ) (env : CallEnv φ) (name : String) (data : Request)
    (accept : ClientResponse → Except (Failure φ) Result) : Client φ Result :=
  mapFailure (normalizeTcpAtomicError cfg name) (operation cfg env data false accept)

def connect (cfg : Config φ) (env : CallEnv φ) : Client φ Result := do
  connectSocket cfg env.connect
  pure .done

def close : Client φ Result := do
  closeSocketOnly
  pure .done

def ping (cfg : Config φ) (env : CallEnv φ) : Client φ Result :=
  request (sendAndRead cfg env .ping true) acceptPing

def get (cfg : Config φ) (env : CallEnv φ) (key : String) (ns : Option String) :
    Client φ Result :=
  operation cfg env (.get key ns) true acceptGet

def set (cfg : Config φ) (env : CallEnv φ) (key : String) (value : List UInt8)
    (ttlSecs : Option ℤ) (ns : Option String) : Client φ Result :=
  operation cfg env (.set key value ttlSecs ns) false acceptSet

def setNx (cfg : Config φ) (env : CallEnv φ) (key : String) (value : List UInt8)
    (ttlSecs : Option ℤ) (ns : Option String) : Client φ Result :=
  atomic cfg env "SET_NX" (.setNx key value ttlSecs ns) acceptSetNx

def incr (cfg : Config φ) (env : CallEnv φ) (key : String)
    (delta ttlSecsOnCreate : Option ℤ) (ns : Option String) : Client φ Result :=
  atomic cfg env "INCR" (.incr key delta ttlSecsOnCreate ns) acceptIncr

def delete (cfg : Config φ) (env : CallEnv φ) (key : String) (ns : Option String) :
    Client φ Result :=
  operation cfg env (.delete key ns) false acceptDelete

def deleteByPattern (cfg : Config φ) (env : CallEnv φ) (pattern : String)
    (ns : Option String) : Client φ Result :=
  operation cfg env (.deleteByPattern pattern ns) false acceptDeleteByPattern

def setTtlByPattern (cfg : Config φ) (env : CallEnv φ) (pattern : String)
    (ttlSecs : Option ℤ) (ns : Option String) : Client φ Result :=
  operation cfg env (.setTtlByPattern pattern ttlSecs ns) false acceptSetTtlByPattern

def watch (cfg : Config φ) (env : CallEnv φ) (key : String) (ns : Option String) :
    Client φ Result :=
  operation cfg env (.watch key ns) false acceptWatch

def unwatch (cfg : Config φ) (env : CallEnv φ) (key : String) (ns : Option String) :
    Client φ Result :=
  operation cfg env (.unwatch key ns) false acceptUnwatch

def waitForWatchEvent (cfg : Config φ) (env : CallEnv φ) : Client φ Result := do
  if ← hasInput then
    request (awaitFrame (accepts cfg) cfg.decode env.first.toArrival) acceptWatchEvent
  else throw .nullPointer

/-- A public call. -/
def call (cfg : Config φ) (env : CallEnv φ) : Call → Client φ Result
  | .connect => connect cfg env
  | .close => close
  | .ping => ping cfg env
  | .get key ns => get cfg env key ns
  | .set key value ttl ns => set cfg env key value ttl ns
  | .setNx key value ttl ns => setNx cfg env key value ttl ns
  | .incr key delta ttl ns => incr cfg env key delta ttl ns
  | .delete key ns => delete cfg env key ns
  | .deleteByPattern pattern ns => deleteByPattern cfg env pattern ns
  | .setTtlByPattern pattern ttl ns => setTtlByPattern cfg env pattern ttl ns
  | .watch key ns => watch cfg env key ns
  | .unwatch key ns => unwatch cfg env key ns
  | .waitWatchEvent => waitForWatchEvent cfg env

section Streams

/-- Both streams of the connection are there. -/
def Both (w : World φ) : Prop :=
  w.input = true ∧ w.output = true

/-- The output stream is never there without the input stream, nor this one without a
connection. -/
def Streams (w : World φ) : Prop :=
  (w.output = true → w.input = true) ∧ (w.input = true → w.Connected)

theorem Streams.of_both {w : World φ} (h : Both w) (hc : w.Connected) : Streams w :=
  ⟨fun _ => h.1, fun _ => hc⟩

theorem Streams.of_none {w : World φ} (h : Streams w) (hnone : w.held = none) :
    w.input = false ∧ w.output = false := by
  have hin : w.input = false := by
    by_contra hne
    have hc := h.2 (by simpa using hne)
    rw [World.Connected, hnone] at hc
    cases hc
  refine ⟨hin, ?_⟩
  by_contra hne
  have htrue := h.1 (by simpa using hne)
  rw [hin] at htrue
  cases htrue

/-- With both streams there, writing a frame and reading the response is an exchange. -/
theorem sendFrame_readResponse (cfg : Config φ) (x : Exchange φ) (data : Request)
    {w : World φ} (hw : Both w) :
    (do
      sendFrame x data
      readResponse cfg) w = exchange (accepts cfg) cfg.decode x data w := by
  have hsend : sendFrame x data w = sendall x data w := by
    simp [sendFrame, hasOutput, bind, EStateM.bind, hw.2]
  have hread : ∀ t, t.input = true → readResponse cfg t =
      recvFrame (accepts cfg) cfg.decode t := fun t ht => by
    simp [readResponse, hasInput, bind, EStateM.bind, ht]
  have hfollows := sendall_follows x data w w rfl
  simp only [exchange, bind, EStateM.bind, hsend]
  cases hs : sendall x data w with
  | error e t => rfl
  | ok u t =>
      rw [hs] at hfollows
      exact hread t (hfollows.input.trans hw.1)

/-- A specification of an exchange is one of writing a frame and reading the response,
and the streams stay there. -/
theorem sendFrame_readResponse_ensures (cfg : Config φ) (x : Exchange φ) (data : Request)
    {P : World φ → Prop} {Q : ClientResponse → World φ → Prop}
    {E : Failure φ → World φ → Prop}
    (h : Ensures P (exchange (accepts cfg) cfg.decode x data) Q E) :
    Ensures (fun w => Both w ∧ P w)
      (do
        sendFrame x data
        readResponse cfg)
      (fun r t => Both t ∧ Q r t) (fun e t => Both t ∧ E e t) := by
  rintro w ⟨hw, hp⟩
  have hstart : ∀ t, t = w → P t := by
    rintro t rfl
    exact hp
  have hboth := (exchange_follows (accepts cfg) cfg.decode x data w).and
    (h.strengthen_pre hstart) w ⟨rfl, rfl⟩
  rw [sendFrame_readResponse cfg x data hw]
  cases he : exchange (accepts cfg) cfg.decode x data w with
  | ok r t =>
      rw [he] at hboth
      exact ⟨⟨hboth.1.input.trans hw.1, hboth.1.output.trans hw.2⟩, hboth.2⟩
  | error e t =>
      rw [he] at hboth
      exact ⟨⟨hboth.1.input.trans hw.1, hboth.1.output.trans hw.2⟩, hboth.2⟩

theorem closeSocketOnly_ensures (P : World φ → Prop) (E : Failure φ → World φ → Prop) :
    Ensures P closeSocketOnly
      (fun _ t => t.held = none ∧ t.input = false ∧ t.output = false) E :=
  (release_ensures _ _).bind fun _ => fun _ ht => ⟨ht, rfl, rfl⟩

end Streams

section Rested

theorem rested_streams_of_none {w : World φ} {np : Prop}
    (h : w.held = none ∧ w.input = false ∧ w.output = false) : w.Rested np ∧ Streams w := by
  refine ⟨World.rested_of_none h.1, ?_, ?_⟩
  · rw [h.2.2]
    exact fun h => by cases h
  · rw [h.2.1]
    exact fun h => by cases h

theorem dial_hold_streams (d : Dial φ) (i o : Bool) :
    Ensures (fun w : World φ => w.input = i ∧ w.output = o) (dial d >>= hold)
      (fun _ t => t.input = i ∧ t.output = o) (fun _ t => t.input = i ∧ t.output = o) := by
  intro w hw
  cases d with
  | ok => exact hw
  | failed f => exact hw

/-- An exchange that settles, with both streams there. -/
theorem exchange_settles (cfg : Config φ) (x : Exchange φ) (data : Request) {np : Prop}
    (hnp : np → NoPush x.acts) (hq : Quiet x.acts) (hs : x.Settles (accepts cfg) cfg.decode) :
    Ensures (fun w => Both w ∧ w.Connected ∧ w.Rested True)
      (do
        sendFrame x data
        readResponse cfg)
      (fun r t => t.Answered cfg.decode data r ∧ t.Rested np ∧ Streams t)
      (fun _ t => t.Rested np ∧ Streams t) := by
  refine (sendFrame_readResponse_ensures cfg x data (exchange_rested (accepts cfg) cfg.decode x
    data hq)).weaken_post ?_ ?_
  · rintro r t ⟨hb, -, hc, hans, hr⟩
    exact ⟨hans, hr.mono hnp, Streams.of_both hb hc⟩
  · rintro e t ⟨hb, hc, ⟨d, -, -, hr⟩ | ⟨-, hnone, -, hr⟩⟩
    · exact ⟨hr.mono hnp, Streams.of_both hb hc⟩
    · rcases hs with h | h
      · rw [hnone] at h
        cases h
      · exact ⟨(hr h).mono hnp, Streams.of_both hb hc⟩

/-- Connecting leaves the connection at rest unless the Auth exchange breaks off. -/
theorem connectSocket_rested (cfg : Config φ) (a : Attempt φ) (np : Prop)
    (ha : NoPush a.auth.acts) (hs : a.Settles cfg.authToken (accepts cfg) cfg.decode) :
    Ensures (fun w => w.Rested np ∧ Streams w) (connectSocket cfg a)
      (fun _ t => t.Rested np ∧ Streams t) (fun _ t => t.Rested np ∧ Streams t) := by
  have hmono : ∀ {t : World φ}, t.Rested True → t.Rested np := fun h => h.mono fun _ => trivial
  refine (connected_ensures _ _).bind fun b => Ensures.ite (fun _ => ?_) fun hb => ?_
  · exact ensures_pure _ fun _ h => h.1
  · refine Ensures.bind (((dial_hold_ensures (P := fun w => w.Rested np ∧ Streams w)
      a.dial).and (dial_hold_streams a.dial false false)).mono ?_ (fun _ _ h => h) ?_)
        fun _ => ?_
    · rintro w ⟨⟨hr, hst⟩, hconn⟩
      have hnone : w.held = none := by
        have hnot : ¬ w.Connected := fun h => hb (hconn.mpr h)
        simpa [World.Connected] using hnot
      exact ⟨⟨hr, hst⟩, hst.of_none hnone⟩
    · exact fun _ t h => h.1.2
    -- the streams are obtained one after the other
    refine Ensures.bind ((meet_ensures a.input).weaken_post (fun _ _ h => h.1) ?_) fun _ =>
      Ensures.bind (R := fun _ t => a.dial.isOk = true ∧ t.Connected ∧ t.Rested True ∧
        t.input = true ∧ t.output = false) ?_ fun _ => Ensures.bind
          ((meet_ensures a.output).weaken_post (fun _ _ h => h.1) ?_) fun _ =>
            Ensures.bind (R := fun _ t => a.dial.isOk = true ∧ Both t ∧ t.Connected ∧
              t.Rested True) ?_ fun _ => Ensures.of_fact fun hdial => ?_
    · rintro e t ⟨⟨⟨-, -, hr⟩, hin, hout⟩, -⟩
      refine ⟨hmono hr, ?_, ?_⟩
      · rw [hout]
        exact fun h => by cases h
      · rw [hin]
        exact fun h => by cases h
    · rintro t ⟨⟨hdial, hc, hr⟩, -, hout⟩
      exact ⟨hdial, hc, hr, rfl, hout⟩
    · rintro e t ⟨⟨-, hc, hr, hin, -⟩, -⟩
      exact ⟨hmono hr, fun _ => hin, fun _ => hc⟩
    · rintro t ⟨hdial, hc, hr, hin, -⟩
      exact ⟨hdial, ⟨hin, rfl⟩, hc, hr⟩
    · cases htoken : cfg.authToken with
      | none =>
          exact ensures_pure _ fun t ht => ⟨hmono ht.2.2, Streams.of_both ht.1 ht.2.1⟩
      | some token =>
          have hauth : a.auth.Settles (accepts cfg) cfg.decode := hs hdial (by rw [htoken]; rfl)
          dsimp only
          rw [← bind_assoc]
          refine Ensures.bind (exchange_settles cfg a.auth (.auth token) (fun _ => ha)
            (fun f hf => ha f (List.mem_of_mem_head? hf)) hauth) fun resp =>
              Ensures.ite (fun _ => ensures_pure _ fun _ h => h.2) fun _ => ?_
          exact (closeSocketOnly_ensures _ _).bind fun _ => ensures_throw _ fun t ht =>
            rested_streams_of_none ht

/-- A request whose first exchange is answered, on a connection at rest. -/
theorem sendAndRead_rested (cfg : Config φ) (env : CallEnv φ) (data : Request)
    (retrySafe : Bool) (hq : Quiet env.first.acts)
    (hout : ∃ r, env.first.outcome (accepts cfg) cfg.decode = some (.ok r)) :
    Ensures (fun w => w.Rested True ∧ Streams w) (sendAndRead cfg env data retrySafe)
      (fun r t => t.Answered cfg.decode data r ∧ t.Rested False ∧ Streams t)
      (fun _ t => t.Rested False ∧ Streams t) := by
  obtain ⟨resp, hresp⟩ := hout
  intro w hw
  by_cases ho : w.output = true
  · have hboth : Both w := ⟨hw.2.1 ho, ho⟩
    have hfirst : Ensures (fun w => Both w ∧ w.Connected ∧ w.Rested True)
        (do
          sendFrame env.first data
          readResponse cfg)
        (fun r t => t.Answered cfg.decode data r ∧ t.Rested False ∧ Streams t)
        (fun _ _ => False) := by
      refine (sendFrame_readResponse_ensures cfg env.first data (exchange_rested (accepts cfg)
        cfg.decode env.first data hq)).weaken_post ?_ ?_
      · rintro r t ⟨hb, -, hc, hans, hr⟩
        exact ⟨hans, hr.mono False.elim, Streams.of_both hb hc⟩
      · rintro e t ⟨-, -, ⟨d, -, hd, -⟩ | ⟨-, hnone, -⟩⟩
        · rw [hresp] at hd
          cases hd
        · rw [hresp] at hnone
          cases hnone
    exact (Ensures.tryCatch hfirst fun _ => fun _ h => h.elim) w
      ⟨hboth, hw.2.2 hboth.1, hw.1⟩
  · have hsend : Ensures (· = w) (sendFrame env.first data) (fun _ _ => False)
        (fun e t => e = .nullPointer ∧ t = w) := by
      rintro w rfl
      simp [sendFrame, hasOutput, bind, EStateM.bind, ho]
      exact ⟨rfl, rfl⟩
    refine (Ensures.tryCatch (hsend.bind fun _ => fun _ h => h.elim) fun first =>
      Ensures.ite (fun hio => ?_) fun _ => ensures_throw _ ?_) w rfl
    · rintro t ⟨rfl, -⟩
      cases hio
    · rintro t ⟨-, rfl⟩
      exact ⟨hw.1.mono False.elim, hw.2⟩

/-- A call that sends a request validates its arguments, sends the request, and reads
the result off the response. -/
theorem call_ensures_of_request (cfg : Config φ) (env : CallEnv φ) {c : Call}
    {frame : Request} (hc : c.request? = some frame) {P R : World φ → Prop}
    {A : ClientResponse → World φ → Prop} (hPR : ∀ w, P w → R w)
    (hsend : cfg.Admits c → Ensures P (sendAndRead cfg env frame c.retrySafe)
      (fun r t => A r t ∧ R t) (fun _ => R)) :
    Ensures P (call cfg env c)
      (fun res t => Computed acceptPing c A res t ∧ R t) (fun _ => R) := by
  have hcheck : Ensures P (cfg.check frame)
      (fun _ w => cfg.validate frame = .ok () ∧ P w) (fun _ => R) :=
    (check_ensures cfg frame).weaken_post (fun _ _ h => h) fun _ w h => hPR w h.2
  have hok : cfg.validate frame = .ok () → cfg.Admits c := fun h frame' h' _ => by
    rw [hc] at h'
    cases h'
    exact h
  cases c with
  | connect => cases hc
  | close => cases hc
  | waitWatchEvent => cases hc
  | ping =>
      cases hc
      exact request_ensures _ (hsend fun _ _ h => absurd rfl h)
  | setNx key value ttl ns =>
      cases hc
      exact mapFailure_ensures _ (hcheck.bind fun _ => Ensures.of_fact fun h =>
        request_ensures _ (hsend (hok h)))
  | incr key delta ttl ns =>
      cases hc
      exact mapFailure_ensures _ (hcheck.bind fun _ => Ensures.of_fact fun h =>
        request_ensures _ (hsend (hok h)))
  | _ =>
      cases hc
      exact hcheck.bind fun _ => Ensures.of_fact fun h => request_ensures _ (hsend (hok h))

/-- The calls that send a request. -/
theorem call_rested_of_request (cfg : Config φ) (env : CallEnv φ) {c : Call}
    {frame : Request} (hc : c.request? = some frame) (hq : Quiet env.first.acts)
    (hout : ∃ r, env.first.outcome (accepts cfg) cfg.decode = some (.ok r)) :
    Ensures (fun w => w.Rested True ∧ Streams w) (call cfg env c)
      (fun res t => OwnAnswer cfg acceptPing c res t ∧ t.Rested False ∧ Streams t)
      (fun _ t => t.Rested False ∧ Streams t) := by
  refine (call_ensures_of_request cfg env hc (fun _ h => ⟨h.1.mono fun _ => trivial, h.2⟩)
    fun _ => sendAndRead_rested cfg env frame c.retrySafe hq hout).weaken_post ?_ fun _ _ h => h
  rintro res t ⟨h, hrest⟩
  exact ⟨ownAnswer_of_request hc h, hrest⟩

theorem connect_rested (cfg : Config φ) (env : CallEnv φ) (np : Prop)
    (ha : NoPush env.connect.auth.acts)
    (hs : env.connect.Settles cfg.authToken (accepts cfg) cfg.decode) :
    Ensures (fun w => w.Rested np ∧ Streams w) (connect cfg env)
      (fun _ t => t.Rested np ∧ Streams t) (fun _ t => t.Rested np ∧ Streams t) :=
  (connectSocket_rested cfg env.connect np ha hs).bind fun _ => ensures_pure _ fun _ h => h

theorem close_rested (P : World φ → Prop) (np : Prop) :
    Ensures P close (fun _ t => t.Rested np ∧ Streams t) (fun _ t => t.Rested np ∧ Streams t) :=
  (closeSocketOnly_ensures _ _).bind fun _ => ensures_pure _ fun _ h =>
    rested_streams_of_none h

theorem waitForWatchEvent_settled (cfg : Config φ) (env : CallEnv φ) :
    Ensures (fun w => (w.Rested False ∧ Streams w) ∧
        WaitDelivers (accepts cfg) env.first.toArrival w)
      (waitForWatchEvent cfg env) (fun _ t => t.Rested False ∧ Streams t)
      (fun _ t => t.Rested False ∧ Streams t) := by
  have hinput : ∀ P : World φ → Prop, Ensures P hasInput
      (fun b w => P w ∧ (b = true ↔ w.input = true)) (fun _ t => t.Rested False ∧ Streams t) :=
    fun _ _ hw => ⟨hw, Iff.rfl⟩
  refine (hinput _).bind fun b => Ensures.ite (fun hb => ?_) fun _ =>
    ensures_throw _ fun _ h => h.1.1
  rintro w ⟨⟨⟨hr, hst⟩, hdel⟩, hin⟩
  have hwait : Ensures (· = w) (awaitFrame (accepts cfg) cfg.decode env.first.toArrival)
      (fun _ t => True ∧ t.Rested False ∧ Streams t) (fun _ t => t.Rested False ∧ Streams t) := by
    have hstreams : ∀ {t : World φ}, w.Follows none t → Streams t := fun h => by
      rw [Streams, h.input, h.output, World.Connected, h.held]
      exact hst
    refine ((awaitFrame_follows (accepts cfg) cfg.decode env.first.toArrival w).and
      (awaitFrame_settled (accepts cfg) cfg.decode env.first.toArrival)).mono ?_ ?_ ?_
    · rintro w rfl
      exact ⟨rfl, hst.2 (hin.mp hb), hr, hdel⟩
    · exact fun _ t h => ⟨trivial, h.2, hstreams h.1⟩
    · exact fun _ t h => ⟨h.2, hstreams h.1⟩
  exact ((request_ensures (A := fun _ _ => True) acceptWatchEvent hwait).weaken_post
    (fun _ _ h => h.2) fun _ _ h => h) w rfl

end Rested

end Java

end LockStep

end DittoClient
