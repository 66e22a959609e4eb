import Mathlib.Data.List.Infix
import DittoClient.LockStep.Java
import DittoClient.LockStep.Pairing
import DittoClient.LockStep.Payload
import DittoClient.Wire.Agreement

/-!
# The errors of the Java client

What an operation of the Java client may throw is a `DittoException`, an
`IllegalArgumentException` or an `IOException` (`Declared`). Two other errors are possible:
a null pointer error where a stream is used that an earlier failure has cleared, and an
error of the wire reader where a length-delimited field ends beyond the offsets of an
array. `Safe` says on the state before a call and on its inputs that neither is reached;
every call that is safe ends as it may (`errors_declared`).
-/

namespace DittoClient

namespace LockStep

namespace Java

open DittoClient.Protobuf
open DittoClient.Wire
open DittoClient.Program
open DittoClient.Transition

variable {φ : Type}

/-- The name the Java client has for the kind of a response. -/
def responseType : ClientResponse → String
  | .value _ _ _ => "VALUE"
  | .ok _ => "OK"
  | .deleted => "DELETED"
  | .notFound => "NOT_FOUND"
  | .pong => "PONG"
  | .authOk => "AUTH_OK"
  | .error _ _ => "ERROR"
  | .watching => "WATCHING"
  | .unwatched => "UNWATCHED"
  | .watchEvent _ _ _ => "WATCH_EVENT"
  | .patternDeleted _ => "PATTERN_DELETED"
  | .patternTtlUpdated _ => "PATTERN_TTL_UPDATED"
  | .setNx _ _ => "SET_NX"
  | .counter _ _ => "COUNTER"

/-- The message of a failure, where those of the transport are given by `text`. -/
def message (text : Failure φ → String) : Failure φ → String
  | .unexpected r => "Unexpected response: " ++ responseType r
  | e => text e

/-- The texts by which the normalizer tells that the server lacks atomic operations. -/
def unsupportedTexts : List String :=
  ["unsupported", "protocol", "decode", "clientresponse oneof", "unexpected response", "eof",
    "connection reset"]

/-- Whether a text contains another, up to the case of the former. -/
def containsLower (s text : String) : Bool :=
  decide (text.toList <:+: s.toList.map Char.toLower)

def unsupportedAtomicOperation (operation : String) : Failure φ :=
  .server "UnsupportedRequest" ("UnsupportedRequest: server does not support " ++ operation ++
    ". Upgrade dittod to a version with atomic primitives.")

/-- The normalizer on an `IOException`: what it does not recognise it wraps in a
`RuntimeException`. -/
def normalizeAtomic (text : Failure φ → String) (operation : String) (e : Failure φ) :
    Failure φ :=
  if unsupportedTexts.any (containsLower (message text e)) then
    unsupportedAtomicOperation operation
  else .decode (.runtime (message text e))

/-- The settings of a Java client: its own decoder, limit and normalizer. -/
def settings (authToken : Option String) (autoReconnect : Bool)
    (validate : Request → Except String Unit) (text : Failure φ → String) : Config φ where
  authToken := authToken
  autoReconnect := autoReconnect
  maxFrameBytes := 8 * 1024 * 1024
  decode := javaDialect.decodeResponse
  validate := validate
  normalizeAtomic := normalizeAtomic text

/-- What an operation may throw: an `IOException`, a `DittoException`, or an
`IllegalArgumentException`. -/
def Declared (e : Failure φ) : Prop :=
  isIoException e = true ∨ (∃ code message, e = .server code message) ∨
    ∃ message, e = .invalid message

theorem declared_of_isIo {e : Failure φ} (h : e.isIo = true) : isIoException e = true := by
  cases e with
  | fault f => rfl
  | timeout => rfl
  | closedByServer => rfl
  | frameTooLarge len => rfl
  | _ => cases h

/-- The end of a length-delimited field, added up in 32 bits, turns negative. -/
def JavaFar (off n : ℕ) : Prop :=
  n < 2 ^ 31 ∧ 2 ^ 31 ≤ off + n

/-- Complete fields of the payload lead to a length-delimited field that ends beyond the
offsets of an array. -/
def Overruns (bs : List UInt8) : Prop :=
  PayloadFaults javaDialect javaFormat (fun _ => False) JavaFar bs

/-- A payload that does not overrun is decoded or refused. -/
theorem malformed_of_not_overruns {bs : List UInt8} (hsize : bs.length ≤ 2 ^ 31 - 1)
    (h : ¬ Overruns bs) {d : DecodeError} (hd : javaDialect.decodeResponse bs = .error d) :
    ∃ m, d = .malformed m := by
  cases d with
  | malformed m => exact ⟨m, rfl⟩
  | runtime m =>
      exact absurd (java_quiet.decodeResponse_faults (java_failsAt _) java_follows hsize ⟨m, hd⟩) h

section Safe

variable (cfg : Config φ)

/-- The payload that is read in the exchange, if one is, does not overrun. -/
def ExchangeSafe (x : Exchange φ) (frame : Request) (c : Connection) : Prop :=
  ∀ bs, x.payload (accepts cfg) frame c = some bs → ¬ Overruns bs

/-- The payload that is read as the answer to Auth, if one is, does not overrun. -/
def AttemptSafe (a : Attempt φ) : Prop :=
  ∀ token, cfg.authToken = some token → ExchangeSafe cfg a.auth (.auth token) .fresh

/-- The connection an attempt to connect leads to. -/
def Leads (a : Attempt φ) (c : Connection) : Prop :=
  match cfg.authToken with
  | none => c = .fresh
  | some token => ∃ bs, a.auth.payload (accepts cfg) (.auth token) .fresh = some bs ∧
      c = a.auth.after (.auth token) bs.length .fresh

/-- The call uses a stream only if it is there, and the payloads that are read do not
overrun. -/
structure Safe (w : World φ) (a : Call × CallEnv φ) : Prop where
  output : a.1.request?.isSome = true → cfg.Admits a.1 → w.output = true
  input : a.1 = .waitWatchEvent → w.input = true
  first : ∀ frame, a.1.request? = some frame → ∀ i, w.held = some i →
    ExchangeSafe cfg a.2.first frame (w.conns i)
  wait : a.1 = .waitWatchEvent → ∀ i, w.held = some i →
    ∀ bs, a.2.first.toArrival.payload (accepts cfg) (w.conns i) = some bs → ¬ Overruns bs
  connect : a.1 = .connect → w.held = none → AttemptSafe cfg a.2.connect
  reconnect : a.1.retrySafe = true → cfg.autoReconnect = true → AttemptSafe cfg a.2.reconnect
  retry : a.1.retrySafe = true → cfg.autoReconnect = true → ∀ frame, a.1.request? = some frame →
    ∀ c, Leads cfg a.2.reconnect c → ExchangeSafe cfg a.2.retry frame c

end Safe

section Streams

/-- Traffic on the connection leaves the streams as they are. -/
theorem Streams.of_follows {w t : World φ} {frame : Option Request} (h : Streams w)
    (ht : w.Follows frame t) : Streams t := by
  rw [Streams, ht.input, ht.output, World.Connected, ht.held]
  exact h

theorem sendFrame_readResponse_streams (cfg : Config φ) (x : Exchange φ) (data : Request) :
    Ensures Streams
      (do
        sendFrame x data
        readResponse cfg)
      (fun _ => Streams) (fun _ => Streams) := by
  have hhas : ∀ m : Client φ Bool, (∀ w, ∃ b, m w = .ok b w) →
      Ensures Streams m (fun _ => Streams) (fun _ => Streams) := by
    intro m hm w hw
    obtain ⟨b, hb⟩ := hm w
    rw [hb]
    exact hw
  refine Ensures.bind (R := fun _ => Streams) ?_ fun _ => ?_
  · refine (hhas hasOutput fun w => ⟨_, rfl⟩).bind fun _ => Ensures.ite (fun _ w hw => ?_)
      fun _ => ensures_throw _ fun _ h => h
    exact ((sendall_follows x data w).weaken_post (fun _ _ h => hw.of_follows h)
      fun _ _ h => hw.of_follows h) w rfl
  · refine (hhas hasInput fun w => ⟨_, rfl⟩).bind fun _ => Ensures.ite (fun _ w hw => ?_)
      fun _ => ensures_throw _ fun _ h => h
    exact ((recvFrame_follows (accepts cfg) cfg.decode w).weaken_post
      (fun _ _ h => hw.of_follows h) fun _ _ h => hw.of_follows h) w rfl

theorem closeSocketOnly_streams (P : World φ → Prop) (E : Failure φ → World φ → Prop) :
    Ensures P closeSocketOnly (fun _ t => t.held = none ∧ Streams t) E :=
  (closeSocketOnly_ensures P E).weaken_post
    (fun _ t h => ⟨h.1, (rested_streams_of_none h : t.Rested True ∧ Streams t).2⟩)
    fun _ _ h => h

theorem connectSocket_streams (cfg : Config φ) (a : Attempt φ) :
    Ensures Streams (connectSocket cfg a) (fun _ => Streams) (fun _ => Streams) := by
  refine (connected_ensures _ _).bind fun b => Ensures.ite (fun _ => ensures_pure _
    fun _ h => h.1) fun hb => ?_
  refine Ensures.bind (R := fun _ t => t.Connected ∧ t.input = false ∧ t.output = false) ?_
    fun _ => ?_
  · rintro w ⟨hst, hconn⟩
    have hnone : w.held = none := by
      have hnot : ¬ w.Connected := fun h => hb (hconn.mpr h)
      simpa [World.Connected] using hnot
    obtain ⟨hin, hout⟩ := hst.of_none hnone
    cases a.dial with
    | ok => exact ⟨rfl, hin, hout⟩
    | failed f => exact hst
  -- the streams are obtained one after the other
  refine Ensures.bind ((meet_ensures a.input).weaken_post (fun _ _ h => h.1) ?_) fun _ =>
    Ensures.bind (R := fun _ t => t.Connected ∧ t.input = true ∧ t.output = false) ?_ fun _ =>
      Ensures.bind ((meet_ensures a.output).weaken_post (fun _ _ h => h.1) ?_) fun _ =>
        Ensures.bind (R := fun _ => Streams) ?_ fun _ => ?_
  · rintro e t ⟨⟨hc, hin, hout⟩, -⟩
    simp [Streams, hin, hout]
  · exact fun t h => ⟨h.1, rfl, h.2.2⟩
  · rintro e t ⟨⟨hc, hin, hout⟩, -⟩
    exact ⟨fun _ => hin, fun _ => hc⟩
  · exact fun t h => Streams.of_both ⟨h.2.1, rfl⟩ h.1
  · cases cfg.authToken with
    | none => exact ensures_pure _ fun _ h => h
    | some token =>
        dsimp only
        rw [← bind_assoc]
        exact (sendFrame_readResponse_streams cfg a.auth (.auth token)).bind fun resp =>
          Ensures.ite (fun _ => ensures_pure _ fun _ h => h) fun _ =>
            (closeSocketOnly_streams _ _).bind fun _ => ensures_throw _ fun _ h => h.2

theorem sendAndRead_streams (cfg : Config φ) (env : CallEnv φ) (data : Request)
    (retrySafe : Bool) :
    Ensures Streams (sendAndRead cfg env data retrySafe) (fun _ => Streams)
      (fun _ => Streams) :=
  Ensures.tryCatch (sendFrame_readResponse_streams cfg env.first data) fun _ =>
    Ensures.ite (fun _ => (closeSocketOnly_streams _ _).bind fun _ => Ensures.ite
      (fun _ => Ensures.ite
        (fun _ => ((connectSocket_streams cfg env.reconnect).strengthen_pre fun _ h => h.2).bind
          fun _ => sendFrame_readResponse_streams cfg env.retry data)
        fun _ => ensures_throw _ fun _ h => h.2) fun _ => ensures_throw _ fun _ h => h.2)
      fun _ => ensures_throw _ fun _ h => h

/-- Every call keeps the order in which the streams are there, whatever it meets. -/
theorem call_streams (cfg : Config φ) (env : CallEnv φ) (c : Call) :
    Ensures Streams (call cfg env c) (fun _ => Streams) (fun _ => Streams) := by
  cases hc : c.request? with
  | some frame =>
      exact (call_ensures_of_request cfg env hc (A := fun _ _ => True) (fun _ h => h)
        fun _ => (sendAndRead_streams cfg env frame c.retrySafe).weaken_post
          (fun _ _ h => ⟨trivial, h⟩) fun _ _ h => h).weaken_post (fun _ _ h => h.2)
            fun _ _ h => h
  | none =>
      cases c with
      | connect =>
          exact (connectSocket_streams cfg env.connect).bind fun _ =>
            ensures_pure Result.done fun _ h => h
      | close =>
          exact (closeSocketOnly_streams _ _).bind fun _ =>
            ensures_pure Result.done fun _ h => h.2
      | waitWatchEvent =>
          refine Ensures.bind (R := fun _ => Streams) (fun _ h => h) fun _ =>
            Ensures.ite (fun _ => ?_) fun _ => ensures_throw _ fun _ h => h
          refine (request_ensures (A := fun _ _ => True) _ fun w hw => ?_).weaken_post
            (fun _ _ h => h.2) fun _ _ h => h
          exact ((awaitFrame_follows (accepts cfg) cfg.decode env.first.toArrival w).weaken_post
            (fun _ _ h => ⟨trivial, hw.of_follows h⟩) fun _ _ h => hw.of_follows h) w rfl
      | _ => cases hc

/-- The streams are there in their order after every run. -/
theorem streams_of_run {cfg : Config φ} {C : World φ → Call × CallEnv φ → Prop} {w t : World φ}
    {ls : List (Call × CallEnv φ)} (h : Run (callStep (call cfg)) C w ls t) (hw : Streams w) :
    Streams t := by
  refine h.invariant hw fun s a u hs _ hstep => ?_
  exact of_callStep ((call_streams _ a.2 a.1).weaken_post (fun _ _ h => ⟨trivial, h⟩)
    fun _ _ h => h : Ensures Streams _ (fun _ t => True ∧ Streams t) _) hs hstep

end Streams

section Declared

variable {cfg : Config φ}

/-- A payload that is read is no longer than the limit. -/
theorem accepts_of_payload {accepts : ℕ → Bool} {rs : List (Recv φ)} {inbound bs : List UInt8}
    (h : payload accepts rs inbound = some bs) : accepts bs.length = true := by
  simp only [payload] at h
  split at h
  · next hread =>
      obtain ⟨hroom, hdel⟩ := hread
      cases h
      have hlength : ((inbound.drop 4).take (Octets.ofBigEndian (inbound.take 4))).length =
          Octets.ofBigEndian (inbound.take 4) := by
        rw [List.length_take, List.length_drop, Nat.min_eq_left (by omega)]
      rw [hlength]
      simp only [delivers] at hdel
      split at hdel
      · cases hdel
      · exact (Bool.and_eq_true_iff.mp hdel).1
  · cases h

theorem payload_of_exchange {accepts : ℕ → Bool} {x : Exchange φ} {frame : Request}
    {c : Connection} {bs : List UInt8} (h : x.payload accepts frame c = some bs) :
    accepts bs.length = true := by
  unfold Exchange.payload at h
  split at h
  · exact accepts_of_payload h
  · cases h

/-- What the decoder of a client refuses, among the payloads that do not overrun. -/
theorem declared_of_decode (hdecode : cfg.decode = javaDialect.decodeResponse)
    (hmax : cfg.maxFrameBytes ≤ 2 ^ 31 - 1) {bs : List UInt8} {d : DecodeError}
    (hacc : accepts cfg bs.length = true) (hsafe : ¬ Overruns bs)
    (hd : cfg.decode bs = .error d) : isIoException (.decode d : Failure φ) = true := by
  have hlen : bs.length ≤ cfg.maxFrameBytes := by
    simpa [Config.accepts] using (Bool.and_eq_true_iff.mp hacc).2
  rw [hdecode] at hd
  obtain ⟨m, rfl⟩ := malformed_of_not_overruns (hlen.trans hmax) hsafe hd
  rfl

theorem meet_declared (f : Option φ) (P : World φ → Prop) :
    Ensures P (meet f) (fun _ => P) (fun e _ => Declared e) := by
  intro w hw
  cases f with
  | none => exact hw
  | some f => exact Or.inl rfl

section Pieces

variable (hdecode : cfg.decode = javaDialect.decodeResponse)
  (hmax : cfg.maxFrameBytes ≤ 2 ^ 31 - 1)

include hdecode hmax

/-- An exchange with both streams there, whose payload does not overrun. -/
theorem sendFrame_readResponse_declared (x : Exchange φ) (data : Request) {w : World φ} {i : ℕ}
    (hw : Both w) (hi : w.held = some i) (hsafe : ExchangeSafe cfg x data (w.conns i)) :
    Ensures (· = w)
      (do
        sendFrame x data
        readResponse cfg)
      (fun _ t => Both t ∧ ∃ bs, x.payload (accepts cfg) data (w.conns i) = some bs ∧
        t.held = some i ∧ t.conns i = x.after data bs.length (w.conns i))
      (fun e _ => isIoException e = true) := by
  refine (sendFrame_readResponse_ensures cfg x data
    (exchange_payload (accepts cfg) cfg.decode hi x data)).mono ?_ ?_ ?_
  · rintro w rfl
    exact ⟨hw, rfl⟩
  · rintro r t ⟨hboth, bs, hbs, -, ht⟩
    exact ⟨hboth, bs, hbs, ht⟩
  · rintro e t ⟨-, ⟨bs, d, hbs, hd, rfl⟩ | hio⟩
    · exact declared_of_decode hdecode hmax (payload_of_exchange hbs) (hsafe bs hbs) hd
    · exact declared_of_isIo hio

/-- An attempt to connect where no connection is held. -/
theorem connectSocket_declared (a : Attempt φ) (hsafe : AttemptSafe cfg a) :
    Ensures (fun w => w.held = none) (connectSocket cfg a)
      (fun _ t => Both t ∧ ∃ i, t.held = some i ∧ Leads cfg a (t.conns i))
      (fun e _ => Declared e) := by
  refine (connected_ensures _ _).bind fun b => Ensures.ite (fun hb => ?_) fun _ => ?_
  · refine ensures_pure _ ?_
    rintro w ⟨hnone, hconn⟩
    have hc := hconn.mp hb
    rw [World.Connected, hnone] at hc
    cases hc
  refine Ensures.bind (R := fun _ t => ∃ i, t.held = some i ∧ t.conns i = .fresh) ?_ fun _ =>
    Ensures.bind (meet_declared a.input _) fun _ =>
    Ensures.bind (R := fun _ t => t.input = true ∧ ∃ i, t.held = some i ∧ t.conns i = .fresh)
      (fun _ h => ⟨rfl, h⟩) fun _ =>
    Ensures.bind (meet_declared a.output _) fun _ =>
    Ensures.bind (R := fun _ t => Both t ∧ ∃ i, t.held = some i ∧ t.conns i = .fresh)
      (fun _ h => ⟨⟨h.1, rfl⟩, h.2⟩) fun _ => ?_
  · rintro w -
    cases a.dial with
    | ok => exact ⟨w.next, rfl, World.update_conns_self w w.next fun _ => .fresh⟩
    | failed f => exact Or.inl rfl
  · cases htoken : cfg.authToken with
    | none =>
        refine ensures_pure _ fun t ht => ⟨ht.1, ht.2.imp fun i hi => ⟨hi.1, ?_⟩⟩
        simpa [Leads, htoken] using hi.2
    | some token =>
        dsimp only
        rw [← bind_assoc]
        refine Ensures.bind (R := fun _ t => Both t ∧ ∃ i, t.held = some i ∧
          Leads cfg a (t.conns i)) ?_ fun resp => Ensures.ite
            (fun _ => ensures_pure _ fun _ h => h) fun _ =>
              (closeSocketOnly_ensures _ _).bind fun _ => ensures_throw _ fun _ _ => ?_
        · rintro t ⟨hboth, i, hi, hfresh⟩
          have hauth := hsafe token htoken
          rw [← hfresh] at hauth
          refine ((sendFrame_readResponse_declared hdecode hmax a.auth (.auth token) hboth hi
            hauth).weaken_post ?_ fun _ _ h => Or.inl h) t rfl
          rintro - u ⟨hu, bs, hbs, hheld, hconn⟩
          refine ⟨hu, i, hheld, ?_⟩
          simp only [Leads, htoken]
          rw [hfresh] at hbs hconn
          exact ⟨bs, hbs, hconn⟩
        · cases resp with
          | error code message => exact Or.inr (Or.inl ⟨code, message, rfl⟩)
          | _ => exact Or.inl rfl

/-- A request that is sent while the streams are there. One that is not sent again fails
with its outcome unknown. -/
theorem sendAndRead_declared (env : CallEnv φ) (data : Request) (retrySafe : Bool) {w : World φ}
    (hst : Streams w) (hout : w.output = true)
    (hfirst : ∀ i, w.held = some i → ExchangeSafe cfg env.first data (w.conns i))
    (hreconnect : retrySafe = true → cfg.autoReconnect = true → AttemptSafe cfg env.reconnect)
    (hretry : retrySafe = true → cfg.autoReconnect = true →
      ∀ c, Leads cfg env.reconnect c → ExchangeSafe cfg env.retry data c) :
    Ensures (· = w) (sendAndRead cfg env data retrySafe) (fun _ _ => True)
      (fun e _ => Declared e ∧ (retrySafe = false → e = .outcomeUnknown)) := by
  have hboth : Both w := ⟨hst.1 hout, hout⟩
  obtain ⟨i, hi⟩ := Option.isSome_iff_exists.mp (hst.2 hboth.1)
  refine Ensures.tryCatch ((sendFrame_readResponse_declared hdecode hmax env.first data hboth hi
    (hfirst i hi)).weaken_post (fun _ _ _ => trivial) fun _ _ h => h) fun first => ?_
  refine Ensures.of_fact (P := fun _ => True) (fun hio => ?_) |>.strengthen_pre
    fun _ h => ⟨h, trivial⟩
  refine Ensures.ite (fun _ => ?_) fun hno => absurd hio hno
  refine (closeSocketOnly_ensures _ _).bind fun _ => Ensures.ite (fun hsafe => Ensures.ite
    (fun hauto => ?_) fun _ => ensures_throw _ fun _ _ => ?_) fun hsafe =>
      ensures_throw _ fun _ _ => ⟨Or.inl rfl, fun _ => rfl⟩
  · have hnever : ∀ {p : Prop}, retrySafe = false → p := fun h => by
      rw [hsafe] at h
      cases h
    refine Ensures.bind (((connectSocket_declared hdecode hmax env.reconnect
      (hreconnect hsafe hauto)).strengthen_pre fun _ h => h.1).weaken_post (fun _ _ h => h)
        fun _ _ h => ⟨h, hnever⟩) fun _ => ?_
    rintro t ⟨ht, j, hj, hleads⟩
    exact ((sendFrame_readResponse_declared hdecode hmax env.retry data ht hj
      (hretry hsafe hauto _ hleads)).weaken_post (fun _ _ _ => trivial)
        fun _ _ h => ⟨Or.inl h, hnever⟩) t rfl
  · refine ⟨Or.inl hio, fun h => ?_⟩
    rw [hsafe] at h
    cases h

end Pieces

/-- What an operation makes of a response it does not expect. -/
def Refusal (e : Failure φ) : Prop :=
  (∃ code message, e = .server code message) ∨ ∃ r, e = .unexpected r

theorem refusal_of_refuse {r : ClientResponse} {e : Failure φ} (h : refuse r = .error e) :
    Refusal e := by
  cases r with
  | error code message =>
      cases h
      exact Or.inl ⟨code, message, rfl⟩
  | _ =>
      cases h
      exact Or.inr ⟨_, rfl⟩

/-- A response that is not the expected one is refused. -/
theorem refusal_of_accept {c : Call} {r : ClientResponse} {e : Failure φ}
    (h : c.accept acceptPing r = .error e) : Refusal e := by
  cases c with
  | connect => exact refusal_of_refuse h
  | close => exact refusal_of_refuse h
  | ping => cases h
  | _ =>
      cases r with
      | error code message => cases h; exact Or.inl ⟨code, message, rfl⟩
      | _ =>
          cases h
          try exact Or.inr ⟨_, rfl⟩

theorem Refusal.declared {e : Failure φ} (h : Refusal e) : Declared e := by
  rcases h with h | ⟨r, rfl⟩
  · exact Or.inr (Or.inl h)
  · exact Or.inl rfl

/-- The normalizer finds the text of an unexpected response. -/
theorem containsLower_unexpected (kind : String) :
    containsLower ("Unexpected response: " ++ kind) "unexpected response" = true := by
  have hlower : "Unexpected response: ".toList.map Char.toLower =
      "unexpected response".toList ++ [':', ' '] := by simp
  rw [containsLower, decide_eq_true_iff, String.toList_append, List.map_append, hlower,
    List.append_assoc]
  exact (List.prefix_append _ _).isInfix

/-- The normalizer recognises the message of an unexpected response. -/
theorem normalizeAtomic_unexpected (text : Failure φ → String) (operation : String)
    (r : ClientResponse) :
    normalizeAtomic text operation (.unexpected r) = unsupportedAtomicOperation operation := by
  unfold normalizeAtomic
  refine if_pos (List.any_eq_true.mpr ⟨"unexpected response", ?_, ?_⟩)
  · simp [unsupportedTexts]
  · exact containsLower_unexpected (responseType r)

/-- Reading the result off the response fails as sending does, or with a refusal. -/
theorem request_declared {P : World φ → Prop} {send : Client φ ClientResponse} {c : Call}
    {E : Failure φ → Prop} (hsend : Ensures P send (fun _ _ => True) (fun e _ => E e)) :
    Ensures P (request send (c.accept acceptPing)) (fun _ _ => True)
      (fun e _ => E e ∨ Refusal e) := by
  refine Ensures.bind (hsend.weaken_post (fun _ _ h => h) fun _ _ h => Or.inl h) fun r =>
    (ofExcept_ensures _).weaken_post (fun _ _ _ => trivial) ?_
  rintro e w ⟨-, h⟩
  exact Or.inr (refusal_of_accept h)

/-- An atomic operation whose request fails with its outcome unknown. -/
theorem renamed_declared {text : Failure φ → String}
    (hname : cfg.normalizeAtomic = normalizeAtomic text) (operation : String) {e : Failure φ}
    (h : (∃ m, e = .invalid m) ∨ e = .outcomeUnknown ∨ Refusal e) :
    Declared (normalizeTcpAtomicError cfg operation e) := by
  rcases h with ⟨m, rfl⟩ | rfl | ⟨code, m, rfl⟩ | ⟨r, rfl⟩
  · exact Or.inr (Or.inr ⟨m, rfl⟩)
  · exact Or.inl rfl
  · exact Or.inr (Or.inl ⟨code, m, rfl⟩)
  · have hrenamed : normalizeTcpAtomicError cfg operation (.unexpected r) =
        cfg.normalizeAtomic operation (.unexpected r) := rfl
    rw [hrenamed, hname, normalizeAtomic_unexpected]
    exact Or.inr (Or.inl ⟨_, _, rfl⟩)

/-- A call that is safe ends as it may. -/
theorem call_declared {text : Failure φ → String}
    (hdecode : cfg.decode = javaDialect.decodeResponse) (hmax : cfg.maxFrameBytes ≤ 2 ^ 31 - 1)
    (hname : cfg.normalizeAtomic = normalizeAtomic text)
    (env : CallEnv φ) (c : Call) {w : World φ} (hst : Streams w) (hsafe : Safe cfg w (c, env)) :
    Ensures (· = w) (call cfg env c) (fun _ _ => True) (fun e _ => Declared e) := by
  cases hc : c.request? with
  | some frame =>
      have hsend : cfg.Admits c → Ensures (· = w) (sendAndRead cfg env frame c.retrySafe)
          (fun _ _ => True) (fun e _ => Declared e ∧ (c.retrySafe = false → e = .outcomeUnknown)) :=
        fun hadmit => sendAndRead_declared hdecode hmax env frame c.retrySafe hst
          (hsafe.output (by rw [hc]; rfl) hadmit) (hsafe.first frame hc) hsafe.reconnect
          fun hretry hauto => hsafe.retry hretry hauto frame hc
      have hok : cfg.validate frame = .ok () → cfg.Admits c := fun h frame' h' _ => by
        rw [hc] at h'
        cases h'
        exact h
      -- an operation whose arguments are validated
      have hoperation : Ensures (· = w) (operation cfg env frame c.retrySafe (c.accept acceptPing))
          (fun _ _ => True) (fun e _ => (∃ m, e = .invalid m) ∨
            (Declared e ∧ (c.retrySafe = false → e = .outcomeUnknown)) ∨ Refusal e) :=
        ((check_ensures cfg frame).weaken_post (fun _ _ h => h) fun _ _ h => Or.inl h.1).bind
          fun _ => Ensures.of_fact fun h => (request_declared (hsend (hok h))).weaken_post
            (fun _ _ h => h) fun _ _ h => Or.inr h
      have hdeclared : ∀ {e : Failure φ}, (∃ m, e = .invalid m) ∨
          (Declared e ∧ (c.retrySafe = false → e = .outcomeUnknown)) ∨ Refusal e → Declared e := by
        rintro e (h | h | h)
        · exact Or.inr (Or.inr h)
        · exact h.1
        · exact h.declared
      have hatomic : c.retrySafe = false → ∀ name, Ensures (· = w)
          (mapFailure (normalizeTcpAtomicError cfg name)
            (operation cfg env frame c.retrySafe (c.accept acceptPing)))
          (fun _ _ => True) (fun e _ => Declared e) := fun hsafe name =>
        hoperation.tryCatch fun e => ensures_throw _ fun _ h => renamed_declared hname name
          (h.imp_right fun h => h.imp_left fun h => h.2 hsafe)
      cases c with
      | connect => cases hc
      | close => cases hc
      | waitWatchEvent => cases hc
      | ping =>
          cases hc
          exact (request_declared (c := .ping) (hsend fun _ _ h => absurd rfl h)).weaken_post
            (fun _ _ h => h) fun _ _ h => hdeclared (Or.inr h)
      | setNx key value ttl ns =>
          cases hc
          exact hatomic rfl "SET_NX"
      | incr key delta ttl ns =>
          cases hc
          exact hatomic rfl "INCR"
      | _ =>
          cases hc
          exact hoperation.weaken_post (fun _ _ h => h) fun _ _ h => hdeclared h
  | none =>
      cases c with
      | connect =>
          refine Ensures.bind (R := fun _ _ => True) ?_ fun _ => ensures_pure _ fun _ h => h
          by_cases hheld : w.held = none
          · have hnone : ∀ u, u = w → u.held = none := by
              rintro u rfl
              exact hheld
            exact ((connectSocket_declared hdecode hmax env.connect
              (hsafe.connect rfl hheld)).strengthen_pre hnone).weaken_post
                (fun _ _ _ => trivial) fun _ _ h => h
          · rintro u rfl
            have hconn : u.held.isSome = true := Option.isSome_iff_ne_none.mpr hheld
            simp only [connectSocket, connected, bind, EStateM.bind, hconn]
            trivial
      | close => exact (closeSocketOnly_ensures _ _).bind fun _ => ensures_pure _ fun _ _ => trivial
      | waitWatchEvent =>
          have hin := hsafe.input rfl
          obtain ⟨i, hi⟩ := Option.isSome_iff_exists.mp (hst.2 hin)
          have hwait : Ensures (· = w) (awaitFrame (accepts cfg) cfg.decode env.first.toArrival)
              (fun _ _ => True) (fun e _ => Declared e) := by
            refine (awaitFrame_payload (accepts cfg) cfg.decode hi env.first.toArrival).weaken_post
              (fun _ _ _ => trivial) ?_
            rintro e t (⟨bs, d, hbs, hd, rfl⟩ | hio)
            · exact Or.inl (declared_of_decode hdecode hmax (accepts_of_payload hbs)
                (hsafe.wait rfl i hi bs hbs) hd)
            · exact Or.inl (declared_of_isIo hio)
          have hrequest := request_declared (c := .waitWatchEvent) hwait
          rintro u rfl
          simp only [call, waitForWatchEvent, hasInput, bind, EStateM.bind, hin]
          exact (hrequest.weaken_post (fun _ _ h => h)
            fun _ _ h => h.elim id Refusal.declared) u rfl
      | _ => cases hc

/-- In every run that starts with a successful `connect` and whose calls keep to `C`, every
operation returns or throws what it may. -/
def Disciplined (C : World φ → Call × CallEnv φ → Prop) (cfg : Config φ) : Prop :=
  ∀ env₀ w₀ ls w, connect cfg env₀ World.init = .ok .done w₀ →
    Run (callStep (call cfg)) C w₀ ls w → ∀ c env, C w (c, env) →
      (∃ res t, call cfg env c w = .ok res t) ∨
        ∃ e t, call cfg env c w = .error e t ∧ Declared e

/-- The Java client throws what it may as long as its calls are safe. -/
theorem errors_declared (authToken : Option String) (autoReconnect : Bool)
    (validate : Request → Except String Unit) (text : Failure φ → String) :
    Disciplined (Safe (settings authToken autoReconnect validate text))
      (settings authToken autoReconnect validate text) := by
  intro env₀ w₀ ls w hconnect hrun c env hsafe
  have hstart : Streams w₀ := (call_streams _ env₀ .connect).of_ok streams_init hconnect
  have hst : Streams w := streams_of_run hrun hstart
  have hmax : (settings authToken autoReconnect validate text).maxFrameBytes ≤ 2 ^ 31 - 1 := by
    change 8 * 1024 * 1024 ≤ 2 ^ 31 - 1
    omega
  have hcall := call_declared rfl hmax rfl env c hst hsafe w rfl
  cases hm : call (settings authToken autoReconnect validate text) env c w with
  | ok res t => exact Or.inl ⟨res, t, rfl⟩
  | error e t =>
      rw [hm] at hcall
      exact Or.inr ⟨e, t, rfl, hcall⟩

/-- A client without a token that reconnects and accepts all arguments. -/
def plainSettings : Config Unit :=
  settings none true (fun _ => .ok ()) fun _ => ""

/-- After a `set` that was not answered the streams are gone, and `get` does not reconnect
but ends in a null pointer error. -/
theorem errors_not_declared : ¬ Disciplined (fun _ _ => True) plainSettings := by
  intro h
  obtain ⟨w₀, w, t, hconnect, hset, hget⟩ : ∃ w₀ w t,
      connect plainSettings (.undisturbed []) World.init = .ok .done w₀ ∧
        exec (callStep (call plainSettings)) (fun _ _ => True) w₀
          [(.set "a" [] none none, .undisturbed [])] = some w ∧
        call plainSettings (.undisturbed []) (.get "a" none) w = .error .nullPointer t :=
    ⟨_, _, _, rfl, rfl, rfl⟩
  rcases h _ w₀ _ w hconnect (run_of_exec hset) (.get "a" none) (.undisturbed []) trivial with
    ⟨res, u, hok⟩ | ⟨e, u, herr, hdeclared⟩
  · rw [hget] at hok
    cases hok
  · rw [hget] at herr
    cases herr
    rcases hdeclared with h | ⟨_, _, h⟩ | ⟨_, h⟩ <;> cases h

end Declared

end Java

end LockStep

end DittoClient
