import DittoClient.LockStep.JavaErrors
import DittoClient.Text.Lower

/-!
# When an atomic operation is reported as unsupported

A server that does not know the atomic operations answers them with Error{UnsupportedRequest}, with
something that cannot be decoded, or with another response. The clients report all of this as
UnsupportedRequest, and tell it by the text of an error. The report is right as long as the error
comes from the answer to the request itself: what is read next on the connection is this answer, and
opening the connection does not fail with an error whose text is taken for a refusal.
-/

namespace DittoClient

namespace LockStep

open DittoClient.Octets
open DittoClient.Protobuf
open DittoClient.Wire
open DittoClient.Program
open DittoClient.Transition

variable {φ : Type}

/-- Whether an error is reported as UnsupportedRequest: it has this code, or its text is taken for
that of a server without atomic operations. -/
def reported (isErr taken : Failure φ → Bool) : Failure φ → Bool
  | .server code _ => decide (code = "UnsupportedRequest")
  | e => isErr e && taken e

/-- Whether a request is one of the atomic operations. -/
def isAtomic : Request → Bool
  | .setNx _ _ _ _ => true
  | .incr _ _ _ _ => true
  | _ => false

/-- The atomic operations are the calls of these two kinds. -/
theorem atomic_cases {P : Call → Request → Prop}
    (hsetNx : ∀ key value ttl ns, P (.setNx key value ttl ns) (.setNx key value ttl ns))
    (hincr : ∀ key delta ttl ns, P (.incr key delta ttl ns) (.incr key delta ttl ns)) {c : Call}
    {frame : Request} (hc : c.request? = some frame) (ha : isAtomic frame = true) : P c frame := by
  cases c with
  | setNx key value ttl ns =>
      cases hc
      exact hsetNx key value ttl ns
  | incr key delta ttl ns =>
      cases hc
      exact hincr key delta ttl ns
  | _ => cases hc <;> cases ha

/-- Whether a response is of the variant that an atomic operation returns. -/
def isOwn : Request → ClientResponse → Bool
  | .setNx _ _ _ _, .setNx _ _ => true
  | .incr _ _ _ _, .counter _ _ => true
  | _, _ => false

/-- A response refuses an atomic operation. -/
def Declines (req : Request) (r : ClientResponse) : Prop :=
  (∃ message, r = .error "UnsupportedRequest" message) ∨
    isOwn req r = false ∧ ∀ code message, r ≠ .error code message

/-- The answer to an atomic operation refuses it, or cannot be decoded. -/
def Refuses (decode : Decoder) (req : Request) (p : Payload) : Prop :=
  (∃ e, decode p.bytes = .error e) ∨ ∃ r, decode p.bytes = .ok r ∧ Declines req r

/-- The last frame written on a connection is `frame`, behind the frames of `before`, and the answer
to it is `p` and has been read. -/
structure Connection.Gets (c : Connection) (before : List Written) (frame : Request) (p : Payload) :
    Prop where
  written : ∃ seen, c.written = before ++ [⟨frame, true, seen⟩]
  answer : ∃ m, c.sent[m]? = some (.reply p) ∧
    ((c.sent.take m).filterMap ServerFrame.reply?).length = before.countP Written.complete ∧
      (frames ((c.sent.take (m + 1)).map ServerFrame.payload)).length ≤ c.read

/-- In a call that led from `w` to `t`, the request was written and its answer was read, and the
answer refuses the request. The connection is the one that was held, or a new one. -/
def World.Refused (decode : Decoder) (frame : Request) (w t : World φ) : Prop :=
  ∃ i before p, (w.held = some i ∧ before = (w.conns i).written ∨ w.next ≤ i) ∧
    (t.conns i).Gets before frame p ∧ Refuses decode frame p

/-- What is to be read next on a connection is the answer to the frame that was written last. -/
def Connection.AnswerNext (c : Connection) : Prop :=
  ∃ m p, c.sent[m]? = some (.reply p) ∧
    ((c.sent.take m).filterMap ServerFrame.reply?).length + 1 = c.received ∧
      c.read = (frames ((c.sent.take m).map ServerFrame.payload)).length

/-- If a frame is read in an exchange, it is the answer. -/
def Exchange.InTurn (accepts : ℕ → Bool) (x : Exchange φ) (frame : Request) (c : Connection) :
    Prop :=
  (x.payload accepts frame c).isSome = true → (x.awaiting frame c).AnswerNext

/-- In every run whose calls keep to `C`, an atomic operation fails with UnsupportedRequest only if
the answer to it was received and refuses it. -/
def NeverGuesses (C : World φ → Call × CallEnv φ → Prop)
    (call : CallEnv φ → Call → Client φ Result) (decode : Decoder) : Prop :=
  ∀ ls w, Run (callStep call) C World.init ls w → ∀ c env frame, C w (c, env) →
    c.request? = some frame → isAtomic frame = true →
      ∀ message t, call env c w = .error (.server "UnsupportedRequest" message) t →
        w.Refused decode frame t

section Answers

/-- The frame that is read next on a connection. -/
theorem inbound_of_next {c : Connection} {m : ℕ} {f : ServerFrame} (hf : c.sent[m]? = some f)
    (hread : c.read = (frames ((c.sent.take m).map ServerFrame.payload)).length) :
    c.inbound = frame f.payload ++
      frames ((c.sent.drop (m + 1)).map ServerFrame.payload) := by
  obtain ⟨hlt, hget⟩ := List.getElem?_eq_some_iff.mp hf
  rw [Connection.inbound, hread, List.map_take, Connection.stream, drop_frames_take,
    ← List.map_drop, List.drop_eq_getElem_cons hlt, hget]
  rfl

/-- What is read at the front of a frame is its payload. -/
theorem payload_frame {accepts : ℕ → Bool} {rs : List (Recv φ)} {p : Payload}
    {rest bs : List UInt8} (h : payload accepts rs (frame p ++ rest) = some bs) : bs = p.bytes := by
  have hlen := ofBigEndian_take_frame p rest
  simp only [payload, hlen, Option.ite_none_right_eq_some, Option.some.injEq] at h
  rw [← h.2, drop_frame, List.take_left]

/-- The answer to a request was read, if what was read is the answer. -/
theorem Exchange.InTurn.gets {accepts : ℕ → Bool} {x : Exchange φ} {frame : Request}
    {c : Connection} (h : x.InTurn accepts frame c) {bs : List UInt8}
    (hbs : x.payload accepts frame c = some bs) :
    ∃ p, bs = p.bytes ∧ (x.after frame bs.length c).Gets c.written frame p := by
  obtain ⟨m, p, hp, hcount, hread⟩ := h (by rw [hbs]; rfl)
  have hpayload : LockStep.payload accepts x.recvs (x.awaiting frame c).inbound = some bs := by
    unfold Exchange.payload at hbs
    split at hbs
    · exact hbs
    · cases hbs
  rw [inbound_of_next hp hread] at hpayload
  obtain rfl := payload_frame hpayload
  obtain ⟨-, hwritten, -⟩ := Connection.foldl_serve_traffic x.acts (c.write frame true)
  have hreceived : (x.awaiting frame c).received = c.written.countP Written.complete + 1 := by
    rw [Connection.received, Exchange.awaiting, hwritten, Connection.write, List.countP_append]
    rfl
  obtain ⟨hlt, hget⟩ := List.getElem?_eq_some_iff.mp hp
  refine ⟨p, rfl, ⟨c.sent.length, hwritten⟩, m, hp, ?_, ?_⟩
  · change ((List.take m (x.awaiting frame c).sent).filterMap ServerFrame.reply?).length = _
    omega
  · change (frames (((x.awaiting frame c).sent.take (m + 1)).map ServerFrame.payload)).length ≤
      (x.awaiting frame c).read + (4 + p.bytes.length)
    rw [List.take_succ_eq_append_getElem hlt, hget, List.map_append, frames_append,
      List.length_append, hread]
    simp [ServerFrame.payload]

/-- What an atomic operation does with a response that is not its own. -/
theorem accept_error {c : Call} {frame : Request} (hc : c.request? = some frame)
    (ha : isAtomic frame = true) {ping : ClientResponse → Except (Failure φ) Result}
    {r : ClientResponse} {e : Failure φ} (h : c.accept ping r = .error e) :
    (∃ code message, r = .error code message ∧ e = .server code message) ∨
      e = .unexpected r ∧ isOwn frame r = false ∧ ∀ code message, r ≠ .error code message := by
  cases c with
  | setNx key value ttl ns =>
      cases hc
      cases r with
      | setNx created version => cases h
      | error code message =>
          cases h
          exact Or.inl ⟨code, message, rfl, rfl⟩
      | _ =>
          cases h
          exact Or.inr ⟨rfl, rfl, by simp⟩
  | incr key delta ttl ns =>
      cases hc
      cases r with
      | counter value version => cases h
      | error code message =>
          cases h
          exact Or.inl ⟨code, message, rfl, rfl⟩
      | _ =>
          cases h
          exact Or.inr ⟨rfl, rfl, by simp⟩
  | _ => cases hc <;> cases ha

end Answers

section Calls

variable {P : World φ → Prop}

/-- Renaming a failure renames it in what is ensured. -/
theorem mapFailure_error {α : Type} {m : Client φ α} {Q : α → World φ → Prop}
    {E E' : Failure φ → World φ → Prop} (f : Failure φ → Failure φ) (h : Ensures P m Q E)
    (hE : ∀ e t, E e t → E' (f e) t) : Ensures P (mapFailure f m) Q E' :=
  h.tryCatch fun e => ensures_throw _ fun t ht => hE e t ht

/-- Reading the result off the response fails as sending does, or with what is made of the
response. -/
theorem request_error {send : Client φ ClientResponse} {A : ClientResponse → World φ → Prop}
    {E : Failure φ → World φ → Prop} (accept : ClientResponse → Except (Failure φ) Result)
    (h : Ensures P send A E) :
    Ensures P (request send accept) (fun _ _ => True)
      (fun e t => E e t ∨ ∃ r, A r t ∧ accept r = .error e) :=
  Ensures.bind (h.weaken_post (fun _ _ ha => ha) fun _ _ he => Or.inl he) fun r =>
    (ofExcept_ensures (accept r)).weaken_post (fun _ _ _ => trivial)
      fun _ _ hr => Or.inr ⟨r, hr⟩

/-- A request that is sent once fails with its outcome unknown, or with what no handler catches. -/
theorem once_error {first : Client φ ClientResponse} {closing : Client φ Unit}
    {again : Failure φ → Client φ ClientResponse} {isErr : Failure φ → Bool}
    {A : ClientResponse → World φ → Prop} {E : Failure φ → World φ → Prop}
    (hfirst : Ensures P first A E)
    (hclosing : ∀ (R : World φ → Prop) (E : Failure φ → World φ → Prop),
      Ensures R closing (fun _ _ => True) E) :
    Ensures P
      (tryCatch first fun err =>
        if isErr err then do
          closing
          if false = true then again err else throw .outcomeUnknown
        else throw err)
      A (fun e t => e = .outcomeUnknown ∨ isErr e = false ∧ E e t) :=
  hfirst.tryCatch fun err => Ensures.ite
    (fun _ => (hclosing _ _).bind fun _ => Ensures.ite (fun h => by cases h)
      fun _ => ensures_throw _ fun _ _ => Or.inl rfl)
    fun herr => ensures_throw _ fun _ h => Or.inr ⟨eq_false_of_ne_true herr, h⟩

/-- The state in which a request is sent: the connection was held, or has been opened. -/
def World.Reaches (w u : World φ) : Prop :=
  ∃ i, u.held = some i ∧ (u = w ∨ w.next ≤ i)

/-- What an exchange returns from a state was read as a response in it. -/
def World.Reads (accepts : ℕ → Bool) (decode : Decoder) (x : Exchange φ) (frame : Request)
    (u : World φ) (r : ClientResponse) (t : World φ) : Prop :=
  ∃ i bs, u.held = some i ∧ x.payload accepts frame (u.conns i) = some bs ∧ decode bs = .ok r ∧
    t.conns i = x.after frame bs.length (u.conns i)

/-- What an exchange throws that is not caught is no answer of the server. -/
theorem exchange_reads {accepts : ℕ → Bool} {decode : Decoder} {u : World φ} {i : ℕ}
    (hi : u.held = some i) (x : Exchange φ) (frame : Request) :
    Ensures (· = u) (exchange accepts decode x frame)
      (fun r t => u.Reads accepts decode x frame r t)
      (fun e _ => ∀ code message, e ≠ .server code message) := by
  refine (exchange_payload accepts decode hi x frame).weaken_post ?_ ?_
  · rintro r t ⟨bs, hbs, hd, -, ht⟩
    exact ⟨i, bs, hi, hbs, hd, ht⟩
  · rintro e t (⟨-, d, -, -, rfl⟩ | hio) code message
    · simp
    · rintro rfl
      cases hio

/-- A response that was read in turn and declines the request is the answer to it. -/
theorem World.Reads.refused {accepts : ℕ → Bool} {decode : Decoder} {x : Exchange φ}
    {frame : Request} {w u t : World φ} {r : ClientResponse}
    (h : u.Reads accepts decode x frame r t) (hreach : w.Reaches u)
    (hturn : ∀ i, u.held = some i → x.InTurn accepts frame (u.conns i))
    (hr : Declines frame r) : w.Refused decode frame t := by
  obtain ⟨i, bs, hi, hbs, hd, ht⟩ := h
  obtain ⟨p, rfl, hgets⟩ := (hturn i hi).gets hbs
  obtain ⟨j, hj, hfrom⟩ := hreach
  obtain rfl : i = j := Option.some.inj (hi.symm.trans hj)
  refine ⟨i, _, p, ?_, ht ▸ hgets, Or.inr ⟨r, hd, hr⟩⟩
  rcases hfrom with rfl | hnew
  · exact Or.inl ⟨hi, rfl⟩
  · exact Or.inr hnew

/-- What a request that is sent once fails with is not reported as unsupported. -/
theorem not_reported_of_once {isErr taken : Failure φ → Bool}
    (hunknown : taken .outcomeUnknown = false) {e : Failure φ}
    (he : e = .outcomeUnknown ∨ isErr e = false ∧ ∀ code message, e ≠ .server code message) :
    reported isErr taken e = false := by
  rcases he with rfl | ⟨hnot, hserver⟩
  · simp [reported, hunknown]
  · cases e with
    | server code message => exact absurd rfl (hserver code message)
    | _ => simp [reported, hnot]

/-- What is made of a response and reported as unsupported comes from the answer to the request. -/
theorem World.Reads.refused_of_reported {isErr taken : Failure φ → Bool} {c : Call}
    {frame : Request} (hc : c.request? = some frame) (ha : isAtomic frame = true)
    {ping : ClientResponse → Except (Failure φ) Result} {accepts : ℕ → Bool} {decode : Decoder}
    {x : Exchange φ} {w u t : World φ} {r : ClientResponse} {e : Failure φ}
    (h : u.Reads accepts decode x frame r t) (haccept : c.accept ping r = .error e)
    (hreported : reported isErr taken e = true) (hreach : w.Reaches u)
    (hturn : ∀ i, u.held = some i → x.InTurn accepts frame (u.conns i)) :
    w.Refused decode frame t := by
  refine h.refused hreach hturn ?_
  rcases accept_error hc ha haccept with ⟨code, message, rfl, rfl⟩ | ⟨-, hown, hne⟩
  · exact Or.inl ⟨message, by rw [of_decide_eq_true hreported]⟩
  · exact Or.inr ⟨hown, hne⟩

/-- What a normalizer that renames errors by their text reports as unsupported. -/
theorem reported_of_normalize {isErr taken : Failure φ → Bool} {cfg : Config φ} {name : String}
    {unsupported e : Failure φ}
    (hname : ∀ e, cfg.normalizeAtomic name e = if taken e then unsupported else e) {m : String}
    (h : (if isErr e then cfg.normalize name e else e) = .server "UnsupportedRequest" m) :
    reported isErr taken e = true := by
  cases e with
  | server code message =>
      split at h
      · cases h
        rfl
      · cases h
        rfl
  | _ =>
      split at h
      · next herr =>
          simp only [Config.normalize, hname] at h
          split at h
          · next htaken => simp only [reported, herr, htaken, Bool.and_self]
          · cases h
      · cases h

/-- An exchange holds on to the connection. -/
theorem exchange_held {accepts : ℕ → Bool} {decode : Decoder} (x : Exchange φ) (frame : Request)
    (i : ℕ) : Ensures (fun w => w.held = some i) (exchange accepts decode x frame)
      (fun _ t => t.held = some i) (fun _ _ => True) := by
  intro w hw
  exact ((exchange_follows accepts decode x frame w).weaken_post
    (fun _ _ h => h.held.trans hw) fun _ _ _ => trivial) w rfl

/-- A connection that is opened is a new one. -/
theorem dial_hold_new (d : Dial φ) (w : World φ) :
    Ensures (· = w) (dial d >>= hold) (fun _ t => t.held = some w.next) (fun _ _ => True) := by
  rintro w rfl
  cases d with
  | ok => rfl
  | failed f => trivial

end Calls

namespace Go

/-- The message of an error, where those of the transport are given by `text`. -/
def message (text : Failure φ → String) : Failure φ → String
  | .frameTooLarge len => "incoming frame too large: " ++ toString len
  | .decode (.malformed m) => m
  | .outcomeUnknown => "request outcome unknown after connection loss; operation was not retried: " ++
      text .outcomeUnknown
  | .unexpected _ => "unexpected response"
  | .unexpectedAuth _ => "unexpected auth response"
  | .invalid m => m
  | e => text e

/-- The texts by which the normalizer tells that the server lacks atomic operations. -/
def unsupportedTexts : List String :=
  ["unsupported", "protocol", "decode", "clientresponse oneof", "unexpected response", "eof",
    "connection reset"]

/-- Whether the normalizer takes a message for one of a server without atomic operations. -/
def takenForUnsupported (msg : String) : Bool :=
  !Text.contains Text.goLowerChar msg "request outcome unknown" &&
    Text.containsAny Text.goLowerChar unsupportedTexts msg

def unsupportedAtomicOperationError (operation : String) : Failure φ :=
  .server "UnsupportedRequest" ("server does not support " ++ operation ++
    "; upgrade dittod to a version with atomic primitives")

/-- The normalizer on an error that is not a `DittoError`. -/
def normalizeAtomic (text : Failure φ → String) (operation : String) (e : Failure φ) : Failure φ :=
  if takenForUnsupported (message text e) then unsupportedAtomicOperationError operation else e

/-- The settings of a Go client: its own decoder and normalizer. -/
def settings (authToken : Option String) (autoReconnect : Bool) (maxFrameBytes : ℕ)
    (validate : Request → Except String Unit) (text : Failure φ → String) : Config φ where
  authToken := authToken
  autoReconnect := autoReconnect
  maxFrameBytes := maxFrameBytes
  decode := goDialect.decodeResponse
  validate := validate
  normalizeAtomic := normalizeAtomic text

/-- Opening a connection for an atomic operation does not fail with an error that is reported as
UnsupportedRequest, and if a frame is read for the operation, it is the answer to it. -/
structure Attributable (text : Failure φ → String) (cfg : Config φ) (w : World φ)
    (a : Call × CallEnv φ) : Prop where
  connect : ∀ frame, a.1.request? = some frame → isAtomic frame = true →
    ∀ e u, ensureConnectedLocked cfg a.2.connect w = .error e u →
      reported isErr (fun e => takenForUnsupported (message text e)) e = false
  answer : ∀ frame, a.1.request? = some frame → isAtomic frame = true →
    cfg.validate frame = .ok () → ∀ u, ensureConnectedLocked cfg a.2.connect w = .ok () u →
      ∀ i, u.held = some i → a.2.first.InTurn cfg.accepts frame (u.conns i)

theorem ensureConnectedLocked_reaches (cfg : Config φ) (a : Attempt φ) (w : World φ) :
    Ensures (· = w) (ensureConnectedLocked cfg a) (fun _ u => w.Reaches u) (fun _ _ => True) := by
  refine (connected_ensures _ _).bind fun b => Ensures.ite (fun hb => ensures_pure _ ?_) fun _ => ?_
  · rintro u ⟨rfl, hconn⟩
    obtain ⟨i, hi⟩ := Option.isSome_iff_exists.mp (hconn.mp hb)
    exact ⟨i, hi, Or.inl rfl⟩
  · have hnew : ∀ t : World φ, t.held = some w.next → w.Reaches t :=
      fun t ht => ⟨w.next, ht, Or.inr le_rfl⟩
    refine Ensures.bind (((dial_hold_new a.dial w).strengthen_pre fun _ h => h.1))
      fun _ => ?_
    cases authToken cfg with
    | none => exact ensures_pure _ hnew
    | some token =>
        refine Ensures.bind (Ensures.tryCatch (exchange_held a.auth (.auth token) w.next)
          fun err => Ensures.ite (fun _ => ?_) fun _ => ensures_throw _ fun _ _ => trivial)
            fun resp => Ensures.ite (fun _ => ensures_pure _ hnew) fun _ => ?_
        · exact (release_ensures _ _).bind fun _ => ensures_throw _ fun _ _ => trivial
        · exact (release_ensures _ _).bind fun _ => ensures_throw _ fun _ _ => trivial

section Reported

variable {authToken : Option String} {autoReconnect : Bool} {maxFrameBytes : ℕ}
  {validate : Request → Except String Unit} {text : Failure φ → String}

/-- A request with an unknown outcome is not reported as unsupported. -/
theorem not_taken_outcomeUnknown (text : Failure φ → String) :
    takenForUnsupported (message text .outcomeUnknown) = false := by
  have hcontains : Text.contains Text.goLowerChar (message text .outcomeUnknown)
      "request outcome unknown" = true := Text.contains_append (by decide) _
  rw [takenForUnsupported, hcontains, Bool.not_true, Bool.false_and]

/-- An atomic operation whose error comes from the answer to it. -/
theorem atomic_refused (env : CallEnv φ) {c : Call} {frame : Request}
    (hc : c.request? = some frame) (ha : isAtomic frame = true) (name : String) {w : World φ}
    (h : Attributable text (settings authToken autoReconnect maxFrameBytes validate text) w
      (c, env)) :
    Ensures (· = w)
      (atomic (settings authToken autoReconnect maxFrameBytes validate text) env name frame
        (c.accept acceptPing))
      (fun _ _ => True)
      (fun e t => ∀ m, e = .server "UnsupportedRequest" m →
        w.Refused goDialect.decodeResponse frame t) := by
  generalize hcfg : settings authToken autoReconnect maxFrameBytes validate text = cfg at h ⊢
  have hdecode : cfg.decode = goDialect.decodeResponse := by rw [← hcfg]; rfl
  have hname : ∀ e, cfg.normalizeAtomic name e =
      if takenForUnsupported (message text e) then unsupportedAtomicOperationError name else e := by
    rw [← hcfg]
    exact fun _ => rfl
  refine Ensures.bind (mapFailure_error _ ((ensureConnectedLocked_reaches cfg env.connect w).and
    (ensures_run _ w) |>.strengthen_pre fun _ h => ⟨h, h⟩) ?_) fun _ => ?_
  · rintro e u ⟨-, hrun⟩ m hm
    have hreported := h.connect frame hc ha e u hrun
    rw [reported_of_normalize hname hm] at hreported
    cases hreported
  · rintro u ⟨hreach, hrun⟩
    obtain ⟨i, hi⟩ : ∃ i, u.held = some i := hreach.imp fun _ h => h.1
    refine Ensures.bind (P := (· = u)) ((check_ensures cfg frame).weaken_post
      (fun _ _ h => h) ?_) (fun _ => Ensures.of_fact fun hvalid => mapFailure_error _
        (request_error _ (once_error (exchange_reads hi env.first frame) fun R E => (release_ensures R E).weaken_post
          (fun _ _ _ => trivial) fun _ _ h => h)) ?_) u rfl
    · rintro e t ⟨⟨message, rfl⟩, -⟩ m hm
      cases hm
    · rintro e t (he | ⟨r, hreads, haccept⟩) m hm
      · have hreported := reported_of_normalize hname hm
        cases hreported.symm.trans (not_reported_of_once (not_taken_outcomeUnknown text) he)
      · rw [← hdecode]
        exact hreads.refused_of_reported hc ha haccept (reported_of_normalize hname hm) hreach
          (h.answer frame hc ha hvalid u hrun)

/-- The atomic operations. -/
theorem call_atomic (cfg : Config φ) (env : CallEnv φ) {c : Call} {frame : Request}
    (hc : c.request? = some frame) (ha : isAtomic frame = true) :
    ∃ name, call cfg env c = atomic cfg env name frame (c.accept acceptPing) :=
  atomic_cases (P := fun c frame => ∃ name,
      call cfg env c = atomic cfg env name frame (c.accept acceptPing))
    (fun _ _ _ _ => ⟨"SET_NX", rfl⟩) (fun _ _ _ _ => ⟨"INCR", rfl⟩) hc ha

/-- The Go client reports an atomic operation as unsupported on the answer to it alone. -/
theorem never_guesses (authToken : Option String) (autoReconnect : Bool) (maxFrameBytes : ℕ)
    (validate : Request → Except String Unit) (text : Failure φ → String) :
    NeverGuesses (Attributable text
        (settings authToken autoReconnect maxFrameBytes validate text))
      (call (settings authToken autoReconnect maxFrameBytes validate text))
      goDialect.decodeResponse := by
  intro ls w _ c env frame h hc ha m t hcall
  obtain ⟨name, hname⟩ := call_atomic
    (settings authToken autoReconnect maxFrameBytes validate text) env hc ha
  rw [hname] at hcall
  exact (atomic_refused env hc ha name h).of_error rfl hcall m rfl

end Reported

end Go

namespace Rust

/-- The text of an error, where those of the transport are given by `text`. -/
def display (text : Failure (Fault φ) → String) (operation : String) : Failure (Fault φ) → String
  | .timeout => "protocol error: tcp read timed out"
  | .closedByServer => "io error: early eof"
  | .frameTooLarge len => "protocol error: incoming frame too large: " ++ toString len
  | .decode (.malformed m) => "protocol error: " ++ m
  | .notConnected => "protocol error: tcp stream is not connected"
  | .outcomeUnknown => "protocol error: request outcome unknown after connection loss; " ++
      "operation was not retried"
  | .unexpected _ => "protocol error: unexpected " ++ operation.toLower ++ " response"
  | .unexpectedAuth _ => "protocol error: unexpected auth response"
  | .invalid m => "validation error: " ++ m
  | e => text e

/-- The texts by which the normalizer tells that the server lacks atomic operations. -/
def unsupportedTexts : List String :=
  ["unsupported", "protocol", "decode", "unexpected response", "eof", "connection reset"]

/-- Whether the normalizer takes a text for one of a server without atomic operations. -/
def takenForUnsupported (s : String) : Bool :=
  !Text.contains Text.lowerChar s "request outcome unknown" &&
    Text.containsAny Text.lowerChar unsupportedTexts s

def unsupportedAtomicOperationError (operation : String) : Failure (Fault φ) :=
  .server "UnsupportedRequest" ("UnsupportedRequest: server does not support " ++ operation ++
    ". Upgrade dittod to a version with atomic primitives.")

/-- The normalizer on an error that is not from the server. -/
def normalizeAtomic (text : Failure (Fault φ) → String) (operation : String)
    (e : Failure (Fault φ)) : Failure (Fault φ) :=
  if takenForUnsupported (display text operation e) then unsupportedAtomicOperationError operation
  else e

/-- The settings of a Rust client: its own decoder and normalizer. -/
def settings (overflowChecks : Bool) (authToken : Option String) (autoReconnect : Bool)
    (maxFrameBytes : ℕ) (validate : Request → Except String Unit)
    (text : Failure (Fault φ) → String) : Config (Fault φ) where
  authToken := authToken
  autoReconnect := autoReconnect
  maxFrameBytes := maxFrameBytes
  decode := (rustDialect overflowChecks).decodeResponse
  validate := validate
  normalizeAtomic := normalizeAtomic text

/-- What a call does before it sends its request. -/
def opening (cfg : Config (Fault φ)) (env : CallEnv (Fault φ)) : Client (Fault φ) Unit := do
  meet env.lock
  ensureConnectedLocked cfg env.connect

/-- Opening a connection for an atomic operation does not fail with an error that is reported as
UnsupportedRequest, and if a frame is read for the operation, it is the answer to it. -/
structure Attributable (text : Failure (Fault φ) → String) (cfg : Config (Fault φ))
    (w : World (Fault φ)) (a : Call × CallEnv (Fault φ)) : Prop where
  connect : ∀ frame, a.1.request? = some frame → isAtomic frame = true →
    cfg.validate frame = .ok () → ∀ e u, opening cfg a.2 w = .error e u →
      ∀ operation, reported isErr (fun e => takenForUnsupported (display text operation e)) e = false
  answer : ∀ frame, a.1.request? = some frame → isAtomic frame = true →
    cfg.validate frame = .ok () → ∀ u, opening cfg a.2 w = .ok () u →
      ∀ i, u.held = some i → a.2.first.InTurn cfg.accepts frame (u.conns i)

theorem opening_reaches (cfg : Config (Fault φ)) (env : CallEnv (Fault φ)) (w : World (Fault φ)) :
    Ensures (· = w) (opening cfg env) (fun _ u => w.Reaches u) (fun _ _ => True) := by
  refine Ensures.bind ((meet_ensures env.lock).weaken_post (fun _ _ h => h.1)
    fun _ _ _ => trivial) fun _ => (connected_ensures _ _).bind fun b =>
      Ensures.ite (fun hb => ensures_pure _ ?_) fun _ => ?_
  · rintro u ⟨rfl, hconn⟩
    obtain ⟨i, hi⟩ := Option.isSome_iff_exists.mp (hconn.mp hb)
    exact ⟨i, hi, Or.inl rfl⟩
  · have hnew : ∀ t : World (Fault φ), t.held = some w.next → w.Reaches t :=
      fun t ht => ⟨w.next, ht, Or.inr le_rfl⟩
    refine Ensures.bind ((dial_hold_new env.connect.dial w).strengthen_pre fun _ h => h.1)
      fun _ => ?_
    unfold authenticateLocked
    cases cfg.authToken with
    | none => exact ensures_pure _ hnew
    | some token =>
        refine Ensures.bind (exchange_held env.connect.auth (.auth token) w.next) fun resp =>
          Ensures.ite (fun _ => ensures_pure _ hnew) fun _ => ?_
        exact (release_ensures _ _).bind fun _ => ensures_throw _ fun _ _ => trivial

section Reported

variable {overflowChecks : Bool} {authToken : Option String} {autoReconnect : Bool}
  {maxFrameBytes : ℕ} {validate : Request → Except String Unit}
  {text : Failure (Fault φ) → String}

/-- A request with an unknown outcome is not reported as unsupported. -/
theorem not_taken_outcomeUnknown (text : Failure (Fault φ) → String) (name : String) :
    takenForUnsupported (display text name .outcomeUnknown) = false := by
  have hfirst : Text.contains Text.lowerChar
      "protocol error: request outcome unknown after connection loss; "
      "request outcome unknown" = true := by decide
  change takenForUnsupported ("protocol error: request outcome unknown after connection loss; " ++
    "operation was not retried") = false
  rw [takenForUnsupported, Text.contains_append hfirst, Bool.not_true, Bool.false_and]

/-- A request that is sent once fails before it is sent, with its outcome unknown, or with what no
handler catches. -/
theorem sendRequest_error (cfg : Config (Fault φ)) (env : CallEnv (Fault φ)) (frame : Request)
    (w : World (Fault φ)) :
    Ensures (· = w) (sendRequest cfg env frame false)
      (fun r t => ∃ u, w.Reaches u ∧ opening cfg env w = .ok () u ∧
        u.Reads cfg.accepts cfg.decode env.first frame r t)
      (fun e _ => (∃ u, opening cfg env w = .error e u) ∨ e = .outcomeUnknown ∨
        isErr e = false ∧ ∀ code message, e ≠ .server code message) := by
  have hopening : Ensures (· = w) (opening cfg env)
      (fun _ u => w.Reaches u ∧ opening cfg env w = .ok () u)
      (fun e _ => ∃ u, opening cfg env w = .error e u) :=
    ((opening_reaches cfg env w).and (ensures_run _ w)).mono (fun _ h => ⟨h, h⟩)
      (fun _ _ h => h) fun _ u h => ⟨u, h.2⟩
  change Ensures (· = w) (meet env.lock >>= fun _ => ensureConnectedLocked cfg env.connect >>= _) _ _
  rw [← bind_assoc]
  refine Ensures.bind (hopening.weaken_post (fun _ _ h => h) fun _ _ h => Or.inl h) fun _ => ?_
  rintro u ⟨hreach, hrun⟩
  obtain ⟨i, hi⟩ : ∃ i, u.held = some i := hreach.imp fun _ h => h.1
  exact ((once_error (exchange_reads hi env.first frame) fun R E => (release_ensures R E).weaken_post
    (fun _ _ _ => trivial) fun _ _ h => h).weaken_post (fun r t h => ⟨u, hreach, hrun, h⟩)
      fun _ _ h => Or.inr h) u rfl

/-- An atomic operation whose error comes from the answer to it. -/
theorem atomic_refused (env : CallEnv (Fault φ)) {c : Call} {frame : Request}
    (hc : c.request? = some frame) (ha : isAtomic frame = true) (name : String)
    {w : World (Fault φ)}
    (h : Attributable text (settings overflowChecks authToken autoReconnect maxFrameBytes validate
      text) w (c, env)) :
    Ensures (· = w)
      (atomic (settings overflowChecks authToken autoReconnect maxFrameBytes validate text) env
        name frame (c.accept acceptPing))
      (fun _ _ => True)
      (fun e t => ∀ m, e = .server "UnsupportedRequest" m →
        w.Refused (rustDialect overflowChecks).decodeResponse frame t) := by
  generalize hcfg : settings overflowChecks authToken autoReconnect maxFrameBytes validate text =
    cfg at h ⊢
  have hdecode : cfg.decode = (rustDialect overflowChecks).decodeResponse := by rw [← hcfg]; rfl
  have hname : ∀ e, cfg.normalizeAtomic name e =
      if takenForUnsupported (display text name e) then unsupportedAtomicOperationError name
      else e := by
    rw [← hcfg]
    exact fun _ => rfl
  refine Ensures.bind ((check_ensures cfg frame).weaken_post (fun _ _ h => h) ?_) fun _ =>
    Ensures.of_fact fun hvalid => mapFailure_error _
      (request_error _ (sendRequest_error cfg env frame w)) ?_
  · rintro e t ⟨⟨message, rfl⟩, -⟩ m hm
    cases hm
  · rintro e t he m hm
    have hreported := reported_of_normalize hname hm
    rcases he with (⟨u, hrun⟩ | he) | ⟨r, ⟨u, hreach, hrun, hreads⟩, haccept⟩
    · rw [h.connect frame hc ha hvalid e u hrun name] at hreported
      cases hreported
    · rw [not_reported_of_once (not_taken_outcomeUnknown text name) he] at hreported
      cases hreported
    · rw [← hdecode]
      exact hreads.refused_of_reported hc ha haccept hreported hreach
        (h.answer frame hc ha hvalid u hrun)

/-- The atomic operations. -/
theorem call_atomic (cfg : Config (Fault φ)) (env : CallEnv (Fault φ)) {c : Call}
    {frame : Request} (hc : c.request? = some frame) (ha : isAtomic frame = true) :
    ∃ name, call cfg env c = atomic cfg env name frame (c.accept acceptPing) :=
  atomic_cases (P := fun c frame => ∃ name,
      call cfg env c = atomic cfg env name frame (c.accept acceptPing))
    (fun _ _ _ _ => ⟨"SET_NX", rfl⟩) (fun _ _ _ _ => ⟨"INCR", rfl⟩) hc ha

/-- The Rust client reports an atomic operation as unsupported on the answer to it alone. -/
theorem never_guesses (overflowChecks : Bool) (authToken : Option String) (autoReconnect : Bool)
    (maxFrameBytes : ℕ) (validate : Request → Except String Unit)
    (text : Failure (Fault φ) → String) :
    NeverGuesses (Attributable text
        (settings overflowChecks authToken autoReconnect maxFrameBytes validate text))
      (call (settings overflowChecks authToken autoReconnect maxFrameBytes validate text))
      (rustDialect overflowChecks).decodeResponse := by
  intro ls w _ c env frame h hc ha m t hcall
  obtain ⟨name, hname⟩ := call_atomic
    (settings overflowChecks authToken autoReconnect maxFrameBytes validate text) env hc ha
  rw [hname] at hcall
  exact (atomic_refused env hc ha name h).of_error rfl hcall m rfl

end Reported

end Rust

namespace Java

/-- If a frame is read for an atomic operation, it is the answer to it. -/
def Attributable (cfg : Config φ) (w : World φ) (a : Call × CallEnv φ) : Prop :=
  ∀ frame, a.1.request? = some frame → isAtomic frame = true → cfg.validate frame = .ok () →
    ∀ i, w.held = some i → a.2.first.InTurn (accepts cfg) frame (w.conns i)

/-- Whether an error is one that the normalizer is not handed: it says that the outcome is
unknown. -/
def exempt : Failure φ → Bool
  | .outcomeUnknown => true
  | _ => false

/-- Only an `IOException` is renamed, and not one that says that the outcome is unknown. -/
theorem reported_of_renamed {cfg : Config φ} {name : String} {e : Failure φ} {m : String}
    (h : normalizeTcpAtomicError cfg name e = .server "UnsupportedRequest" m) :
    reported isIoException (fun e => !exempt e) e = true := by
  cases e with
  | server code message =>
      cases h
      rfl
  | outcomeUnknown => cases h
  | decode d =>
      cases d with
      | malformed message => rfl
      | runtime message => cases h
  | notConnected => cases h
  | invalid message => cases h
  | nullPointer => cases h
  | _ => rfl

/-- A request that is sent once fails with its outcome unknown, or with what no handler catches. -/
theorem sendAndRead_error (cfg : Config φ) (env : CallEnv φ) (data : Request) {w : World φ}
    (hst : Streams w) :
    Ensures (· = w) (sendAndRead cfg env data false)
      (fun r t => w.Reaches w ∧ w.Reads (accepts cfg) cfg.decode env.first data r t)
      (fun e _ => e = .outcomeUnknown ∨
        isIoException e = false ∧ ∀ code message, e ≠ .server code message) := by
  refine once_error ?_ fun R E => (closeSocketOnly_ensures R E).weaken_post (fun _ _ _ => trivial)
    fun _ _ h => h
  by_cases hout : w.output = true
  · have hboth : Both w := ⟨hst.1 hout, hout⟩
    obtain ⟨i, hi⟩ := Option.isSome_iff_exists.mp (hst.2 hboth.1)
    rintro u rfl
    rw [sendFrame_readResponse cfg env.first data hboth]
    exact ((exchange_reads hi env.first data).weaken_post
      (fun r t h => ⟨⟨i, hi, Or.inl rfl⟩, h⟩) fun _ _ h => h) u rfl
  · rintro u rfl
    simp only [sendFrame, hasOutput, bind, EStateM.bind, hout]
    intro code message
    simp

/-- An atomic operation whose error comes from the answer to it. -/
theorem atomic_refused (cfg : Config φ) (env : CallEnv φ) {c : Call} {frame : Request}
    (hc : c.request? = some frame) (ha : isAtomic frame = true) (name : String) {w : World φ}
    (hst : Streams w) (h : Attributable cfg w (c, env)) :
    Ensures (· = w) (atomic cfg env name frame (c.accept acceptPing)) (fun _ _ => True)
      (fun e t => ∀ m, e = .server "UnsupportedRequest" m → w.Refused cfg.decode frame t) := by
  have hoperation : Ensures (· = w) (operation cfg env frame false (c.accept acceptPing))
      (fun _ _ => True) (fun e t => (∃ message, e = .invalid message) ∨
        cfg.validate frame = .ok () ∧ ((e = .outcomeUnknown ∨ isIoException e = false ∧
          ∀ code message, e ≠ .server code message) ∨ ∃ r, (w.Reaches w ∧
            w.Reads (accepts cfg) cfg.decode env.first frame r t) ∧
              c.accept acceptPing r = .error e)) :=
    Ensures.bind ((check_ensures cfg frame).weaken_post (fun _ _ h => h) fun _ _ h => Or.inl h.1)
      fun _ => Ensures.of_fact fun hvalid => (request_error _ (sendAndRead_error cfg env frame
        hst)).weaken_post (fun _ _ h => h) fun _ _ he => Or.inr ⟨hvalid, he⟩
  refine mapFailure_error _ hoperation ?_
  rintro e t (⟨message, rfl⟩ | ⟨hvalid, he⟩) m hm
  · cases hm
  · have hreported := reported_of_renamed hm
    rcases he with he | ⟨r, ⟨hreach, hreads⟩, haccept⟩
    · rw [not_reported_of_once rfl he] at hreported
      cases hreported
    · exact hreads.refused_of_reported hc ha haccept hreported hreach (h frame hc ha hvalid)

/-- The atomic operations. -/
theorem call_atomic (cfg : Config φ) (env : CallEnv φ) {c : Call} {frame : Request}
    (hc : c.request? = some frame) (ha : isAtomic frame = true) :
    ∃ name, call cfg env c = atomic cfg env name frame (c.accept acceptPing) :=
  atomic_cases (P := fun c frame => ∃ name,
      call cfg env c = atomic cfg env name frame (c.accept acceptPing))
    (fun _ _ _ _ => ⟨"SET_NX", rfl⟩) (fun _ _ _ _ => ⟨"INCR", rfl⟩) hc ha

/-- The Java client reports an atomic operation as unsupported on the answer to it alone. -/
theorem never_guesses (authToken : Option String) (autoReconnect : Bool)
    (validate : Request → Except String Unit) (text : Failure φ → String) :
    NeverGuesses (Attributable (settings authToken autoReconnect validate text))
      (call (settings authToken autoReconnect validate text)) javaDialect.decodeResponse := by
  intro ls w hrun c env frame h hc ha m t hcall
  have hst : Streams w := streams_of_run hrun streams_init
  obtain ⟨name, hname⟩ := call_atomic (settings authToken autoReconnect validate text) env hc ha
  rw [hname] at hcall
  exact (atomic_refused _ env hc ha name hst h).of_error rfl hcall m rfl

end Java

end LockStep

end DittoClient
