import DittoClient.LockStep.Exchange

/-!
# Calls of a lock-step client

The public calls of the four lock-step clients and what they share: the settings, the
environment one call meets at each point where it touches the network, and what each
operation makes of the response it is handed. The clients themselves differ in when they
connect, which failures they catch and what they do with the connection then; they are
defined in the modules of the four languages.

The response decoder, the validation of the arguments and the renaming of the errors of
the atomic operations are parameters of the settings.
-/

namespace DittoClient

namespace LockStep

open DittoClient.Protobuf
open DittoClient.Wire
open DittoClient.Program

/-- A public call. -/
inductive Call
  | connect
  | close
  | ping
  | get (key : String) (ns : Option String)
  | set (key : String) (value : List UInt8) (ttlSecs : Option ℤ) (ns : Option String)
  | setNx (key : String) (value : List UInt8) (ttlSecs : Option ℤ) (ns : Option String)
  | incr (key : String) (delta : Option ℤ) (ttlSecsOnCreate : Option ℤ)
      (ns : Option String)
  | delete (key : String) (ns : Option String)
  | deleteByPattern (pattern : String) (ns : Option String)
  | setTtlByPattern (pattern : String) (ttlSecs : Option ℤ) (ns : Option String)
  | watch (key : String) (ns : Option String)
  | unwatch (key : String) (ns : Option String)
  | waitWatchEvent
  deriving DecidableEq, Repr

/-- The request frame of a call, for the calls that send one. -/
def Call.request? : Call → Option Request
  | .connect => none
  | .close => none
  | .ping => some .ping
  | .get key ns => some (.get key ns)
  | .set key value ttl ns => some (.set key value ttl ns)
  | .setNx key value ttl ns => some (.setNx key value ttl ns)
  | .incr key delta ttl ns => some (.incr key delta ttl ns)
  | .delete key ns => some (.delete key ns)
  | .deleteByPattern pattern ns => some (.deleteByPattern pattern ns)
  | .setTtlByPattern pattern ttl ns => some (.setTtlByPattern pattern ttl ns)
  | .watch key ns => some (.watch key ns)
  | .unwatch key ns => some (.unwatch key ns)
  | .waitWatchEvent => none

/-- Whether a call may be sent again when its outcome is unknown. -/
def Call.retrySafe : Call → Bool
  | .ping => true
  | .get _ _ => true
  | _ => false

/-- What a call returns. -/
inductive Result
  | done
  | bool (b : Bool)
  | value (r : Option (List UInt8 × ℤ))
  | version (v : ℤ)
  | created (created : Bool) (version : ℤ)
  | counter (value version : ℤ)
  | count (n : ℤ)
  | event (key : String) (value : Option (List UInt8)) (version : ℤ)
  deriving DecidableEq, Repr

section Accept

variable {φ : Type}

/-- What every operation but `ping` does with a response it does not expect. -/
def refuse : ClientResponse → Except (Failure φ) Result
  | .error code message => .error (.server code message)
  | r => .error (.unexpected r)

def acceptPing (r : ClientResponse) : Except (Failure φ) Result :=
  .ok (.bool (decide (r = .pong)))

def acceptGet : ClientResponse → Except (Failure φ) Result
  | .notFound => .ok (.value none)
  | .value _ value version => .ok (.value (some (value, version)))
  | r => refuse r

def acceptSet : ClientResponse → Except (Failure φ) Result
  | .ok version => .ok (.version version)
  | r => refuse r

def acceptSetNx : ClientResponse → Except (Failure φ) Result
  | .setNx created version => .ok (.created created version)
  | r => refuse r

def acceptIncr : ClientResponse → Except (Failure φ) Result
  | .counter value version => .ok (.counter value version)
  | r => refuse r

def acceptDelete : ClientResponse → Except (Failure φ) Result
  | .deleted => .ok (.bool true)
  | .notFound => .ok (.bool false)
  | r => refuse r

def acceptDeleteByPattern : ClientResponse → Except (Failure φ) Result
  | .patternDeleted deleted => .ok (.count deleted)
  | r => refuse r

def acceptSetTtlByPattern : ClientResponse → Except (Failure φ) Result
  | .patternTtlUpdated updated => .ok (.count updated)
  | r => refuse r

def acceptWatch : ClientResponse → Except (Failure φ) Result
  | .watching => .ok .done
  | r => refuse r

def acceptUnwatch : ClientResponse → Except (Failure φ) Result
  | .unwatched => .ok .done
  | r => refuse r

def acceptWatchEvent : ClientResponse → Except (Failure φ) Result
  | .watchEvent key value version => .ok (.event key value version)
  | r => refuse r

/-- The failure for a response to Auth that is not AuthOk. -/
def authFailure : ClientResponse → Failure φ
  | .error code message => .server code message
  | r => .unexpectedAuth r

/-- What a call makes of the response to its request. The clients differ in `ping`. -/
def Call.accept (ping : ClientResponse → Except (Failure φ) Result) :
    Call → ClientResponse → Except (Failure φ) Result
  | .connect => refuse
  | .close => refuse
  | .ping => ping
  | .get _ _ => acceptGet
  | .set _ _ _ _ => acceptSet
  | .setNx _ _ _ _ => acceptSetNx
  | .incr _ _ _ _ => acceptIncr
  | .delete _ _ => acceptDelete
  | .deleteByPattern _ _ => acceptDeleteByPattern
  | .setTtlByPattern _ _ _ => acceptSetTtlByPattern
  | .watch _ _ => acceptWatch
  | .unwatch _ _ => acceptUnwatch
  | .waitWatchEvent => acceptWatchEvent

end Accept

/-- The settings of a client. -/
structure Config (φ : Type) where
  authToken : Option String
  autoReconnect : Bool
  maxFrameBytes : ℕ
  decode : Decoder
  validate : Request → Except String Unit
  normalizeAtomic : String → Failure φ → Failure φ

/-- What one attempt to connect meets: the opening of the connection, the retrieval of
its two streams (in Java), the Auth exchange, and the `shutdown` call when the connection
is closed after it (in Python). -/
structure Attempt (φ : Type) where
  dial : Dial φ
  input : Option φ
  output : Option φ
  auth : Exchange φ
  shutdown : Option φ

/-- What one call meets: the wait for the lock (in Rust, where the future may be dropped
there), an attempt to connect, the first exchange, the `shutdown` call when the
connection is closed, and then a further attempt to connect and a further exchange. A
call that waits for a watch event uses the arrival of `first`. -/
structure CallEnv (φ : Type) where
  lock : Option φ
  connect : Attempt φ
  first : Exchange φ
  shutdown : Option φ
  reconnect : Attempt φ
  retry : Exchange φ

variable {φ : Type}

/-- Whether the client holds a connection. -/
def connected : Client φ Bool := fun w => .ok w.held.isSome w

/-- Return or throw what a pure function computed. -/
def ofExcept {α : Type} (x : Except (Failure φ) α) : Client φ α := fun w =>
  match x with
  | .ok a => .ok a w
  | .error e => .error e w

/-- Throw the failure, if there is one. -/
def meet (f : Option φ) : Client φ Unit := fun w =>
  match f with
  | none => .ok () w
  | some f => .error (.fault f) w

/-- Read the result of a call off the response. -/
def request (send : Client φ ClientResponse)
    (accept : ClientResponse → Except (Failure φ) Result) : Client φ Result := do
  let resp ← send
  ofExcept (accept resp)

/-- The validation of the arguments of a request. -/
def Config.check (cfg : Config φ) (req : Request) : Client φ Unit :=
  ofExcept ((cfg.validate req).mapError .invalid)

/-- Whether the arguments of a call pass their validation. A ping has none. -/
def Config.Admits (cfg : Config φ) (c : Call) : Prop :=
  ∀ frame, c.request? = some frame → c ≠ .ping → cfg.validate frame = .ok ()

/-- Throw another failure in the place of one that is thrown. -/
def mapFailure {α : Type} (f : Failure φ → Failure φ) (m : Client φ α) : Client φ α :=
  tryCatch m fun e => throw (f e)

/-- The renaming of a failure of an atomic operation. What the server answered keeps its
name. -/
def Config.normalize (cfg : Config φ) (operation : String) : Failure φ → Failure φ
  | .server code message => .server code message
  | e => cfg.normalizeAtomic operation e

/-- The check of the length of a frame that is read. -/
def Config.accepts (cfg : Config φ) (len : ℕ) : Bool :=
  decide (len ≤ cfg.maxFrameBytes)

end LockStep

end DittoClient
