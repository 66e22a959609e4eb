import DittoClient.Wire.Decoder
import Mathlib.Logic.Function.Basic

/-!
# The state of the Node.js TCP client

`DittoTcpClient` of the Node.js package runs in an event loop. Its fields are the fields
of `State`; the objects they refer to live in three heaps: the waiters, the sockets, and
the runs of the asynchronous function `doConnect`, each with the point where it is
suspended. Besides, the state keeps a record of what is not visible in the fields: the
calls to `resolve` and `reject` of a waiter, the frames handed to a socket in order, and
the frames cut off the receive buffer.

A request frame is represented by the request it encodes. Time is left out: a timer is
pending or not, and may fire whenever it is pending.
-/

namespace DittoClient

namespace NodeTcp

open DittoClient.Protobuf
open DittoClient.Wire

/-- A JavaScript error. -/
inductive Err
  | error (message : String)
  | ditto (code message : String)
  deriving DecidableEq, Repr

def Err.message : Err → String
  | .error message => message
  | .ditto _ message => message

/-- The options of the client that are used while it runs. -/
structure Options where
  host : String
  port : ℕ
  authToken : Option String
  autoReconnect : Bool
  maxReconnectAttempts : ℕ
  requestTimeoutMs : ℤ
  connectTimeoutMs : ℤ
  socketIdleTimeoutMs : ℤ
  maxFrameBytes : ℕ
  validate : Request → Bool

/-- The options of a client that is constructed without any. Validation passes every
request, since strict mode is off. -/
def Options.defaults : Options where
  host := "localhost"
  port := 7777
  authToken := none
  autoReconnect := false
  maxReconnectAttempts := 0
  requestTimeoutMs := 10000
  connectTimeoutMs := 10000
  socketIdleTimeoutMs := 0
  maxFrameBytes := 8 * 1024 * 1024
  validate := fun _ => true

/-- The token, where the empty string stands for none. -/
def Options.token? (opts : Options) : Option String :=
  opts.authToken.filter fun token => decide (token ≠ "")

/-- What a waiter is given: a response, or an error. -/
inductive Settlement
  | resolved (r : ClientResponse)
  | rejected (e : Err)
  deriving DecidableEq, Repr

/-- Who awaits the promise of a waiter: the caller of an operation, or a run of
`doConnect`. -/
inductive Owner
  | caller
  | task (t : ℕ)
  deriving DecidableEq, Repr

/-- One pending request, sent or queued. `request` is what its frame encodes, also when
`frame` is null, and `outcomes` are the calls made to `resolve` and `reject`. -/
structure Waiter where
  frame : Option Request
  armed : Bool
  settled : Bool
  owner : Owner
  request : Request
  outcomes : List Settlement
  deriving DecidableEq, Repr

/-- The life of a socket: it connects, is connected, may be destroyed with an error, and
emits `error` and then `close`, or `close` alone. -/
inductive Phase
  | connecting
  | connected
  | destroyed (e : Err)
  | errored
  | closed
  deriving DecidableEq, Repr

/-- Whether a socket is connecting or open. -/
def Phase.isLive : Phase → Bool
  | .connecting => true
  | .connected => true
  | _ => false

/-- A socket, with the run of `doConnect` that created it. -/
structure Sock where
  phase : Phase
  ended : Bool
  task : ℕ
  deriving DecidableEq, Repr

/-- Where a run of `doConnect` is suspended: on the connection promise, before it is
resumed with the promise fulfilled or rejected, on the reply to Auth, on the `close` that
follows a refused Auth, on the reply to the Watch that is registered again, behind the
registration of the watches. -/
inductive Pc
  | connecting (sock : ℕ)
  | connected
  | failed
  | auth (waiter : ℕ)
  | authThrew
  | authClosing (e : Err)
  | rewatch (pos waiter : ℕ)
  | rewatched
  | done (threw : Option Err)
  deriving DecidableEq, Repr

/-- A run of `doConnect`, with the socket it created. -/
structure Task where
  pc : Pc
  sock : Option ℕ
  deriving DecidableEq, Repr

/-- An entry of the map of watch callbacks. A JavaScript map is iterated in the order of
insertion; `index` is the number of the insertion. -/
structure WatchEntry where
  index : ℕ
  name : String
  key : String
  ns : Option String
  callback : ℕ
  deriving DecidableEq, Repr

/-- A frame handed to a socket, for a waiter. -/
structure Sent where
  sock : ℕ
  waiter : ℕ
  frame : Request
  deriving DecidableEq, Repr

/-- A frame cut off the receive buffer, while the data of `sock` was handled: its payload,
the waiter that was shifted for it, and the callback it was routed to. -/
structure Delivery where
  sock : ℕ
  payload : List UInt8
  waiter : Option ℕ
  callback : Option ℕ
  deriving DecidableEq, Repr

/-- The fields of the client, the heaps, and the records. `parsing` is the socket whose
data is being handled by `onData`. -/
structure State where
  socket : Option ℕ
  recvBuf : List UInt8
  watchCallbacks : List WatchEntry
  inflight : List ℕ
  offlineQueue : List ℕ
  reconnectAttempts : ℕ
  reconnecting : Bool
  destroyed : Bool
  reconnectTimer : Bool
  parsing : Option ℕ
  waiters : ℕ → Waiter
  nextWaiter : ℕ
  socks : ℕ → Sock
  nextSock : ℕ
  tasks : ℕ → Task
  nextTask : ℕ
  nextWatch : ℕ
  wire : List Sent
  received : List Delivery
  requeued : Bool

namespace State

/-- A client that has just been constructed. -/
def init : State where
  socket := none
  recvBuf := []
  watchCallbacks := []
  inflight := []
  offlineQueue := []
  reconnectAttempts := 0
  reconnecting := false
  destroyed := false
  reconnectTimer := false
  parsing := none
  waiters := fun _ => ⟨none, false, false, .caller, .ping, []⟩
  nextWaiter := 0
  socks := fun _ => ⟨.closed, false, 0⟩
  nextSock := 0
  tasks := fun _ => ⟨.done none, none⟩
  nextTask := 0
  nextWatch := 0
  wire := []
  received := []
  requeued := false

def updateWaiter (s : State) (w : ℕ) (f : Waiter → Waiter) : State :=
  { s with waiters := Function.update s.waiters w (f (s.waiters w)) }

def updateSock (s : State) (i : ℕ) (f : Sock → Sock) : State :=
  { s with socks := Function.update s.socks i (f (s.socks i)) }

def setPc (s : State) (t : ℕ) (pc : Pc) : State :=
  { s with tasks := Function.update s.tasks t { s.tasks t with pc := pc } }

/-- Change each waiter of a list, one after the other. -/
def forEach (s : State) (ws : List ℕ) (f : Waiter → Waiter) : State :=
  ws.foldl (fun s w => s.updateWaiter w f) s

/-- A new waiter. -/
def newWaiter (s : State) (frame : Option Request) (owner : Owner) (req : Request) : State :=
  { s with
    waiters := Function.update s.waiters s.nextWaiter ⟨frame, false, false, owner, req, []⟩
    nextWaiter := s.nextWaiter + 1 }

/-- A new socket, which connects, for the next run of `doConnect`. -/
def newSock (s : State) : State :=
  { s with
    socks := Function.update s.socks s.nextSock ⟨.connecting, false, s.nextTask⟩
    nextSock := s.nextSock + 1 }

/-- A new run of `doConnect`. -/
def newTask (s : State) (pc : Pc) (sock : Option ℕ) : State :=
  { s with
    tasks := Function.update s.tasks s.nextTask ⟨pc, sock⟩
    nextTask := s.nextTask + 1 }

end State

/-- A loop over waiters changes the waiters of the list, and nothing else, if the change
is idempotent. -/
theorem State.forEach_eq {f : Waiter → Waiter} (hf : ∀ x, f (f x) = f x) (ws : List ℕ)
    (s : State) :
    s.forEach ws f =
      { s with waiters := fun w => if w ∈ ws then f (s.waiters w) else s.waiters w } := by
  induction ws generalizing s with
  | nil => simp [State.forEach]
  | cons v ws ih =>
      change (s.updateWaiter v f).forEach ws f = _
      rw [ih]
      have hpoint : (fun w => if w ∈ ws then f ((s.updateWaiter v f).waiters w)
          else (s.updateWaiter v f).waiters w) =
          fun w => if w ∈ v :: ws then f (s.waiters w) else s.waiters w := by
        funext w
        by_cases hv : w = v
        · subst hv
          simp [State.updateWaiter, hf]
        · simp [State.updateWaiter, hv]
      rw [hpoint]
      rfl

end NodeTcp

end DittoClient
