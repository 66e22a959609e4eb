import DittoClient.NodeTcp.State
import DittoClient.Octets.BigEndian
import DittoClient.Text.Space

/-!
# The functions of the Node.js TCP client

The synchronous functions of `DittoTcpClient`, and the pieces of its asynchronous function
`doConnect` between two points where it is suspended, as functions on the state. What an
operation makes of the response it is handed is left out.
-/

namespace DittoClient

namespace NodeTcp

open DittoClient.Octets
open DittoClient.Protobuf
open DittoClient.Text
open DittoClient.Wire

/-- The decoder of the client. -/
def decodeResponse : Decoder :=
  nodeDialect.decodeResponse

/-- The error that is thrown for a payload that cannot be decoded. -/
def errorOf : DecodeError → Err
  | .malformed message => .error message
  | .runtime message => .error message

def normalizeNamespace (ns : Option String) : Option String :=
  trimmed nodeSpace ns

def watchCallbackKey (key : String) (ns : Option String) : String :=
  match ns.filter fun n => decide (n ≠ "") with
  | none => key
  | some n => n ++ "::" ++ key

namespace Waiter

/-- `clearWaiterTimeout`. -/
def clearTimeout (x : Waiter) : Waiter :=
  { x with armed := false }

/-- Call `resolve` or `reject`, unless the waiter is settled. -/
def settle (o : Settlement) (x : Waiter) : Waiter :=
  if x.settled then x else { x with settled := true, outcomes := x.outcomes ++ [o] }

/-- Clear the timeout of a waiter and settle it. -/
def finish (o : Settlement) (x : Waiter) : Waiter :=
  x.clearTimeout.settle o

/-- The frame of a queued request is taken to be sent. -/
def takeFrame (x : Waiter) : Waiter :=
  { x with frame := none }

end Waiter

variable (opts : Options)

def armRequestTimeout (w : ℕ) (s : State) : State :=
  if opts.requestTimeoutMs ≤ 0 then s
  else s.updateWaiter w fun x => { x with armed := true }

/-- Whether the write throws, since there is no socket, is returned with the state. -/
def writeInflight (frame : Request) (w : ℕ) (s : State) : State × Bool :=
  let s := armRequestTimeout opts w { s with inflight := s.inflight ++ [w] }
  match s.socket with
  | none => (s, true)
  | some i => ({ s with wire := s.wire ++ [⟨i, w, frame⟩] }, false)

def rejectOfflineQueue (err : Err) (s : State) : State :=
  { s with offlineQueue := [] }.forEach s.offlineQueue (Waiter.finish (.rejected err))

/-- A request is queued while there is no socket, and refused then without automatic
reconnection. -/
def send (req : Request) (s : State) : State :=
  if s.destroyed then s
  else
    match s.socket with
    | none =>
        if opts.autoReconnect then
          { s.newWaiter (some req) .caller req with
            offlineQueue := s.offlineQueue ++ [s.nextWaiter] }
        else s
    | some _ => (writeInflight opts req s.nextWaiter (s.newWaiter none .caller req)).1

def scheduleReconnect (s : State) : State :=
  if s.reconnecting || s.destroyed then s
  else if 0 < opts.maxReconnectAttempts ∧ opts.maxReconnectAttempts ≤ s.reconnectAttempts then
    rejectOfflineQueue (.error (s!"Circuit open: {s.reconnectAttempts} reconnect attempts " ++
      s!"failed for {opts.host}:{opts.port}")) s
  else { s with reconnecting := true, reconnectTimer := true }

def cancelReconnectTimer (s : State) : State :=
  { s with reconnectTimer := false, reconnecting := false }

/-- What happens to a waiter in flight when the connection is lost. -/
def disconnectWaiter (err : Err) (s : State) (w : ℕ) : State :=
  let s := s.updateWaiter w Waiter.clearTimeout
  if (s.waiters w).frame.isSome then
    { s with offlineQueue := w :: s.offlineQueue, requeued := true }
  else
    s.updateWaiter w (Waiter.settle (.rejected
      (.error ("Connection lost before response was received: " ++ err.message))))

def handleDisconnect (err : Err) (s : State) : State :=
  if s.socket.isNone then { s with recvBuf := [] }
  else
    let toRetry := s.inflight
    let s := toRetry.foldl (disconnectWaiter err)
      { s with socket := none, recvBuf := [], inflight := [] }
    if opts.autoReconnect && !s.destroyed then scheduleReconnect opts s
    else rejectOfflineQueue err s

def onClose (s : State) : State :=
  handleDisconnect opts (.error "Connection closed by server.") s

/-- `destroy` of a socket with an error. -/
def destroySock (i : ℕ) (e : Err) (s : State) : State :=
  s.updateSock i fun k => if k.phase.isLive then { k with phase := .destroyed e } else k

def close (s : State) : State :=
  let s := rejectOfflineQueue (.error "Client closed.")
    (cancelReconnectTimer { s with destroyed := true })
  match s.socket with
  | none => s
  | some i => { s.updateSock i fun k => { k with ended := true } with socket := none }

/-- Begin a run of `doConnect`; `created` says whether the socket could be created. -/
def doConnect (created : Bool) (s : State) : State :=
  if s.destroyed then s.newTask (.done none) none
  else if created then s.newSock.newTask (.connecting s.nextSock) (some s.nextSock)
  else s.newTask .failed none

def connect (created : Bool) (s : State) : State :=
  if s.destroyed then s
  else if s.socket.isSome then s
  else doConnect created s

/-- What a run of `doConnect` does when it could not connect. -/
def connectFailed (s : State) : State :=
  let s := { s with socket := none, reconnectAttempts := s.reconnectAttempts + 1 }
  if opts.autoReconnect && !s.destroyed then scheduleReconnect opts s
  else rejectOfflineQueue (.error s!"Failed to connect to {opts.host}:{opts.port}") s

/-- The loop of `reRegisterWatches` in the run `t`, from the entry with the number `pos`
on, until it waits for a reply. -/
def reRegisterWatches (t pos : ℕ) (s : State) : State :=
  match s.watchCallbacks.find? fun e => decide (pos ≤ e.index), s.socket with
  | some e, some _ =>
      let frame := Request.watch e.key e.ns
      (writeInflight opts frame s.nextWaiter (s.newWaiter none (.task t) frame)).1.setPc t
        (.rewatch (e.index + 1) s.nextWaiter)
  | _, _ => s.setPc t .rewatched

/-- Send one queued request. -/
def flushWaiter (s : State) (w : ℕ) : State :=
  match (s.waiters w).frame with
  | none =>
      let err := Err.error "Internal: queued request has no frame to send."
      s.updateWaiter w fun x =>
        { x with settled := true, outcomes := x.outcomes ++ [.rejected err] }
  | some frame =>
      (writeInflight opts frame w (s.updateWaiter w Waiter.takeFrame)).1

def flushOfflineQueue (s : State) : State :=
  match s.socket with
  | none => s
  | some _ => s.offlineQueue.foldl (flushWaiter opts) { s with offlineQueue := [] }

/-- A run of `doConnect` goes on when it is connected: it sends Auth, or registers the
watches again. -/
def connected (t : ℕ) (s : State) : State :=
  let s := { s with reconnectAttempts := 0 }
  match opts.token? with
  | none => reRegisterWatches opts t 0 s
  | some token =>
      let (s', threw) := writeInflight opts (.auth token) s.nextWaiter
        (s.newWaiter none (.task t) (.auth token))
      s'.setPc t (if threw then .authThrew else .auth s.nextWaiter)

/-- A run of `doConnect` goes on with the reply to Auth. -/
def authenticated (t : ℕ) (r : ClientResponse) (s : State) : State :=
  match r with
  | .authOk => reRegisterWatches opts t 0 s
  | .error code message => (close s).setPc t (.authClosing (.ditto code message))
  | r => (close s).setPc t
      (.authClosing (.error ("Unexpected auth response: " ++ r.typeName)))

/-- A run of `doConnect` is resumed. -/
def resume (t : ℕ) (s : State) : Option State :=
  match (s.tasks t).pc with
  | .connecting _ => none
  | .connected => some (connected opts t s)
  | .failed => some ((connectFailed opts s).setPc t (.done none))
  | .auth w =>
      match (s.waiters w).outcomes.head? with
      | none => none
      | some (.rejected _) => some (s.setPc t (.done none))
      | some (.resolved r) => some (authenticated opts t r s)
  | .authThrew => some (s.setPc t (.done none))
  | .authClosing e => some ((rejectOfflineQueue e s).setPc t (.done none))
  | .rewatch pos w =>
      match (s.waiters w).outcomes.head? with
      | none => none
      | some (.rejected e) => some (s.setPc t (.done (some e)))
      | some (.resolved _) => some (reRegisterWatches opts t pos s)
  | .rewatched => some ((flushOfflineQueue opts s).setPc t (.done none))
  | .done _ => none

/-- Set a callback, in the place of one with the same name if there is one. -/
def setCallback (name key : String) (ns : Option String) (callback : ℕ) (s : State) : State :=
  if s.watchCallbacks.any fun e => decide (e.name = name) then
    let replace := fun e : WatchEntry =>
      if e.name = name then { e with key := key, ns := ns, callback := callback } else e
    { s with watchCallbacks := s.watchCallbacks.map replace }
  else
    { s with
      watchCallbacks := s.watchCallbacks ++ [⟨s.nextWatch, name, key, ns, callback⟩]
      nextWatch := s.nextWatch + 1 }

def watch (key : String) (ns : Option String) (callback : ℕ) (s : State) : State :=
  let ns := normalizeNamespace ns
  send opts (.watch key ns) (setCallback (watchCallbackKey key ns) key ns callback s)

def unwatch (key : String) (ns : Option String) (s : State) : State :=
  let ns := normalizeNamespace ns
  let others := s.watchCallbacks.filter fun e => decide (e.name ≠ watchCallbackKey key ns)
  let s := { s with watchCallbacks := others }
  if s.socket.isNone then s else send opts (.unwatch key ns) s

/-- Shift the next waiter in flight and settle it. -/
def shiftWaiter (i : ℕ) (payload : List UInt8) (o : Settlement) (s : State) : State :=
  match s.inflight with
  | [] => { s with received := s.received ++ [⟨i, payload, none, none⟩] }
  | w :: ws =>
      { s.updateWaiter w (Waiter.finish o) with
        inflight := ws
        received := s.received ++ [⟨i, payload, some w, none⟩] }

/-- What is done with the payload of a frame that was read from socket `i`. -/
def handlePayload (i : ℕ) (payload : List UInt8) (s : State) : State :=
  match decodeResponse payload with
  | .error e => shiftWaiter i payload (.rejected (errorOf e)) s
  | .ok (.watchEvent key _ _) =>
      let registration := s.watchCallbacks.find? fun e => decide (e.name = key)
      { s with received := s.received ++
          [⟨i, payload, none, registration.map WatchEntry.callback⟩] }
  | .ok r => shiftWaiter i payload (.resolved r) s

/-- `onData` begins. -/
def onData (i : ℕ) (chunk : List UInt8) (s : State) : State :=
  { s with recvBuf := s.recvBuf ++ chunk, parsing := some i }

/-- One round of the loop of `onData`. -/
def onDataRound (i : ℕ) (s : State) : State :=
  if s.recvBuf.length < 4 then { s with parsing := none }
  else
    let payloadLen := ofBigEndian (s.recvBuf.take 4)
    if opts.maxFrameBytes < payloadLen then
      let err := Err.error (s!"Incoming frame too large ({payloadLen} bytes > limit " ++
        s!"{opts.maxFrameBytes} bytes)")
      match s.socket with
      | none => { s with parsing := none }
      | some j => { destroySock j err s with parsing := none }
    else if s.recvBuf.length < 4 + payloadLen then { s with parsing := none }
    else
      handlePayload i ((s.recvBuf.drop 4).take payloadLen)
        { s with recvBuf := s.recvBuf.drop (4 + payloadLen) }

end NodeTcp

end DittoClient
