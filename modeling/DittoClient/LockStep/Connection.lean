import DittoClient.Octets.Framing
import DittoClient.Wire.Decoder
import Mathlib.Logic.Function.Basic

/-!
# Connections of a lock-step client

A lock-step client holds at most one connection, writes one request frame on it and
reads one response frame back before its lock is free again. A `Connection` is the
history of one TCP connection: the request frames whose writing began, the frames the
server put on it, and the number of bytes the client has read. `inbound` is what is
still to be read.

The server answers the request frames it received completely, in order, with one
response frame each, and may push further frames (`Connection.serve`). An `Arrival` is
what happens on the connection while the client waits for a frame, and an `Exchange`
what happens while it writes a frame and waits for the answer. The type `φ` is the type
of the failures an I/O call can meet; for a future that may be dropped it includes the
drop.
-/

namespace DittoClient

namespace LockStep

open DittoClient.Octets
open DittoClient.Protobuf
open DittoClient.Wire

/-- A request frame handed to the socket; `complete` says whether all of its bytes
were, and `seen` how many frames the server had sent by then. -/
structure Written where
  frame : Request
  complete : Bool
  seen : ℕ
  deriving DecidableEq

/-- A frame sent by the server: the answer to a request, or a pushed frame. -/
inductive ServerFrame
  | reply (p : Payload)
  | push (p : Payload)

/-- The payload of a frame sent by the server. -/
def ServerFrame.payload : ServerFrame → Payload
  | .reply p => p
  | .push p => p

/-- The payload of a frame that answers a request. -/
def ServerFrame.reply? : ServerFrame → Option Payload
  | .reply p => some p
  | .push _ => none

/-- The history of one TCP connection. -/
structure Connection where
  written : List Written
  sent : List ServerFrame
  read : ℕ
  closed : Bool

namespace Connection

/-- A connection that has just been opened. -/
def fresh : Connection where
  written := []
  sent := []
  read := 0
  closed := false

/-- The bytes the server has put on the connection. -/
def stream (c : Connection) : List UInt8 :=
  frames (c.sent.map ServerFrame.payload)

/-- The bytes the client has still to read. -/
def inbound (c : Connection) : List UInt8 :=
  c.stream.drop c.read

/-- The answers the server has sent, in order. -/
def replies (c : Connection) : List Payload :=
  c.sent.filterMap ServerFrame.reply?

/-- The number of request frames the server has received completely. -/
def received (c : Connection) : ℕ :=
  c.written.countP Written.complete

/-- The server puts one more frame on the connection. An answer is only sent while a
request is unanswered. -/
def serve (c : Connection) : ServerFrame → Connection
  | .reply p =>
      if c.replies.length < c.received then { c with sent := c.sent ++ [.reply p] } else c
  | .push p => { c with sent := c.sent ++ [.push p] }

/-- The client hands a request frame, or part of it, to the socket. -/
def write (c : Connection) (frame : Request) (complete : Bool) : Connection :=
  { c with written := c.written ++ [⟨frame, complete, c.sent.length⟩] }

end Connection

/-- One call of the socket's receive function: at most `extra + 1` bytes, the end of
the stream, or a failure. -/
inductive Recv (φ : Type)
  | chunk (extra : ℕ)
  | eof
  | fail (f : φ)

/-- The fate of the write of one frame. It may fail after some or all of the bytes were
handed over, or before any of them was. -/
inductive Write (φ : Type)
  | ok
  | failed (complete : Bool) (f : φ)
  | refused (f : φ)

/-- What happens while the client waits for a frame: the frames the server sends and
how the receive calls go. When these are used up, or nothing is there to be received,
the wait times out. -/
structure Arrival (φ : Type) where
  acts : List ServerFrame
  recvs : List (Recv φ)

/-- What happens while the client writes a frame and waits for the answer. -/
structure Exchange (φ : Type) extends Arrival φ where
  write : Write φ

/-- The fate of opening a connection, with the TLS handshake where there is one. -/
inductive Dial (φ : Type)
  | ok
  | failed (f : φ)

/-- Whether the connection is opened. -/
def Dial.isOk {φ : Type} : Dial φ → Bool
  | .ok => true
  | .failed _ => false

/-- What a call throws. -/
inductive Failure (φ : Type)
  | fault (f : φ)
  | timeout
  | closedByServer
  | frameTooLarge (len : ℕ)
  | decode (e : DecodeError)
  | notConnected
  | outcomeUnknown
  | server (code message : String)
  | unexpected (response : ClientResponse)
  | unexpectedAuth (response : ClientResponse)
  | invalid (message : String)
  | nullPointer

/-- What a lock-step client works on: the connections opened so far, the one it holds,
how the receive calls of the current wait will go, and whether the input and the output
stream of the connection are there, which only the Java client keeps apart from it. -/
structure World (φ : Type) where
  conns : ℕ → Connection
  next : ℕ
  held : Option ℕ
  recvs : List (Recv φ)
  input : Bool
  output : Bool

namespace World

variable {φ : Type}

/-- Before the first connection. -/
def init : World φ where
  conns := fun _ => Connection.fresh
  next := 0
  held := none
  recvs := []
  input := false
  output := false

/-- Change one connection. -/
def update (w : World φ) (i : ℕ) (f : Connection → Connection) : World φ :=
  { w with conns := Function.update w.conns i (f (w.conns i)) }

@[simp] theorem update_held (w : World φ) (i : ℕ) (f : Connection → Connection) :
    (w.update i f).held = w.held := rfl

@[simp] theorem update_next (w : World φ) (i : ℕ) (f : Connection → Connection) :
    (w.update i f).next = w.next := rfl

@[simp] theorem update_conns_self (w : World φ) (i : ℕ) (f : Connection → Connection) :
    (w.update i f).conns i = f (w.conns i) := by
  simp [update]

theorem update_conns_of_ne (w : World φ) {i j : ℕ} (f : Connection → Connection)
    (h : j ≠ i) : (w.update i f).conns j = w.conns j := by
  simp [update, Function.update_of_ne h]

/-- The client reads `k` bytes of connection `i`. -/
def advance (w : World φ) (i k : ℕ) (rs : List (Recv φ)) : World φ :=
  { w.update i fun c => { c with read := c.read + k } with recvs := rs }

@[simp] theorem advance_held (w : World φ) (i k : ℕ) (rs : List (Recv φ)) :
    (w.advance i k rs).held = w.held := rfl

@[simp] theorem advance_next (w : World φ) (i k : ℕ) (rs : List (Recv φ)) :
    (w.advance i k rs).next = w.next := rfl

@[simp] theorem advance_recvs (w : World φ) (i k : ℕ) (rs : List (Recv φ)) :
    (w.advance i k rs).recvs = rs := rfl

@[simp] theorem advance_conns_self (w : World φ) (i k : ℕ) (rs : List (Recv φ)) :
    (w.advance i k rs).conns i =
      { w.conns i with read := (w.conns i).read + k } := by
  simp [advance, update]

theorem advance_conns_of_ne (w : World φ) {i j : ℕ} (k : ℕ) (rs : List (Recv φ))
    (h : j ≠ i) : (w.advance i k rs).conns j = w.conns j := by
  simp [advance, update, Function.update_of_ne h]

@[simp] theorem advance_zero (w : World φ) (i : ℕ) :
    w.advance i 0 w.recvs = w := by
  simp [advance, update]

@[simp] theorem advance_advance (w : World φ) (i k l : ℕ) (rs ss : List (Recv φ)) :
    (w.advance i k rs).advance i l ss = w.advance i (k + l) ss := by
  simp [advance, update, Nat.add_assoc]

end World

/-- A client program. -/
abbrev Client (φ α : Type) := EStateM (Failure φ) (World φ) α

variable {φ : Type}

/-- Open a connection. -/
def dial (d : Dial φ) : Client φ ℕ := fun w =>
  match d with
  | .ok => .ok w.next { w.update w.next fun _ => Connection.fresh with next := w.next + 1 }
  | .failed f => .error (.fault f) w

/-- Store a connection as the one that is held. -/
def hold (i : ℕ) : Client φ Unit := fun w =>
  .ok () { w with held := some i }

/-- Close the connection that is held, if there is one, and hold none. -/
def release : Client φ Unit := fun w =>
  match w.held with
  | none => .ok () w
  | some i => .ok () { w.update i fun c => { c with closed := true } with held := none }

/-- The frames arrive that the server sends during a wait. -/
def Arrival.apply (a : Arrival φ) (i : ℕ) (w : World φ) : World φ :=
  { w.update i fun c => a.acts.foldl Connection.serve c with recvs := a.recvs }

@[simp] theorem Arrival.apply_held (a : Arrival φ) (i : ℕ) (w : World φ) :
    (a.apply i w).held = w.held := rfl

@[simp] theorem Arrival.apply_next (a : Arrival φ) (i : ℕ) (w : World φ) :
    (a.apply i w).next = w.next := rfl

@[simp] theorem Arrival.apply_recvs (a : Arrival φ) (i : ℕ) (w : World φ) :
    (a.apply i w).recvs = a.recvs := rfl

@[simp] theorem Arrival.apply_conns_self (a : Arrival φ) (i : ℕ) (w : World φ) :
    (a.apply i w).conns i = a.acts.foldl Connection.serve (w.conns i) := by
  simp [Arrival.apply, World.update]

theorem Arrival.apply_conns_of_ne (a : Arrival φ) (w : World φ) {i j : ℕ} (h : j ≠ i) :
    (a.apply i w).conns j = w.conns j := by
  simp [Arrival.apply, World.update, Function.update_of_ne h]

/-- Begin to wait for a frame. -/
def await (a : Arrival φ) : Client φ Unit := fun w =>
  match w.held with
  | none => .error .notConnected w
  | some i => .ok () (a.apply i w)

/-- Write a frame on the connection that is held, and begin to wait for the answer. -/
def sendall (x : Exchange φ) (frame : Request) : Client φ Unit := fun w =>
  match w.held with
  | none => .error .notConnected w
  | some i =>
      match x.write with
      | .ok => .ok () (x.toArrival.apply i (w.update i fun c => c.write frame true))
      | .failed complete f =>
          .error (.fault f) (x.toArrival.apply i (w.update i fun c => c.write frame complete))
      | .refused f => .error (.fault f) w

/-- One call of the socket's receive function for at most `n` bytes. -/
def sockRecv (n : ℕ) : Client φ (List UInt8) := fun w =>
  match w.held with
  | none => .error .notConnected w
  | some i =>
      match w.recvs with
      | [] => .error .timeout w
      | .fail f :: rs => .error (.fault f) { w with recvs := rs }
      | .eof :: rs => .ok [] { w with recvs := rs }
      | .chunk extra :: rs =>
          let got := (w.conns i).inbound.take (min (extra + 1) n)
          if got = [] then .error .timeout w else .ok got (w.advance i got.length rs)

/-- The receive loop: call the receive function until `n` bytes are there. Every call
yields a byte, so `n` calls are enough. -/
def recvnLoop : ℕ → ℕ → List UInt8 → Client φ (List UInt8)
  | 0, _, data => pure data
  | fuel + 1, n, data =>
      if data.length < n then do
        let chunk ← sockRecv (n - data.length)
        if chunk = [] then throw .closedByServer
        else recvnLoop fuel n (data ++ chunk)
      else pure data

/-- Read exactly `n` bytes. -/
def recvn (n : ℕ) : Client φ (List UInt8) :=
  recvnLoop n n []

/-- Read one frame: four bytes of length, a check of the length, that many bytes of
payload, and the decoder on the payload. -/
def recvFrame (accepts : ℕ → Bool) (decode : Decoder) : Client φ ClientResponse := do
  let header ← recvn 4
  let len := ofBigEndian header
  if accepts len then do
    let payload ← recvn len
    match decode payload with
    | .ok r => pure r
    | .error e => throw (.decode e)
  else throw (.frameTooLarge len)

end LockStep

end DittoClient
