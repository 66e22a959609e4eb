import DittoClient.NodeTcp.Client
import DittoClient.Transition.Run

/-!
# The Node.js TCP client as a state machine

What can happen next to a client: a call by its user, a continuation of a run of
`doConnect`, an event of a socket, a timer, or the next round of the loop in `onData`. A
call by the user is possible at any moment, also from within a watch callback. Events of
the loop other than the failure of a socket wait until `onData` is through and every run
of `doConnect` that can go on has gone on.
-/

namespace DittoClient

namespace NodeTcp

open DittoClient.Wire
open DittoClient.Transition

/-- Whether a request is one of the operations that do nothing but send it. -/
def isOperation : Request → Bool
  | .auth _ => false
  | .watch _ _ => false
  | .unwatch _ _ => false
  | _ => true

inductive Action
  | connect (created : Bool)
  | close
  | request (req : Request)
  | watch (key : String) (ns : Option String) (callback : ℕ)
  | unwatch (key : String) (ns : Option String)
  | resume (t : ℕ)
  | sockConnected (i : ℕ)
  | sockData (i : ℕ) (chunk : List UInt8)
  | sockError (i : ℕ) (e : Err)
  | sockClose (i : ℕ)
  | connectTimeout (i : ℕ)
  | idleTimeout (i : ℕ)
  | requestTimeout (w : ℕ)
  | reconnectTimer (created : Bool)
  | round
  | callbackThrow
  deriving DecidableEq, Repr

/-- Whether a run of `doConnect` can go on. -/
def State.ready (s : State) (t : ℕ) : Bool :=
  match (s.tasks t).pc with
  | .connected => true
  | .failed => true
  | .auth w => (s.waiters w).outcomes.head?.isSome
  | .authThrew => true
  | .rewatch _ w => (s.waiters w).outcomes.head?.isSome
  | .rewatched => true
  | _ => false

/-- Nothing is left to be done before the next event of the loop. -/
def State.idle (s : State) : Bool :=
  s.parsing.isNone && (List.range s.nextTask).all fun t => !s.ready t

variable (opts : Options)

/-- The error that a socket emits, if it can emit one now. -/
def Phase.emits (e : Err) : Phase → Bool
  | .connecting => true
  | .connected => true
  | .destroyed e' => decide (e = e')
  | _ => false

/-- The connection promise of the run that created the socket is settled, unless it was
before. -/
def settleConnection (i : ℕ) (pc : Pc) (s : State) : State :=
  if (s.tasks (s.socks i).task).pc = .connecting i then s.setPc (s.socks i).task pc else s

def onConnected (i : ℕ) (s : State) : State :=
  settleConnection i .connected
    { s.updateSock i fun k => { k with phase := .connected } with socket := some i }

/-- The handlers of `error`: the one of the client, and the one that rejects the
connection promise. -/
def onError (i : ℕ) (e : Err) (s : State) : State :=
  settleConnection i .failed
    (handleDisconnect opts e (s.updateSock i fun k => { k with phase := .errored }))

def step (s : State) : Action → Option State
  | .connect created => some (connect created s)
  | .close => some (close s)
  | .request req =>
      if isOperation req then
        if opts.validate req then some (send opts req s) else some s
      else none
  | .watch key ns callback =>
      if opts.validate (.watch key ns) then some (watch opts key ns callback s) else some s
  | .unwatch key ns =>
      if opts.validate (.unwatch key ns) then some (unwatch opts key ns s) else some s
  | .resume t => if s.parsing.isNone then resume opts t s else none
  | .sockConnected i =>
      if s.idle ∧ (s.socks i).phase = .connecting then some (onConnected i s) else none
  | .sockData i chunk =>
      if s.idle ∧ (s.socks i).phase = .connected ∧ chunk ≠ [] then some (onData i chunk s)
      else none
  | .sockError i e =>
      if s.parsing.isNone ∧ (s.socks i).phase.emits e then some (onError opts i e s) else none
  | .sockClose i =>
      if s.parsing.isNone ∧
          ((s.socks i).phase = .connected ∨ (s.socks i).phase = .errored) then
        some (onClose opts (s.updateSock i fun k => { k with phase := .closed }))
      else none
  | .connectTimeout i =>
      if s.idle ∧ (s.socks i).phase = .connecting then
        some (destroySock i (.error s!"Connect timeout after {opts.connectTimeoutMs}ms") s)
      else none
  | .idleTimeout i =>
      if s.idle ∧ 0 < opts.socketIdleTimeoutMs ∧ (s.socks i).phase.isLive then
        some (destroySock i
          (.error s!"Socket idle timeout after {opts.socketIdleTimeoutMs}ms") s)
      else none
  | .requestTimeout w =>
      if s.idle ∧ (s.waiters w).armed then
        some (s.updateWaiter w (Waiter.finish
          (.rejected (.error s!"Request timeout after {opts.requestTimeoutMs}ms"))))
      else none
  | .reconnectTimer created =>
      if s.idle ∧ s.reconnectTimer then
        some (doConnect created { s with reconnectTimer := false, reconnecting := false })
      else none
  | .round => s.parsing.map fun i => onDataRound opts i s
  | .callbackThrow =>
      if s.parsing.isSome ∧ (s.received.getLast?.bind Delivery.callback).isSome then
        some { s with parsing := none }
      else none

/-- A state that a client with these options can reach. -/
abbrev Reached (s : State) : Prop :=
  Reachable (step opts) (fun _ _ => True) State.init s

end NodeTcp

end DittoClient
