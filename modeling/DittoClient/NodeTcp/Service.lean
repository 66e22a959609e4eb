import DittoClient.LockStep.Connection
import DittoClient.NodeTcp.Outcomes
import DittoClient.NodeTcp.Pending
import DittoClient.Wire.Agreement

/-!
# A client and its server

The server puts frames on the connections of a client: one answer for each request that was
written on a connection, and further frames at any time. The frames of a connection form a byte
stream, and the client is handed this stream in chunks of any size. A `Net` is a client with what
its server has put on each connection, and with how much of it has arrived.
-/

namespace DittoClient

namespace NodeTcp

open DittoClient.LockStep
open DittoClient.Octets
open DittoClient.Protobuf
open DittoClient.Wire
open DittoClient.Transition

/-- A client, the frames that the server has put on each connection, and the number of bytes of
them that were handed to the client. -/
structure Net where
  client : State
  sent : ℕ → List ServerFrame
  arrived : ℕ → ℕ

/-- A step of the client that is not the arrival of data, a frame that the server sends, or the
arrival of up to `n` bytes. -/
inductive NetAction
  | client (a : Action)
  | serve (i : ℕ) (f : ServerFrame)
  | arrive (i n : ℕ)

/-- The answers among the frames of a server. -/
def replies (fs : List ServerFrame) : List Payload :=
  fs.filterMap ServerFrame.reply?

/-- The frames that were written on a connection. -/
def State.writtenOn (s : State) (i : ℕ) : List Sent :=
  s.wire.filter fun x => decide (x.sock = i)

/-- The frames that were received on a connection. -/
def State.receivedOn (s : State) (i : ℕ) : List Delivery :=
  s.received.filter fun d => decide (d.sock = i)

namespace Net

def init : Net where
  client := State.init
  sent := fun _ => []
  arrived := fun _ => 0

/-- The bytes that the server has put on a connection. -/
def stream (n : Net) (i : ℕ) : List UInt8 :=
  frames ((n.sent i).map ServerFrame.payload)

/-- The next chunk of at most `k` bytes. -/
def chunk (n : Net) (i k : ℕ) : List UInt8 :=
  ((n.stream i).drop (n.arrived i)).take k

/-- The server puts a frame on a connection. -/
def serve (n : Net) (i : ℕ) (f : ServerFrame) : Net :=
  { n with sent := Function.update n.sent i (n.sent i ++ [f]) }

@[simp] theorem serve_client (n : Net) (i : ℕ) (f : ServerFrame) :
    (n.serve i f).client = n.client := rfl

@[simp] theorem serve_arrived (n : Net) (i : ℕ) (f : ServerFrame) :
    (n.serve i f).arrived = n.arrived := rfl

/-- The frames of a connection, when one more is sent on one. -/
theorem serve_sent (n : Net) (i : ℕ) (f : ServerFrame) (j : ℕ) :
    (n.serve i f).sent j = n.sent j ++ if j = i then [f] else [] := by
  by_cases hj : j = i
  · subst hj
    simp [serve]
  · simp [serve, hj]

/-- Bytes were handed to the client. -/
def arrive (n : Net) (i k : ℕ) (s : State) : Net :=
  { n with client := s, arrived := Function.update n.arrived i (n.arrived i + k) }

end Net

def Action.isData : Action → Bool
  | .sockData _ _ => true
  | _ => false

/-- What can happen next to a client and its server. An answer is only sent to a request that was
written. -/
def netStep (opts : Options) (n : Net) : NetAction → Option Net
  | .client a =>
      if a.isData then none else (step opts n.client a).map fun s => { n with client := s }
  | .serve i f =>
      if f.reply?.isSome = true → (replies (n.sent i)).length < (n.client.writtenOn i).length then
        some (n.serve i f)
      else none
  | .arrive i k =>
      (step opts n.client (.sockData i (n.chunk i k))).map (n.arrive i (n.chunk i k).length)

/-- Whether a response is a watch event. -/
def isEvent : ServerResponse → Bool
  | .watchEvent _ _ _ => true
  | _ => false

/-- The frame holds a response, which is a watch event if the frame is pushed, and is not if it
is an answer. -/
def WellFormed (f : ServerFrame) : Prop :=
  ∃ x, Encodes nodeFormat x f.payload.bytes ∧ isEvent x = f.reply?.isNone

/-- If the frame is a watch event, its version is a safe integer. -/
def SafeVersion (f : ServerFrame) : Prop :=
  ∀ key value version, Encodes nodeFormat (.watchEvent key value version) f.payload.bytes →
    version.toNat ≤ maxSafeInteger

/-- The client takes the frame for a watch event if it is pushed, and does not if it is an
answer. -/
def Recognised (f : ServerFrame) : Prop :=
  (∃ name value version, decodeResponse f.payload.bytes = .ok (.watchEvent name value version)) ↔
    f.reply? = none

section Frames

/-- The decoder makes a watch event of nothing else. -/
theorem not_event_of_meaning {x : ServerResponse} (h : isEvent x = false) {name : String}
    {value : Option (List UInt8)} {version : ℤ} :
    nodeDialect.meaning x ≠ .ok (.watchEvent name value version) := by
  have hbind : ∀ {α : Type} (m : Except DecodeError α) (g : α → ClientResponse),
      (∀ n, g n ≠ .watchEvent name value version) →
        (m >>= fun n => .ok (g n)) ≠ .ok (.watchEvent name value version) := by
    intro α m g hg
    cases m with
    | error e => exact fun he => by cases he
    | ok n => exact fun he => hg n (Except.ok.inj he)
  cases x with
  | value key bs version => exact hbind _ _ fun n he => by cases he
  | ok version => exact hbind _ _ fun n he => by cases he
  | patternDeleted count => exact hbind _ _ fun n he => by cases he
  | patternTtlUpdated count => exact hbind _ _ fun n he => by cases he
  | error code message =>
      exact hbind _ (fun n => .error (nodeDialect.codeName n) message) fun n he => by cases he
  | watchEvent key bs version => cases h
  | _ => exact fun he => by cases he

/-- A well-formed frame is recognised, unless it is a watch event with a version that is not a safe
integer. -/
theorem WellFormed.recognised {f : ServerFrame} (h : WellFormed f) (hsafe : SafeVersion f) :
    Recognised f := by
  obtain ⟨x, henc, hkind⟩ := h
  have hsize : f.payload.bytes.length ≤ maxSafeInteger :=
    f.payload.length_lt.le.trans (by decide)
  have hdecode := Dialect.decodeResponse_encodes node_follows node_plain hsize henc
  cases hx : isEvent x with
  | true =>
      have hpush : f.reply? = none := by simpa [hx] using hkind
      refine ⟨fun _ => hpush, fun _ => ?_⟩
      cases x with
      | watchEvent key value version =>
          refine ⟨key, value, version.toNat, (hdecode _).mpr ?_⟩
          refine node_meaning fun n hn => ?_
          cases hn
          exact hsafe key value version henc
      | _ => cases hx
  | false =>
      have hreply : f.reply? ≠ none := by
        intro hnone
        rw [hx, hnone] at hkind
        cases hkind
      refine ⟨?_, fun hnone => absurd hnone hreply⟩
      rintro ⟨name, value, version, hok⟩
      exact absurd ((hdecode _).mp hok) (not_event_of_meaning hx)

@[simp] theorem replies_append (fs gs : List ServerFrame) :
    replies (fs ++ gs) = replies fs ++ replies gs :=
  List.filterMap_append

theorem length_replies_take_le (fs : List ServerFrame) (m : ℕ) :
    (replies (fs.take m)).length ≤ (replies fs).length :=
  ((List.take_sublist m fs).filterMap _).length_le

/-- How many answers are among the first frames when one more is counted. -/
theorem length_replies_take_succ {fs : List ServerFrame} {m : ℕ} {f : ServerFrame}
    (h : fs[m]? = some f) :
    (replies (fs.take (m + 1))).length =
      (replies (fs.take m)).length + if f.reply?.isSome then 1 else 0 := by
  obtain ⟨hlt, hget⟩ := List.getElem?_eq_some_iff.mp h
  rw [List.take_succ_eq_append_getElem hlt, hget, replies_append, List.length_append]
  cases f with
  | reply p => rfl
  | push p => rfl

end Frames

end NodeTcp

end DittoClient
