import DittoClient.NodeTcp.Ledger
import DittoClient.Transition.Cutting

/-!
# The reassembly of the stream

What arrives on a connection is handed to `onData` in chunks, and `onData` cuts it into frames. A
frame is delivered when it is complete, whatever the chunks; a callback that is invoked on the way
may call the client again, which does not touch the receive buffer. So the deliveries, and the
state in the end, are those of the whole stream cut into frames (`stream_reassembled`).
-/

namespace DittoClient

namespace NodeTcp

open DittoClient.Octets
open DittoClient.Wire
open DittoClient.Transition

/-- The frame at the front of a stream, with its payload, unless it is too large or not complete. -/
def cutFrame (maxFrameBytes : ℕ) (bs : List UInt8) : Option (List UInt8 × List UInt8) :=
  let payloadLen := ofBigEndian (bs.take 4)
  if bs.length < 4 ∨ maxFrameBytes < payloadLen ∨ bs.length < 4 + payloadLen then none
  else some ((bs.drop 4).take payloadLen, bs.drop (4 + payloadLen))

/-- The header at the front of a stream announces a frame that is too large. -/
def Oversized (maxFrameBytes : ℕ) (bs : List UInt8) : Prop :=
  4 ≤ bs.length ∧ maxFrameBytes < ofBigEndian (bs.take 4)

instance (maxFrameBytes : ℕ) (bs : List UInt8) : Decidable (Oversized maxFrameBytes bs) :=
  inferInstanceAs (Decidable (4 ≤ bs.length ∧ maxFrameBytes < ofBigEndian (bs.take 4)))

def frameCutter (maxFrameBytes : ℕ) : Cutter UInt8 (List UInt8) where
  next := cutFrame maxFrameBytes
  shorter {bs rest p} h := by
    unfold cutFrame at h
    dsimp only at h
    split at h
    · cases h
    · cases h
      rw [List.length_drop]
      omega
  stable {bs rest p} more h := by
    unfold cutFrame at h ⊢
    dsimp only at h ⊢
    split at h
    · cases h
    · next hwhole =>
        simp only [not_or, not_lt] at hwhole
        obtain ⟨hheader, hsize, hlen⟩ := hwhole
        cases h
        have htake : (bs ++ more).take 4 = bs.take 4 := List.take_append_of_le_length hheader
        rw [htake, if_neg]
        · rw [List.drop_append_of_le_length hheader, List.take_append_of_le_length
            (by rw [List.length_drop]; omega), List.drop_append_of_le_length hlen]
        · rw [List.length_append]
          omega

/-- The calls of the API. A watch callback may make them. -/
def Action.isCall : Action → Bool
  | .connect _ => true
  | .close => true
  | .request _ => true
  | .watch _ _ _ => true
  | .unwatch _ _ => true
  | _ => false

/-- The calls that a callback makes, in view of what has been received so far. -/
abbrev Script := List Delivery → List Action

def callStep (opts : Options) (s : State) (a : Action) : State :=
  if a.isCall then (step opts s a).getD s else s

variable (opts : Options) (script : Script)

/-- The callback that was invoked for the last frame makes its calls. -/
def runCallback (s : State) : State :=
  if (s.received.getLast?.bind Delivery.callback).isSome then
    (script s.received).foldl (callStep opts) s
  else s

/-- A payload is handled, with the callback that it invokes. -/
def deliver (i : ℕ) (s : State) (payload : List UInt8) : State :=
  runCallback opts script (handlePayload i payload s)

/-- A round of the loop of `onData`, with the callback that it invokes. -/
def roundWith (i : ℕ) (s : State) : State :=
  let t := onDataRound opts i s
  if s.received.length < t.received.length then runCallback opts script t else t

/-- The loop of `onData`. A round that goes on takes at least four bytes, so that the length of
the buffer bounds the rounds. -/
def onDataLoop (i : ℕ) : ℕ → State → State
  | 0, s => s
  | n + 1, s => if s.parsing.isNone then s else onDataLoop i n (roundWith opts script i s)

/-- The whole of `onData`. -/
def receive (i : ℕ) (s : State) (chunk : List UInt8) : State :=
  onDataLoop opts script i (s.recvBuf.length + chunk.length + 1) (onData i chunk s)

/-- The chunks of a stream are received one after the other. -/
def receiveAll (i : ℕ) (s : State) (chunks : List (List UInt8)) : State :=
  chunks.foldl (receive opts script i) s

/-- The socket is destroyed because of the header at the front of `left`. -/
def refuseFrame (left : List UInt8) (s : State) : State :=
  match s.socket with
  | none => s
  | some j => destroySock j
      (.error (s!"Incoming frame too large ({ofBigEndian (left.take 4)} bytes > limit " ++
        s!"{opts.maxFrameBytes} bytes)")) s

/-- The state with another receive buffer. -/
def State.buffered (s : State) (left : List UInt8) (parsing : Option ℕ) : State :=
  { s with recvBuf := left, parsing := parsing }

/-- What `onData` leaves when the frames are delivered and `left` is what is left. -/
def settleBuffer (left : List UInt8) (s : State) : State :=
  (if Oversized opts.maxFrameBytes left then refuseFrame opts left s else s).buffered left none

section Buffered

variable {s : State} (left : List UInt8) (parsing : Option ℕ)

theorem send_buffered (req : Request) :
    send opts req (s.buffered left parsing) = (send opts req s).buffered left parsing := by
  unfold send State.buffered
  dsimp only
  split
  · rfl
  · split
    · split
      · rfl
      · rfl
    · rw [writeInflight_eq, writeInflight_eq]
      rfl

theorem setCallback_buffered (name key : String) (ns : Option String) (callback : ℕ) :
    setCallback name key ns callback (s.buffered left parsing) =
      (setCallback name key ns callback s).buffered left parsing := by
  unfold setCallback State.buffered
  dsimp only
  split
  · rfl
  · rfl

theorem watch_buffered (key : String) (ns : Option String) (callback : ℕ) :
    watch opts key ns callback (s.buffered left parsing) =
      (watch opts key ns callback s).buffered left parsing := by
  rw [watch, setCallback_buffered, send_buffered]
  rfl

theorem unwatch_buffered (key : String) (ns : Option String) :
    unwatch opts key ns (s.buffered left parsing) =
      (unwatch opts key ns s).buffered left parsing := by
  let others := s.watchCallbacks.filter fun e =>
    decide (e.name ≠ watchCallbackKey key (normalizeNamespace ns))
  have hsend := send_buffered opts (s := { s with watchCallbacks := others }) left parsing
    (.unwatch key (normalizeNamespace ns))
  unfold unwatch State.buffered
  dsimp only
  split
  · rfl
  · exact hsend

theorem close_buffered : close (s.buffered left parsing) = (close s).buffered left parsing := by
  unfold close
  rw [rejectOfflineQueue_eq, rejectOfflineQueue_eq]
  unfold State.buffered cancelReconnectTimer
  dsimp only
  split
  · rfl
  · rfl

theorem connect_buffered (created : Bool) :
    connect created (s.buffered left parsing) = (connect created s).buffered left parsing := by
  unfold connect doConnect State.buffered
  dsimp only
  split
  · rfl
  · split
    · rfl
    · split
      · rfl
      · rfl

/-- A call takes no notice of the receive buffer. -/
theorem step_buffered {a : Action} (ha : a.isCall = true) :
    step opts (s.buffered left parsing) a =
      (step opts s a).map fun t => t.buffered left parsing := by
  cases a with
  | connect created => simp [step, connect_buffered]
  | close => simp [step, close_buffered]
  | request req =>
      simp only [step, send_buffered]
      split
      · split
        · rfl
        · rfl
      · rfl
  | watch key ns callback =>
      simp only [step, watch_buffered]
      split
      · rfl
      · rfl
  | unwatch key ns =>
      simp only [step, unwatch_buffered]
      split
      · rfl
      · rfl
  | _ => cases ha

theorem callStep_buffered (a : Action) :
    callStep opts (s.buffered left parsing) a = (callStep opts s a).buffered left parsing := by
  unfold callStep
  split
  · next ha =>
      rw [step_buffered opts left parsing ha]
      cases step opts s a with
      | none => rfl
      | some t => rfl
  · rfl

theorem foldl_callStep_buffered (calls : List Action) :
    calls.foldl (callStep opts) (s.buffered left parsing) =
      (calls.foldl (callStep opts) s).buffered left parsing := by
  induction calls generalizing s with
  | nil => rfl
  | cons a calls ih => rw [List.foldl_cons, callStep_buffered, ih, List.foldl_cons]

theorem runCallback_buffered :
    runCallback opts script (s.buffered left parsing) =
      (runCallback opts script s).buffered left parsing := by
  by_cases hinvoked : (s.received.getLast?.bind Delivery.callback).isSome = true
  · have hbuffered : ((s.buffered left parsing).received.getLast?.bind
        Delivery.callback).isSome = true := hinvoked
    rw [runCallback, runCallback, if_pos hinvoked, if_pos hbuffered]
    exact foldl_callStep_buffered opts left parsing _
  · have hbuffered : ¬ ((s.buffered left parsing).received.getLast?.bind
        Delivery.callback).isSome = true := hinvoked
    rw [runCallback, runCallback, if_neg hinvoked, if_neg hbuffered]

theorem handlePayload_buffered (i : ℕ) (payload : List UInt8) :
    handlePayload i payload (s.buffered left parsing) =
      (handlePayload i payload s).buffered left parsing := by
  have hshift : ∀ o, shiftWaiter i payload o (s.buffered left parsing) =
      (shiftWaiter i payload o s).buffered left parsing := by
    intro o
    unfold shiftWaiter State.buffered
    dsimp only
    split
    · rfl
    · rfl
  unfold handlePayload
  split
  · exact hshift _
  · rfl
  · exact hshift _

end Buffered

section Rounds

variable {s : State} (i : ℕ)

/-- Each payload is delivered once. -/
theorem received_handlePayload (s : State) (payload : List UInt8) :
    ∃ w callback, (handlePayload i payload s).received =
      s.received ++ [⟨i, payload, w, callback⟩] := by
  have hshift : ∀ o, ∃ w callback, (shiftWaiter i payload o s).received =
      s.received ++ [⟨i, payload, w, callback⟩] := by
    intro o
    unfold shiftWaiter
    split
    · exact ⟨none, none, rfl⟩
    · next w ws _ => exact ⟨some w, none, rfl⟩
  unfold handlePayload
  split
  · exact hshift _
  · exact ⟨none, _, rfl⟩
  · exact hshift _

/-- Without a whole frame the loop ends. -/
theorem onDataRound_of_none {bs : List UInt8} (h : cutFrame opts.maxFrameBytes bs = none) :
    onDataRound opts i (s.buffered bs (some i)) = settleBuffer opts bs s := by
  simp only [cutFrame, ite_eq_left_iff, reduceCtorEq, imp_false, not_not] at h
  have hbuf : (s.buffered bs (some i)).recvBuf = bs := rfl
  simp only [onDataRound, settleBuffer]
  rw [hbuf]
  by_cases hheader : bs.length < 4
  · rw [if_pos hheader, if_neg fun hover => absurd hover.1 (Nat.not_le.mpr hheader)]
    rfl
  · rw [if_neg hheader]
    by_cases hlarge : opts.maxFrameBytes < ofBigEndian (bs.take 4)
    · rw [if_pos hlarge, if_pos ⟨Nat.not_lt.mp hheader, hlarge⟩]
      split
      · next hnone =>
          have hsocket : s.socket = none := hnone
          simp only [refuseFrame, hsocket]
          rfl
      · next j hsome =>
          have hsocket : s.socket = some j := hsome
          simp only [refuseFrame, hsocket]
          rfl
    · rw [if_neg hlarge, if_pos (by omega), if_neg fun hover => hlarge hover.2]
      rfl

/-- With a whole frame the payload is handled, and the loop goes on with what is behind it. -/
theorem onDataRound_of_some {bs rest payload : List UInt8}
    (h : cutFrame opts.maxFrameBytes bs = some (payload, rest)) :
    onDataRound opts i (s.buffered bs (some i)) =
      (handlePayload i payload s).buffered rest (some i) := by
  simp only [cutFrame, Option.ite_none_left_eq_some] at h
  obtain ⟨hwhole, h⟩ := h
  cases h
  simp only [onDataRound]
  have hbuf : (s.buffered bs (some i)).recvBuf = bs := rfl
  rw [hbuf, if_neg (by omega), if_neg (by omega), if_neg (by omega), ← handlePayload_buffered]
  rfl

theorem settleBuffer_received (bs : List UInt8) (s : State) :
    (settleBuffer opts bs s).received = s.received := by
  unfold settleBuffer refuseFrame
  split
  · cases s.socket with
    | none => rfl
    | some j => rfl
  · rfl

theorem roundWith_of_none {bs : List UInt8} (h : cutFrame opts.maxFrameBytes bs = none) :
    roundWith opts script i (s.buffered bs (some i)) = settleBuffer opts bs s := by
  unfold roundWith
  rw [onDataRound_of_none opts i h]
  dsimp only
  rw [if_neg]
  rw [settleBuffer_received]
  exact Nat.lt_irrefl _

theorem roundWith_of_some {bs rest payload : List UInt8}
    (h : cutFrame opts.maxFrameBytes bs = some (payload, rest)) :
    roundWith opts script i (s.buffered bs (some i)) =
      (deliver opts script i s payload).buffered rest (some i) := by
  obtain ⟨w, callback, hreceived⟩ := received_handlePayload i s payload
  unfold roundWith
  rw [onDataRound_of_some opts i h]
  dsimp only
  rw [if_pos, runCallback_buffered]
  · rfl
  · change s.received.length < (handlePayload i payload s).received.length
    rw [hreceived, List.length_append]
    exact Nat.lt_succ_self _

/-- The loop is over when nothing is being parsed. -/
theorem onDataLoop_of_none (n : ℕ) (h : s.parsing = none) : onDataLoop opts script i n s = s := by
  cases n with
  | zero => rfl
  | succ n => simp [onDataLoop, h]

/-- The loop delivers the frames in the buffer, and leaves what is behind them. -/
theorem onDataLoop_eq (bs : List UInt8) : ∀ (n : ℕ) (s : State), bs.length < n →
    onDataLoop opts script i n (s.buffered bs (some i)) =
      settleBuffer opts ((frameCutter opts.maxFrameBytes).pieces bs).2
        (((frameCutter opts.maxFrameBytes).pieces bs).1.foldl (deliver opts script i) s) := by
  induction bs using Cutter.pieces.induct (c := frameCutter opts.maxFrameBytes) with
  | case1 bs h =>
      intro n s hn
      cases n with
      | zero => exact absurd hn (Nat.not_lt_zero _)
      | succ n =>
          have hround := roundWith_of_none opts script (s := s) i h
          rw [onDataLoop, if_neg (by simp [State.buffered]), hround,
            onDataLoop_of_none opts script i n (by rfl), Cutter.pieces_of_none h]
          rfl
  | case2 bs payload rest h ih =>
      intro n s hn
      cases n with
      | zero => exact absurd hn (Nat.not_lt_zero _)
      | succ n =>
          have hshorter := (frameCutter opts.maxFrameBytes).shorter h
          rw [onDataLoop, if_neg (by simp [State.buffered]), roundWith_of_some opts script i h,
            ih n _ (by omega), Cutter.pieces_of_some h]
          rfl

end Rounds

section Oversized

variable {left : List UInt8} {s : State}

theorem Oversized.append {maxFrameBytes : ℕ} (h : Oversized maxFrameBytes left)
    (more : List UInt8) : Oversized maxFrameBytes (left ++ more) := by
  refine ⟨by rw [List.length_append]; exact Nat.le_add_right_of_le h.1, ?_⟩
  rw [List.take_append_of_le_length h.1]
  exact h.2

theorem Oversized.cutFrame {maxFrameBytes : ℕ} (h : Oversized maxFrameBytes left) :
    cutFrame maxFrameBytes left = none := by
  unfold NodeTcp.cutFrame
  exact if_pos (Or.inr (Or.inl h.2))

theorem destroySock_twice (j : ℕ) (e : Err) (s : State) :
    destroySock j e (destroySock j e s) = destroySock j e s := by
  unfold destroySock State.updateSock
  dsimp only
  rw [Function.update_self, Function.update_idem]
  by_cases hlive : (s.socks j).phase.isLive = true
  · simp only [if_pos hlive]
    rfl
  · simp only [if_neg hlive]

/-- Once a socket was destroyed because of a header, more data behind it makes no difference. -/
theorem refuseFrame_append (h : 4 ≤ left.length) (more : List UInt8) (s : State) :
    refuseFrame opts (left ++ more) (refuseFrame opts left s) = refuseFrame opts (left ++ more) s := by
  unfold refuseFrame
  rw [List.take_append_of_le_length h]
  cases hsocket : s.socket with
  | none => simp [hsocket]
  | some j =>
      have hkept : ∀ e, (destroySock j e s).socket = some j := fun e => hsocket
      simp only [hkept, destroySock_twice]

end Oversized

section Stream

variable {i : ℕ} {s : State} {left : List UInt8}

theorem received_send (req : Request) : (send opts req s).received = s.received := by
  unfold send
  split
  · rfl
  · split
    · split
      · rfl
      · rfl
    · exact congrArg Inbox.received (writeNew_inbox opts s .caller req)

/-- A call delivers nothing. -/
theorem received_callStep (s : State) (a : Action) : (callStep opts s a).received = s.received := by
  unfold callStep
  split
  · next hcall =>
    cases a with
    | connect created => exact congrArg Inbox.received (inbox_connect created s)
    | close => exact congrArg Inbox.received (inbox_close s)
    | request req =>
        simp only [step]
        split
        · split
          · exact received_send opts req
          · rfl
        · rfl
    | watch key ns callback =>
        simp only [step]
        split
        · refine (received_send opts _).trans ?_
          unfold setCallback
          split
          · rfl
          · rfl
        · rfl
    | unwatch key ns =>
        simp only [step, unwatch]
        split
        · split
          · rfl
          · exact received_send opts _
        · rfl
    | _ => cases hcall
  · rfl

theorem payloads_deliver (s : State) (payload : List UInt8) :
    (deliver opts script i s payload).received.map Delivery.payload =
      s.received.map Delivery.payload ++ [payload] := by
  have hcalls : ∀ (calls : List Action) (s : State),
      (calls.foldl (callStep opts) s).received = s.received := by
    intro calls
    induction calls with
    | nil => exact fun s => rfl
    | cons a calls ih => exact fun s => (ih _).trans (received_callStep opts s a)
  have hcallback : ∀ s, (runCallback opts script s).received = s.received := by
    intro s
    unfold runCallback
    split
    · exact hcalls _ s
    · rfl
  obtain ⟨w, callback, hreceived⟩ := received_handlePayload i s payload
  rw [deliver, hcallback, hreceived, List.map_append]
  rfl

theorem payloads_foldl (payloads : List (List UInt8)) (s : State) :
    (payloads.foldl (deliver opts script i) s).received.map Delivery.payload =
      s.received.map Delivery.payload ++ payloads := by
  induction payloads generalizing s with
  | nil => simp
  | cons payload payloads ih => simp [ih, payloads_deliver]

/-- The frames that are cut off take up the stream in front of what is left. -/
theorem pieces_consume (maxFrameBytes : ℕ) (bs : List UInt8) :
    ∃ consumed, bs = consumed ++ ((frameCutter maxFrameBytes).pieces bs).2 ∧
      consumed.length = (((frameCutter maxFrameBytes).pieces bs).1.map fun p => 4 + p.length).sum := by
  induction bs using Cutter.pieces.induct (c := frameCutter maxFrameBytes) with
  | case1 bs h =>
      rw [Cutter.pieces_of_none h]
      exact ⟨[], rfl, rfl⟩
  | case2 bs payload rest h ih =>
      obtain ⟨consumed, hrest, hlen⟩ := ih
      have hframe : cutFrame maxFrameBytes bs = some (payload, rest) := h
      simp only [cutFrame, Option.ite_none_left_eq_some] at hframe
      obtain ⟨hwhole, hframe⟩ := hframe
      cases hframe
      rw [Cutter.pieces_of_some h]
      refine ⟨bs.take (4 + ofBigEndian (bs.take 4)) ++ consumed, ?_, ?_⟩
      · rw [List.append_assoc, ← hrest, List.take_append_drop]
      · rw [List.length_append, hlen, List.map_cons, List.sum_cons, List.length_take,
          List.length_take, List.length_drop]
        omega

/-- A chunk behind what was left of the ones before. -/
theorem receive_settleBuffer (left : List UInt8) (chunk : List UInt8) :
    receive opts script i (settleBuffer opts left s) chunk =
      settleBuffer opts ((frameCutter opts.maxFrameBytes).pieces (left ++ chunk)).2
        (((frameCutter opts.maxFrameBytes).pieces (left ++ chunk)).1.foldl
          (deliver opts script i) s) := by
  by_cases hover : Oversized opts.maxFrameBytes left
  · have hloop := onDataLoop_eq opts script i (left ++ chunk) (left.length + chunk.length + 1)
      (refuseFrame opts left s) (by rw [List.length_append]; exact Nat.lt_succ_self _)
    have hnone := Cutter.pieces_of_none (c := frameCutter opts.maxFrameBytes)
      (hover.append chunk).cutFrame
    rw [hnone] at hloop ⊢
    unfold receive
    rw [settleBuffer, if_pos hover]
    refine hloop.trans ?_
    simp only [List.foldl_nil, settleBuffer, if_pos (hover.append chunk)]
    rw [refuseFrame_append opts hover.1]
  · rw [settleBuffer, if_neg hover]
    exact onDataLoop_eq opts script i (left ++ chunk) (left.length + chunk.length + 1) s
      (by rw [List.length_append]; exact Nat.lt_succ_self _)

/-- Receiving chunk by chunk is cutting the whole stream. -/
theorem receiveAll_settleBuffer (h : cutFrame opts.maxFrameBytes left = none)
    (chunks : List (List UInt8)) :
    receiveAll opts script i (settleBuffer opts left s) chunks =
      settleBuffer opts
        ((frameCutter opts.maxFrameBytes).pieces (left ++ chunks.flatten)).2
        (((frameCutter opts.maxFrameBytes).pieces (left ++ chunks.flatten)).1.foldl
          (deliver opts script i) s) := by
  have hfold : ∀ (s : State) (left : List UInt8), cutFrame opts.maxFrameBytes left = none →
      receiveAll opts script i (settleBuffer opts left s) chunks =
        settleBuffer opts
          (chunks.foldl ((frameCutter opts.maxFrameBytes).feed (deliver opts script i))
            (s, left)).2
          (chunks.foldl ((frameCutter opts.maxFrameBytes).feed (deliver opts script i))
            (s, left)).1 := by
    unfold receiveAll
    induction chunks with
    | nil => exact fun s left _ => rfl
    | cons chunk chunks ih =>
        intro s left h
        rw [List.foldl_cons, receive_settleBuffer opts script left, List.foldl_cons]
        exact ih _ _ (Cutter.next_pieces (frameCutter opts.maxFrameBytes) _)
  rw [hfold s left h, Cutter.foldl_feed _ s h]

/-- The chunks of a stream are received as the stream is cut into frames: the state in the end
does not depend on the chunks, each payload is delivered once and in order, what is left is less
than a frame, and nothing is delivered behind a header that is too large. -/
structure Reassembled (i : ℕ) (s : State) (chunks : List (List UInt8)) : Prop where
  independent : ∀ others : List (List UInt8), others.flatten = chunks.flatten →
    receiveAll opts script i s others = receiveAll opts script i s chunks
  delivered : ∃ left, receiveAll opts script i s chunks = settleBuffer opts left
    (((frameCutter opts.maxFrameBytes).pieces chunks.flatten).1.foldl (deliver opts script i) s)
  payloads : (receiveAll opts script i s chunks).received.map Delivery.payload =
    s.received.map Delivery.payload ++
      ((frameCutter opts.maxFrameBytes).pieces chunks.flatten).1
  suffix : ∃ consumed, chunks.flatten =
      consumed ++ (receiveAll opts script i s chunks).recvBuf ∧
    consumed.length =
      (((frameCutter opts.maxFrameBytes).pieces chunks.flatten).1.map fun p => 4 + p.length).sum
  short : ¬ Oversized opts.maxFrameBytes (receiveAll opts script i s chunks).recvBuf →
    (receiveAll opts script i s chunks).recvBuf.length < 4 ∨
      (receiveAll opts script i s chunks).recvBuf.length <
        4 + ofBigEndian ((receiveAll opts script i s chunks).recvBuf.take 4)
  stopped : Oversized opts.maxFrameBytes (receiveAll opts script i s chunks).recvBuf →
    ∀ more, (receiveAll opts script i s (chunks ++ more)).received =
      (receiveAll opts script i s chunks).received

/-- However a stream is split into chunks, the same is received of it. -/
theorem stream_reassembled (hbuf : s.recvBuf = []) (hidle : s.parsing = none)
    (chunks : List (List UInt8)) : Reassembled opts script i s chunks := by
  have hstart : settleBuffer opts [] s = s := by
    have hsmall : ¬ Oversized opts.maxFrameBytes [] := fun h => absurd h.1 (by simp)
    rw [settleBuffer, if_neg hsmall, State.buffered, ← hbuf, ← hidle]
  have hall : ∀ chunks, receiveAll opts script i s chunks = settleBuffer opts
      ((frameCutter opts.maxFrameBytes).pieces chunks.flatten).2
      (((frameCutter opts.maxFrameBytes).pieces chunks.flatten).1.foldl
        (deliver opts script i) s) := by
    intro chunks
    have hempty : cutFrame opts.maxFrameBytes [] = none := rfl
    have hcut := receiveAll_settleBuffer opts script (i := i) (s := s) hempty chunks
    rwa [hstart, List.nil_append] at hcut
  have hleft : (receiveAll opts script i s chunks).recvBuf =
      ((frameCutter opts.maxFrameBytes).pieces chunks.flatten).2 := by
    rw [hall]
    rfl
  refine ⟨fun others h => ?_, ⟨_, hall chunks⟩, ?_, ?_, ?_, ?_⟩
  · rw [hall, hall, h]
  · rw [hall, settleBuffer_received, payloads_foldl]
  · rw [hleft]
    exact pieces_consume opts.maxFrameBytes chunks.flatten
  · rw [hleft]
    intro hfits
    have hnone : cutFrame opts.maxFrameBytes
        ((frameCutter opts.maxFrameBytes).pieces chunks.flatten).2 = none :=
      Cutter.next_pieces (frameCutter opts.maxFrameBytes) chunks.flatten
    simp only [cutFrame, ite_eq_left_iff, reduceCtorEq, imp_false, not_not] at hnone
    rcases hnone with hheader | hlarge | hshort
    · exact Or.inl hheader
    · exact Or.inr (Nat.not_le.mp fun hwhole => hfits ⟨by omega, hlarge⟩)
    · exact Or.inr hshort
  · rw [hleft]
    intro hover more
    have hnone := Cutter.pieces_of_none (c := frameCutter opts.maxFrameBytes)
      (hover.append more.flatten).cutFrame
    rw [hall, hall, settleBuffer_received, settleBuffer_received, List.flatten_append,
      Cutter.pieces_append, hnone, List.append_nil]

/-- Two frames, the second one empty, with a byte behind them, in three chunks and in one. -/
theorem stream_reassembled_split :
    receiveAll Options.defaults (fun _ => []) 0 State.init [[0, 0], [0, 1, 7, 0], [0, 0, 0, 5]] =
        receiveAll Options.defaults (fun _ => []) 0 State.init [[0, 0, 0, 1, 7, 0, 0, 0, 0, 5]] ∧
      (receiveAll Options.defaults (fun _ => []) 0 State.init
        [[0, 0, 0, 1, 7, 0, 0, 0, 0, 5]]).received.map Delivery.payload = [[7], []] := by
  have hwhole := stream_reassembled Options.defaults (fun _ => []) (i := 0) (s := State.init) rfl
    rfl [[0, 0, 0, 1, 7, 0, 0, 0, 0, 5]]
  refine ⟨hwhole.independent _ rfl, hwhole.payloads.trans ?_⟩
  have hfirst : (frameCutter Options.defaults.maxFrameBytes).next [0, 0, 0, 1, 7, 0, 0, 0, 0, 5] =
      some ([7], [0, 0, 0, 0, 5]) := by
    simp [frameCutter, cutFrame, ofBigEndian, Options.defaults]
  have hsecond : (frameCutter Options.defaults.maxFrameBytes).next [0, 0, 0, 0, 5] =
      some ([], [5]) := by
    simp [frameCutter, cutFrame, ofBigEndian, Options.defaults]
  have hrest : (frameCutter Options.defaults.maxFrameBytes).next [5] = none := by
    simp [frameCutter, cutFrame]
  change [] ++ ((frameCutter _).pieces [0, 0, 0, 1, 7, 0, 0, 0, 0, 5]).1 = _
  rw [Cutter.pieces_of_some hfirst, Cutter.pieces_of_some hsecond, Cutter.pieces_of_none hrest]
  rfl

end Stream

end NodeTcp

end DittoClient
