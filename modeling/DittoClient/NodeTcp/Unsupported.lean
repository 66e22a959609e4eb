import DittoClient.NodeTcp.Atomic
import DittoClient.NodeTcp.Attempts
import DittoClient.NodeTcp.Closing
import DittoClient.NodeTcp.Pairing

/-!
# When the Node.js client reports an atomic operation as unsupported

What an atomic operation makes of its outcome comes from the answer that was received for its
request, or from an error of the client itself: a timeout, the loss of the connection, or the
rejection of the queue. The texts of the loss and of the open circuit have parts that the client
does not choose. The queue is rejected with nothing else but the text of `close`, since it is empty
while the client does not connect again.
-/

namespace DittoClient

namespace NodeTcp

open DittoClient.LockStep
open DittoClient.Octets
open DittoClient.Wire
open DittoClient.Transition

variable (opts : Options)

/-- Requests are queued only while the client connects again, and a client whose Auth is refused
does not. -/
structure State.Queueing (s : State) : Prop where
  queue : s.offlineQueue ≠ [] → s.returns opts = true
  closing : ∀ k e, (s.tasks k).pc = .authClosing e → s.destroyed = true

/-- No atomic operation is given an error whose text is taken for a refusal: neither that of the
loss of its connection, nor that of an open circuit. -/
structure Discerns (s : State) (a : Action) : Prop where
  lost : ∀ e, a.loss = some e → s.socket.isSome = true →
    takenForUnsupported (lostErr e).message = true → ∀ w ∈ s.inflight,
      isAtomic (s.waiters w).request = true → (s.waiters w).settled = true
  exhausted : ∀ k, s.Exhausts opts a k → takenForUnsupported (circuitErr opts k).message = true →
    ∀ w ∈ s.offlineQueue, isAtomic (s.waiters w).request = false

/-- The client is not disturbed, the frames of the server are recognised, and no atomic operation is
given an error whose text is taken for a refusal. -/
def Attributable (n : Net) (a : NetAction) : Prop :=
  Serves opts Recognised n a ∧ ∀ b, a = .client b → Discerns opts n.client b

namespace Net

/-- The answer `p` to the frame of a waiter was received: the server sent it as an answer on the
connection that the frame was written on, and as many answers were sent before as frames had been
written. -/
def Answers (n : Net) (w : ℕ) (frame : Request) (p : Payload) : Prop :=
  ∃ i j d, (n.sent i)[j]? = some (.reply p) ∧ (n.client.receivedOn i)[j]? = some d ∧
    d.waiter = some w ∧
      (n.client.writtenOn i)[(replies ((n.sent i).take j)).length]? = some ⟨i, w, frame⟩

/-- The answer to the request of a waiter was received, and refuses it or cannot be decoded. -/
def Refused (n : Net) (w : ℕ) : Prop :=
  ∃ p, n.Answers w (n.client.waiters w).request p ∧
    Refuses decodeResponse (n.client.waiters w).request p

/-- What a waiter is given is an error that is not reported as unsupported, or comes from the answer
to it. -/
def Explains (n : Net) (w : ℕ) (o : Settlement) : Prop :=
  (∃ e, o = .rejected e ∧ reported e = false) ∨
    ∃ frame p, o = settlementOf p.bytes ∧ n.Answers w frame p

/-- What the atomic operations are given is explained. -/
def Explained (n : Net) : Prop :=
  ∀ w < n.client.nextWaiter, isAtomic (n.client.waiters w).request = true →
    ∀ o ∈ (n.client.waiters w).outcomes, n.Explains w o

/-- What was sent, received and written on the connections stays. -/
structure Grows (n n' : Net) : Prop where
  sent : ∀ i, n.sent i <+: n'.sent i
  received : ∀ i, n.client.receivedOn i <+: n'.client.receivedOn i
  written : ∀ i, n.client.writtenOn i <+: n'.client.writtenOn i

end Net

/-- In every run under a condition, an atomic operation fails with UnsupportedRequest only if the
answer to it was received and refuses it, and never when it is rejected at once. -/
def NeverGuesses (C : Net → NetAction → Prop) : Prop :=
  ∀ n, Reachable (netStep opts) C Net.init n →
    (∀ w < n.client.nextWaiter, ∀ o ∈ (n.client.waiters w).outcomes, ∀ m,
      atomicError (n.client.waiters w).request o = some (.ditto "UnsupportedRequest" m) →
        n.Refused w) ∧
    ∀ req e m, sendError opts n.client = some e →
      atomicError req (.rejected e) ≠ some (.ditto "UnsupportedRequest" m)

section Queue

variable {opts} {s t : State} {a : Action}

/-- A client is closed by a call, or by a run of `doConnect`. -/
theorem Link.Step.destroys {l l' : Link} (hs : Link.Step l a l') (hd : l.destroyed = false)
    (hd' : l'.destroyed = true) : a = .close ∨ ∃ k, a = .resume k := by
  have hcontra : ∀ {p : Prop}, l'.destroyed = l.destroyed → p := fun heq => by
    rw [heq, hd] at hd'
    cases hd'
  cases hs with
  | close => exact Or.inl rfl
  | refused e hpc => exact Or.inr ⟨_, rfl⟩
  | connect created _ _ => exact hcontra (Link.dialed_destroyed _ _)
  | reconnectTimer created _ => exact hcontra (Link.dialed_destroyed _ _)
  | sockConnected _ => exact hcontra (Link.settled_destroyed _ _ _)
  | sockError _ _ => exact hcontra (Link.settled_destroyed _ _ _)
  | _ => exact hcontra rfl

/-- A step that closes the client empties the queue. -/
theorem queue_of_destroyed (hs : step opts s a = some t) (hd : s.destroyed = false)
    (ht : t.destroyed = true) : t.offlineQueue = [] := by
  rcases (step_link opts hs).destroys hd ht with rfl | ⟨k, rfl⟩
  · cases hs
    exact close_queue s
  · simp only [step] at hs
    split at hs
    · obtain ⟨w, r, hpc, hout, hrefused⟩ := refuses_of_resume opts hs hd ht
      simp only [resume, hpc, hout, Option.some.injEq] at hs
      rw [← hs]
      unfold authenticated
      split
      · exact absurd rfl hrefused
      · exact close_queue s
      · exact close_queue s
    · cases hs

theorem reRegisterWatches_not_closing (k pos : ℕ) (s : State) (e : Err) :
    ((reRegisterWatches opts k pos s).tasks k).pc ≠ .authClosing e := by
  obtain ⟨pc, hlate, hlink⟩ := link_reRegisterWatches opts k pos s
  have hpc : ((reRegisterWatches opts k pos s).tasks k).pc = pc := by
    have htasks := congrArg (fun l => (l.tasks k).pc) hlink
    simpa [Link.setPc, State.link] using htasks
  rw [hpc]
  rintro rfl
  cases hlate

/-- A run waits for `close` once it has closed the client. -/
theorem destroyed_of_closing {k : ℕ} {e : Err} (hr : resume opts k s = some t)
    (hpc : (t.tasks k).pc = .authClosing e) : t.destroyed = true := by
  have hdone : ∀ {u : State} {pc : Pc}, u.setPc k pc = t → pc.late = false →
      (∀ e, pc ≠ .authClosing e) → t.destroyed = true := by
    rintro u pc rfl - hne
    exact absurd (by simpa [State.setPc] using hpc) (hne e)
  have hclosed : (close s).destroyed = true := congrArg Link.destroyed (link_close s)
  unfold resume at hr
  split at hr
  · cases hr
  · cases hr
    unfold connected at hpc
    dsimp only at hpc
    split at hpc
    · exact absurd hpc (reRegisterWatches_not_closing k 0 _ e)
    · simp only [State.setPc, Function.update_self] at hpc
      split at hpc
      · cases hpc
      · cases hpc
  · exact hdone (Option.some.inj hr) rfl (by simp)
  · split at hr
    · cases hr
    · exact hdone (Option.some.inj hr) rfl (by simp)
    · cases hr
      unfold authenticated at hpc ⊢
      split at hpc
      · exact absurd hpc (reRegisterWatches_not_closing k 0 s e)
      · exact hclosed
      · exact hclosed
  · exact hdone (Option.some.inj hr) rfl (by simp)
  · exact hdone (Option.some.inj hr) rfl (by simp)
  · split at hr
    · cases hr
    · exact hdone (Option.some.inj hr) rfl (by simp)
    · cases hr
      exact absurd hpc (reRegisterWatches_not_closing k _ s e)
  · exact hdone (Option.some.inj hr) rfl (by simp)
  · cases hr

theorem queueing_init : State.init.Queueing opts where
  queue h := absurd rfl h
  closing k e h := by cases h

theorem State.Queueing.step (h : s.Queueing opts) (hw : WaiterInv s)
    (hs : step opts s a = some t) : t.Queueing opts where
  queue hq := by
    have hreturns : s.returns opts = true := by
      rcases queue_of_ledger opts (step_ledger opts hw hs) hq with hold | ⟨-, -, hauto, hd⟩
      · exact h.queue hold
      · simp [State.returns, hauto, hd]
    obtain ⟨hauto, hd⟩ := Bool.and_eq_true_iff.mp hreturns
    have hopen : s.destroyed = false := by simpa using hd
    have hopen' : t.destroyed = false :=
      eq_false_of_ne_true fun ht => hq (queue_of_destroyed hs hopen ht)
    simp [State.returns, hauto, hopen']
  closing k e hpc := by
    by_cases hk : a = .resume k
    · subst hk
      simp only [NodeTcp.step] at hs
      split at hs
      · exact destroyed_of_closing hs hpc
      · cases hs
    · have hold := (step_link opts hs).pc_kept hk (k := k) (by
        change (t.tasks k).pc.starts = false
        rw [hpc]
        rfl)
      exact (step_link opts hs).destroyed (h.closing k e (hold.symm.trans hpc))

end Queue

namespace Net

variable {opts} {n n' : Net} {a : NetAction} {w : ℕ} {frame : Request} {p : Payload}

section Growing

/-- An answer that was received stays so. -/
theorem Answers.mono (h : n.Answers w frame p) (hg : n.Grows n') : n'.Answers w frame p := by
  obtain ⟨i, j, d, hp, hd, hwaiter, hx⟩ := h
  obtain ⟨sent, hsent⟩ := hg.sent i
  obtain ⟨received, hreceived⟩ := hg.received i
  obtain ⟨written, hwritten⟩ := hg.written i
  have hj := (List.getElem?_eq_some_iff.mp hp).1
  have hd' := (List.getElem?_eq_some_iff.mp hd).1
  have hx' := (List.getElem?_eq_some_iff.mp hx).1
  refine ⟨i, j, d, ?_, ?_, hwaiter, ?_⟩
  · rw [← hsent, List.getElem?_append_left hj]
    exact hp
  · rw [← hreceived, List.getElem?_append_left hd']
    exact hd
  · rw [← hsent, List.take_append_of_le_length hj.le, ← hwritten, List.getElem?_append_left hx']
    exact hx

theorem Explains.mono {o : Settlement} (h : n.Explains w o) (hg : n.Grows n') :
    n'.Explains w o :=
  h.imp_right fun ⟨frame, p, ho, hanswers⟩ => ⟨frame, p, ho, hanswers.mono hg⟩

theorem Base.grows (hb : n.Base opts n') (hreceived : n'.client.received = n.client.received ∨
    ∃ j f d, n.Receives n'.client j f d) : n.Grows n' where
  sent i := by rw [hb.sent]
  received i := by
    rcases hreceived with hsame | ⟨j, f, d, hr⟩
    · unfold State.receivedOn
      rw [hsame]
    · rw [hr.receivedOn i]
      exact List.prefix_append _ _
  written i := by
    obtain ⟨new, hnew⟩ := hb.written_append i
    rw [hnew]
    exact List.prefix_append _ _

theorem grows_serve (n : Net) (i : ℕ) (f : ServerFrame) : n.Grows (n.serve i f) where
  sent j := by
    rw [serve_sent]
    exact List.prefix_append _ _
  received j := List.prefix_rfl
  written j := List.prefix_rfl

end Growing

section Explaining

/-- What a waiter is given by a step that receives no frame is an error that is not reported as
unsupported. -/
theorem not_reported_of_cause {s : State} {b : Action} (hq : s.Queueing opts)
    (hd : Discerns opts s b) (hb : b ≠ .round) {o : Settlement} (hc : Cause opts s b w o)
    (hopen : (s.waiters w).settled = false) (hatomic : isAtomic (s.waiters w).request = true) :
    ∃ e, o = .rejected e ∧ reported e = false := by
  have hempty : ∀ {p : Prop}, w ∈ s.offlineQueue → s.returns opts = false → p := by
    intro p hw hends
    rw [hq.queue (List.ne_nil_of_mem hw)] at hends
    cases hends
  cases hc with
  | timeout => exact ⟨_, rfl, timeoutErr_not_reported opts⟩
  | replied _ _ _ => exact absurd rfl hb
  | @lost _ _ e hloss hsocket hin =>
      refine ⟨_, rfl, eq_false_of_ne_true fun htaken => ?_⟩
      rw [hd.lost e hloss hsocket htaken w hin hatomic] at hopen
      cases hopen
  | drained hw he =>
      cases he with
      | closed => exact ⟨_, rfl, closedErr_not_reported⟩
      | exhausted hex =>
          refine ⟨_, rfl, eq_false_of_ne_true fun htaken => ?_⟩
          rw [hd.exhausted _ hex htaken w hw] at hatomic
          cases hatomic
      | failed _ hends => exact hempty hw hends
      | lost _ hends => exact hempty hw hends
      | refused hpc =>
          refine hempty hw ?_
          rw [State.returns, hq.closing _ _ hpc, Bool.not_true, Bool.and_false]

theorem discerns_sockData (s : State) (i : ℕ) (chunk : List UInt8) :
    Discerns opts s (.sockData i chunk) where
  lost e h := by cases h
  exhausted k h := by
    have hfailures := h.1
    simp [State.failures, Action.loss] at hfailures

/-- What one step gives to the waiters is explained, and what they were given before stays so. -/
theorem Explained.next (h : n.Explained) (hg : n.Grows n') {b : Action}
    (hledger : Ledger opts n.client b n'.client)
    (hgiven : n.client.Awards n'.client fun w o => (n.client.waiters w).settled = false →
      isAtomic (n.client.waiters w).request = true → n'.Explains w o) : n'.Explained := by
  obtain ⟨hrequest, hnew⟩ := hledger.waiters
  intro w hw hatomic o ho
  rcases Nat.lt_or_ge w n.client.nextWaiter with hold | hle
  · rw [hrequest w hold] at hatomic
    rcases hgiven w hold with hsame | ⟨hopen, o', ho', hout⟩
    · rw [hsame] at ho
      exact (h w hold hatomic o ho).mono hg
    · rw [hout, List.mem_singleton] at ho
      rw [ho]
      exact ho' hopen hatomic
  · rw [hnew w hw hle] at ho
    cases ho

/-- A frame that is received explains what it gives. -/
theorem Receives.awards {t : State} {i : ℕ} {f : ServerFrame} {d : Delivery}
    (hr : n.Receives t i f d) (hw : WaiterInv n.client) :
    n.client.Awards t fun w o => ({ n with client := t } : Net).Explains w o := by
  cases hr.delivers with
  | push p _ _ hwaiters => exact .of_eq fun w _ => by rw [hwaiters]
  | @reply p x hx hwaiter hin hwaiters =>
      intro w _
      by_cases hwx : w = x.waiter
      · subst hwx
        rw [hwaiters, Function.update_self]
        have hsock : x.sock = i := by
          have hmem := List.mem_of_getElem? hx
          exact of_decide_eq_true (List.mem_filter.mp hmem).2
        have hself : (n.client.writtenOn i)[(replies ((n.sent i).take
            (n.client.receivedOn i).length)).length]? = some ⟨i, x.waiter, x.frame⟩ := by
          rw [hx, ← hsock]
        have hanswers : ({ n with client := t } : Net).Answers x.waiter x.frame p := by
          refine ⟨i, (n.client.receivedOn i).length, d, hr.next, ?_, hwaiter, ?_⟩
          · change (t.receivedOn i)[(n.client.receivedOn i).length]? = some d
            rw [hr.receivedOn i, if_pos rfl, List.getElem?_concat_length]
          · change (t.writtenOn i)[_]? = _
            rw [hr.writtenOn i]
            exact hself
        exact (Waiter.finish_outcomes (hw.sound x.waiter) _).imp_right fun ⟨hopen, hout⟩ =>
          ⟨hopen, _, Or.inr ⟨x.frame, p, rfl, hanswers⟩, hout⟩
      · rw [hwaiters, Function.update_of_ne hwx]
        exact Or.inl rfl

/-- What a step of the client that receives no frame gives to the waiters. -/
theorem awards_of_step {t : State} {b : Action} (hinv : n.Inv opts)
    (hq : n.client.Queueing opts) (hd : Discerns opts n.client b) (hb : b ≠ .round)
    (hs : step opts n.client b = some t) :
    n.client.Awards t fun w o => (n.client.waiters w).settled = false →
      isAtomic (n.client.waiters w).request = true → n'.Explains w o :=
  (step_awards opts hinv.waiters hs).mono fun _ _ hc hopen hatomic =>
    Or.inl (not_reported_of_cause hq hd hb hc hopen hatomic)

theorem explained_init : Net.init.Explained :=
  fun w hw => absurd hw (Nat.not_lt_zero w)

theorem Explained.step (h : n.Explained) (hinv : n.Inv opts) (hq : n.client.Queueing opts)
    (ha : Attributable opts n a) (hs : netStep opts n a = some n') : n'.Explained := by
  have hreceived := (hinv.next ha.1 hs).2
  cases a with
  | client b =>
      simp only [netStep, Option.ite_none_left_eq_some, Option.map_eq_some_iff] at hs
      obtain ⟨-, t, ht, rfl⟩ := hs
      have hledger := step_ledger opts hinv.waiters ht
      have hg := (hinv.base ha.1.1 ht n.arrived).grows hreceived
      refine h.next hg hledger ?_
      by_cases hb : b = .round
      · subst hb
        simp only [NodeTcp.step, Option.map_eq_some_iff] at ht
        obtain ⟨i, hparsing, rfl⟩ := ht
        rcases hinv.round_cases hparsing with ⟨socks, heq⟩ | ⟨f, d, hr⟩
        · exact .of_eq fun w _ => by rw [heq]
        · exact (hr.awards hinv.waiters).mono fun _ _ ho _ _ => ho
      · exact awards_of_step hinv hq (ha.2 b rfl) hb ht
  | serve i f =>
      simp only [netStep, Option.ite_none_right_eq_some, Option.some.injEq] at hs
      obtain ⟨-, rfl⟩ := hs
      exact fun w hw hatomic o ho => (h w hw hatomic o ho).mono (n.grows_serve i f)
  | arrive i k =>
      simp only [netStep, Option.map_eq_some_iff] at hs
      obtain ⟨t, ht, rfl⟩ := hs
      have halone : OneAttempt n.client (.sockData i (n.chunk i k)) := trivial
      exact h.next ((hinv.base halone ht _).grows hreceived) (step_ledger opts hinv.waiters ht)
        (awards_of_step hinv hq (discerns_sockData n.client i _) (by simp) ht)

theorem Queueing.netStep (hq : n.client.Queueing opts) (hinv : n.Inv opts)
    (hs : netStep opts n a = some n') : n'.client.Queueing opts := by
  cases a with
  | client b =>
      simp only [NodeTcp.netStep, Option.ite_none_left_eq_some, Option.map_eq_some_iff] at hs
      obtain ⟨-, t, ht, rfl⟩ := hs
      exact hq.step hinv.waiters ht
  | serve i f =>
      simp only [NodeTcp.netStep, Option.ite_none_right_eq_some, Option.some.injEq] at hs
      obtain ⟨-, rfl⟩ := hs
      exact hq
  | arrive i k =>
      simp only [NodeTcp.netStep, Option.map_eq_some_iff] at hs
      obtain ⟨t, ht, rfl⟩ := hs
      exact hq.step hinv.waiters ht

/-- What an atomic operation reports as unsupported is the answer to it. -/
theorem Explains.refused {o : Settlement} {m : String} (h : n.Explains w o)
    (hw : WaiterInv n.client)
    (herr : atomicError (n.client.waiters w).request o = some (.ditto "UnsupportedRequest" m)) :
    n.Refused w := by
  rcases h with ⟨e, rfl, hnot⟩ | ⟨frame, p, rfl, hanswers⟩
  · rw [(reported_of_rejected herr).2] at hnot
    cases hnot
  · have hframe : frame = (n.client.waiters w).request := by
      obtain ⟨i, j, d, -, -, -, hx⟩ := hanswers
      exact hw.frames _ (List.mem_of_mem_filter (List.mem_of_getElem? hx))
    subst hframe
    refine ⟨p, hanswers, ?_⟩
    unfold settlementOf at herr
    split at herr
    · next e hdecode => exact Or.inl ⟨e, hdecode⟩
    · next r hdecode => exact Or.inr ⟨r, hdecode, (declines_of_resolved herr).2⟩

end Explaining

end Net

/-- The client reports an atomic operation as unsupported on the answer to it alone. -/
theorem never_guesses : NeverGuesses opts (Attributable opts) := by
  intro n hreach
  have hinv : n.Inv opts ∧ n.client.Queueing opts ∧ n.Explained := by
    refine hreach.invariant (I := fun n => n.Inv opts ∧ n.client.Queueing opts ∧ n.Explained)
      ⟨Net.inv_init, queueing_init, Net.explained_init⟩ fun n a n' h ha hs => ?_
    obtain ⟨hinv, hq, hexplained⟩ := h
    exact ⟨(hinv.next ha.1 hs).1, Net.Queueing.netStep hq hinv hs,
      hexplained.step hinv hq ha hs⟩
  obtain ⟨hinv, -, hexplained⟩ := hinv
  refine ⟨fun w hw o ho m herr => ?_, fun req e m he herr => ?_⟩
  · have hatomic : isAtomic (n.client.waiters w).request = true := by
      cases o with
      | rejected e => exact (reported_of_rejected herr).1
      | resolved r => exact (declines_of_resolved herr).1
    exact (hexplained w hw hatomic o ho).refused hinv.waiters herr
  · have hnot := sendError_not_reported he
    rw [(reported_of_rejected herr).2] at hnot
    cases hnot

/-- An atomic operation of the Node.js, Go, Rust and Java clients is reported as unsupported only if
the answer to it was received and refuses it, in every run whose steps keep an error of another
origin from being taken for a refusal. -/
theorem unsupported_on_answer {φ : Type} :
    (∀ opts, NeverGuesses opts (Attributable opts)) ∧
    (∀ authToken autoReconnect maxFrameBytes validate (text : Failure φ → String),
      LockStep.NeverGuesses
        (Go.Attributable text
          (Go.settings authToken autoReconnect maxFrameBytes validate text))
        (Go.call (Go.settings authToken autoReconnect maxFrameBytes validate text))
        goDialect.decodeResponse) ∧
    (∀ overflowChecks authToken autoReconnect maxFrameBytes validate
        (text : Failure (Rust.Fault φ) → String),
      LockStep.NeverGuesses
        (Rust.Attributable text
          (Rust.settings overflowChecks authToken autoReconnect maxFrameBytes validate text))
        (Rust.call
          (Rust.settings overflowChecks authToken autoReconnect maxFrameBytes validate text))
        (rustDialect overflowChecks).decodeResponse) ∧
    ∀ authToken autoReconnect validate (text : Failure φ → String),
      LockStep.NeverGuesses
        (Java.Attributable (Java.settings authToken autoReconnect validate text))
        (Java.call (Java.settings authToken autoReconnect validate text))
        javaDialect.decodeResponse :=
  ⟨never_guesses, Go.never_guesses, Rust.never_guesses, Java.never_guesses⟩

section Lost

/-- Attempts to connect do not overlap, and the server sends nothing. -/
def Silent (n : Net) : NetAction → Prop
  | .client a => OneAttempt n.client a
  | _ => False

instance (n : Net) (a : NetAction) : Decidable (Silent n a) :=
  match a with
  | .client b => inferInstanceAs (Decidable (OneAttempt n.client b))
  | .serve _ _ => isFalse id
  | .arrive _ _ => isFalse id

theorem serves_silent (n : Net) (a : NetAction) (h : Silent n a) :
    Serves Options.defaults Recognised n a := by
  cases a with
  | client a => exact ⟨h, fun t _ _ => Or.inl rfl⟩
  | serve i f => cases h
  | arrive i k => cases h

/-- An INCR whose connection is reset is reported as unsupported, though nothing was received. -/
theorem lost_reported_unsupported :
    ¬ NeverGuesses Options.defaults (Serves Options.defaults Recognised) := by
  obtain ⟨n, hrun, hnext, hrequest, hout, hsent⟩ : ∃ n,
      exec (netStep Options.defaults) Silent Net.init
        [.client (.connect true), .client (.sockConnected 0), .client (.resume 0),
          .client (.resume 0), .client (.request (.incr "k" none none none)),
          .client (.sockError 0 (.error "read ECONNRESET"))] = some n ∧
      n.client.nextWaiter = 1 ∧ (n.client.waiters 0).request = .incr "k" none none none ∧
      (n.client.waiters 0).outcomes = [.rejected (lostErr (.error "read ECONNRESET"))] ∧
        n.sent = fun _ => [] := ⟨_, rfl, rfl, rfl, rfl, rfl⟩
  have htaken : takenForUnsupported
      ("Connection lost before response was received: " ++ "read ECONNRESET") = true :=
    Text.containsAny_of_mem (by decide : "econnreset" ∈ unsupportedTexts)
      (Text.append_contains (by decide) _)
  have herr : atomicError (.incr "k" none none none)
      (.rejected (lostErr (.error "read ECONNRESET"))) =
        some (unsupportedAtomicOperationError "INCR") := by
    simp only [atomicError, incr, atomic, lostErr, Err.message, normalizeAtomicUnsupportedError,
      htaken, if_true]
  intro h
  obtain ⟨p, ⟨i, j, d, hp, -⟩, -⟩ := (h n ⟨_, (run_of_exec hrun).mono serves_silent⟩).1 0
    (by omega) _ (by rw [hout]; exact List.mem_singleton_self _) _ (by rw [hrequest]; exact herr)
  rw [hsent] at hp
  cases hp

end Lost

end NodeTcp

end DittoClient
