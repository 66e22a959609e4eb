import DittoClient.NodeTcp.Engaged
import DittoClient.NodeTcp.Service

/-!
# Answers and the requests they are given to

The client matches the frames of a connection with the requests by their position alone: what is
in flight are the requests that were written on the connection and that no answer was consumed for
(`Net.Live`), behind the frames that were consumed already. The position is kept as long as the
client takes nothing but answers for answers. A pushed watch event with a version that is not a safe
integer is taken for one, since it cannot be decoded.
-/

namespace DittoClient

namespace NodeTcp

open DittoClient.LockStep
open DittoClient.Octets
open DittoClient.Wire
open DittoClient.Transition

variable (opts : Options)

/-- A waiter was given what a payload holds, unless its timeout came first. -/
def State.Given (s : State) (w : ℕ) (p : Payload) : Prop :=
  (s.waiters w).outcomes = [settlementOf p.bytes] ∨
    (s.waiters w).outcomes = [.rejected (timeoutErr opts)]

/-- The frames that were received on a connection are the first ones that were sent. The answer
number `k` among them went to the request number `k` that was written, and no pushed frame went to
a request. -/
structure Net.Pairs (n : Net) (i : ℕ) : Prop where
  payloads : (n.client.receivedOn i).map Delivery.payload <+:
    (n.sent i).map fun f => f.payload.bytes
  reply : ∀ j p d, (n.sent i)[j]? = some (.reply p) → (n.client.receivedOn i)[j]? = some d →
    ∃ x, (n.client.writtenOn i)[(replies ((n.sent i).take j)).length]? = some x ∧
      d.waiter = some x.waiter ∧ n.client.Given opts x.waiter p
  push : ∀ (j : ℕ) (p : Payload) (d : Delivery), (n.sent i)[j]? = some (.push p) →
    (n.client.receivedOn i)[j]? = some d → d.waiter = none

/-- A step delivers at most one frame of a connection. An answer takes the waiter at the front and
leaves the others alone, and a pushed frame leaves all of them alone. -/
structure Net.HandsOver (n n' : Net) (i : ℕ) : Prop where
  one : n'.client.receivedOn i = n.client.receivedOn i ∨
    ∃ d, n'.client.receivedOn i = n.client.receivedOn i ++ [d]
  reply : ∀ p d, (n.sent i)[(n.client.receivedOn i).length]? = some (.reply p) →
    n'.client.receivedOn i = n.client.receivedOn i ++ [d] →
      ∃ w, d.waiter = some w ∧ n.client.inflight = w :: n'.client.inflight ∧
        ∀ v, v ≠ w → n'.client.waiters v = n.client.waiters v
  push : ∀ p d, (n.sent i)[(n.client.receivedOn i).length]? = some (.push p) →
    n'.client.receivedOn i = n.client.receivedOn i ++ [d] →
      n'.client.inflight = n.client.inflight ∧ n'.client.waiters = n.client.waiters

/-- The answers are paired with the requests in every run under a condition. -/
def PairsReplies (C : Net → NetAction → Prop) : Prop :=
  ∀ n, Reachable (netStep opts) C Net.init n → ∀ i, n.Pairs opts i ∧
    ∀ a n', C n a → netStep opts n a = some n' → n.HandsOver n' i

/-- Attempts to connect do not overlap, and Auth is written while a socket is stored, or when no
socket will be stored any more. -/
def Undisturbed (s : State) (a : Action) : Prop :=
  OneAttempt s a ∧ ∀ t, a = .resume t → (s.tasks t).pc = .connected →
    opts.token? = none ∨ s.socket.isSome = true ∨ s.link.Idle

/-- The client is not disturbed, and the frames of the server are as `R` says. -/
def Serves (R : ServerFrame → Prop) (n : Net) : NetAction → Prop
  | .client a => Undisturbed opts n.client a
  | .serve _ f => R f
  | .arrive _ _ => True

theorem Action.not_ends_of_reads {a : Action} (h : a.reads = true) : a.ends = false := by
  cases a <;> first | rfl | cases h

section Requests

variable {opts} {s t : State} {a : Action}

/-- What a step that neither reads nor ends a connection adds to the requests in flight: what is
written on the stored socket, and an Auth that could not be written. -/
structure State.Extends (s t : State) (new : List Sent) (orphans : List ℕ) : Prop where
  wire : t.wire = s.wire ++ new
  sock : ∀ x ∈ new, s.socket = some x.sock
  inflight : t.inflight = s.inflight ++ (new.map Sent.waiter ++ orphans)
  recvBuf : t.recvBuf = s.recvBuf
  received : t.received = s.received

theorem State.Extends.of_inbox {new : List Sent} {orphans : List ℕ} (hwire : t.wire = s.wire ++ new)
    (hsock : ∀ x ∈ new, s.socket = some x.sock)
    (hinbox : t.inbox = { s.inbox with
      inflight := s.inflight ++ (new.map Sent.waiter ++ orphans) }) :
    s.Extends t new orphans where
  wire := hwire
  sock := hsock
  inflight := congrArg Inbox.inflight hinbox
  recvBuf := congrArg Inbox.recvBuf hinbox
  received := congrArg Inbox.received hinbox

theorem Ledger.extends (hs : Ledger opts s a t) (hread : a.reads = false) (hends : a.ends = false) :
    ∃ new orphans, s.Extends t new orphans ∧ (orphans ≠ [] → ∃ k token, a = .resume k ∧
      (s.tasks k).pc = .connected ∧ opts.token? = some token ∧ s.socket = none) := by
  have hsame : t.wire = s.wire → t.inbox = s.inbox → s.Extends t [] [] := fun hwire hinbox =>
    .of_inbox (by simpa using hwire) (fun x hx => by cases hx) (by
      rw [hinbox]
      simp [State.inbox])
  cases hs with
  | kept _ hset hinbox => exact ⟨[], [], hsame hset.wire hinbox, fun h => absurd rfl h⟩
  | lost ha _ _ =>
      rw [hends] at ha
      cases ha
  | read ha _ =>
      rw [hread] at ha
      cases ha
  | queued _ _ _ _ _ _ hwire hinbox => exact ⟨[], [], hsame hwire hinbox, fun h => absurd rfl h⟩
  | @sent a t i owner req _ hsocket _ _ hwire hinbox =>
      refine ⟨_, [], .of_inbox hwire (fun x hx => ?_) hinbox, fun h => absurd rfl h⟩
      rw [List.mem_singleton.mp hx]
      exact hsocket
  | @unsent k t token hpc htoken hsocket _ _ hwire hinbox =>
      exact ⟨[], [s.nextWaiter], .of_inbox (by simpa using hwire) (fun x hx => by cases hx) hinbox,
        fun _ => ⟨k, token, rfl, hpc, htoken, hsocket⟩⟩
  | @flushed k i t _ hsocket _ _ hwire hinbox =>
      refine ⟨_, [], .of_inbox hwire (fun x hx => ?_) ?_, fun h => absurd rfl h⟩
      · obtain ⟨w, -, rfl⟩ := List.mem_map.mp hx
        exact hsocket
      · rw [hinbox]
        simp [Function.comp_def]

/-- What was written stays, and more is written on the stored socket alone. -/
theorem Ledger.wire_append (hs : Ledger opts s a t) :
    ∃ new, t.wire = s.wire ++ new ∧ ∀ x ∈ new, s.socket = some x.sock := by
  have hsame : t.wire = s.wire → ∃ new, t.wire = s.wire ++ new ∧
      ∀ x ∈ new, s.socket = some x.sock := fun hwire =>
    ⟨[], by simpa using hwire, fun x hx => by cases hx⟩
  cases hs with
  | kept _ hset _ => exact hsame hset.wire
  | lost _ hset _ => exact hsame hset.wire
  | read _ hset => exact hsame hset.wire
  | queued _ _ _ _ _ _ hwire _ => exact hsame hwire
  | sent _ hsocket _ _ hwire _ =>
      refine ⟨_, hwire, fun x hx => ?_⟩
      rw [List.mem_singleton.mp hx]
      exact hsocket
  | unsent _ _ _ _ _ hwire _ => exact hsame hwire
  | flushed _ hsocket _ _ hwire _ =>
      refine ⟨_, hwire, fun x hx => ?_⟩
      obtain ⟨w, -, rfl⟩ := List.mem_map.mp hx
      exact hsocket

theorem writtenOn_append {new : List Sent} (h : t.wire = s.wire ++ new) (i : ℕ) :
    t.writtenOn i = s.writtenOn i ++ new.filter fun x => decide (x.sock = i) := by
  rw [State.writtenOn, h, List.filter_append]
  rfl

theorem writtenOn_lt (h : WaiterInv s) {i : ℕ} {x : Sent} (hx : x ∈ s.writtenOn i) :
    x.waiter < s.nextWaiter :=
  (h.written x (List.mem_of_mem_filter hx)).1

/-- Frames for one socket are the frames for this socket, and for no other. -/
theorem filter_sock {new : List Sent} {j : ℕ} (h : ∀ x ∈ new, x.sock = j) (i : ℕ) :
    new.filter (fun x => decide (x.sock = i)) = if i = j then new else [] := by
  split
  · next hij =>
      refine List.filter_eq_self.mpr fun x hx => ?_
      simp [h x hx, hij]
  · next hij =>
      refine List.filter_eq_nil_iff.mpr fun x hx => ?_
      simpa [h x hx] using fun he : j = i => hij he.symm

/-- What a waiter was given, it keeps. -/
theorem State.Awards.kept {P : ℕ → Settlement → Prop} (h : s.Awards t P) (hs : WaiterInv s) {w : ℕ}
    (hw : w < s.nextWaiter) (hgiven : (s.waiters w).outcomes ≠ []) :
    (t.waiters w).outcomes = (s.waiters w).outcomes := by
  rcases h w hw with hsame | ⟨hopen, -⟩
  · exact hsame
  · exact absurd ((hs.sound w).unsettled hopen) hgiven

theorem State.Given.step (hs : WaiterInv s) (hstep : step opts s a = some t) {w : ℕ}
    (hw : w < s.nextWaiter) {p : Payload} (h : s.Given opts w p) : t.Given opts w p := by
  have hgiven : (s.waiters w).outcomes ≠ [] := by
    rcases h with h | h
    · rw [h]
      simp
    · rw [h]
      simp
  unfold State.Given
  rw [(step_awards opts hs hstep).kept hs hw hgiven]
  exact h

/-- A waiter in flight was given nothing, unless its timeout came. -/
def State.Pending (opts : Options) (s : State) : Prop :=
  ∀ w ∈ s.inflight, (s.waiters w).outcomes = [] ∨
    (s.waiters w).outcomes = [.rejected (timeoutErr opts)]

/-- A step other than a round of `onData` gives nothing but its timeout to a waiter that is in
flight afterwards. -/
theorem State.Pending.step (h : s.Pending opts) (hw : WaiterInv s) (hs : step opts s a = some t)
    (ha : a ≠ .round) : t.Pending opts := by
  intro w hin
  have hledger := step_ledger opts hw hs
  have hset : s.Settles t → (∀ e, a.loss = some e → s.socket = none) →
      (t.waiters w).outcomes = [] ∨ (t.waiters w).outcomes = [.rejected (timeoutErr opts)] := by
    intro hset hends
    have hold := hset.inflight.subset hin
    rcases step_awards opts hw hs w (hw.bound w (List.mem_append_left _ hold)) with
      hsame | ⟨-, o, hcause, hout⟩
    · rw [hsame]
      exact h w hold
    · cases hcause with
      | timeout => exact Or.inr hout
      | replied _ _ _ => exact absurd rfl ha
      | lost hloss hsome _ =>
          rw [hends _ hloss] at hsome
          cases hsome
      | drained hq _ => exact absurd hq (List.nodup_append'.mp hw.nodup |>.2.2 hold)
  have hadds : ∀ {owner : Owner} {req : Request}, s.Adds t owner req →
      (w ∈ s.inflight ∨ w = s.nextWaiter) →
      (t.waiters w).outcomes = [] ∨ (t.waiters w).outcomes = [.rejected (timeoutErr opts)] := by
    rintro owner req hadd (hold | rfl)
    · rw [hadd.others w (Nat.ne_of_lt (hw.bound w (List.mem_append_left _ hold)))]
      exact h w hold
    · exact Or.inl hadd.outcomes
  cases hledger with
  | kept hends hst _ =>
      refine hset hst fun e he => ?_
      rw [Action.ends_of_loss he] at hends
      cases hends
  | lost _ hst hinbox =>
      refine hset hst fun e he => ?_
      have hflight : t.inflight = if s.socket.isSome then [] else s.inflight :=
        congrArg Inbox.inflight hinbox
      rcases Option.eq_none_or_eq_some s.socket with hnone | ⟨i, hi⟩
      · exact hnone
      · rw [hflight, hi] at hin
        cases hin
  | read hreads hst =>
      refine hset hst fun e he => ?_
      have hends := Action.ends_of_loss he
      rw [Action.not_ends_of_reads hreads] at hends
      cases hends
  | queued _ _ _ _ hadd _ _ hinbox =>
      have hflight : t.inflight = s.inflight := congrArg Inbox.inflight hinbox
      exact hadds hadd (Or.inl (hflight ▸ hin))
  | sent _ _ hadd _ _ hinbox =>
      have hflight : t.inflight = s.inflight ++ [s.nextWaiter] := congrArg Inbox.inflight hinbox
      rw [hflight] at hin
      exact hadds hadd ((List.mem_append.mp hin).imp_right List.mem_singleton.mp)
  | unsent _ _ _ hadd _ _ hinbox =>
      have hflight : t.inflight = s.inflight ++ [s.nextWaiter] := congrArg Inbox.inflight hinbox
      rw [hflight] at hin
      exact hadds hadd ((List.mem_append.mp hin).imp_right List.mem_singleton.mp)
  | flushed _ _ hknows _ _ hinbox =>
      have hflight : t.inflight = s.inflight ++ s.offlineQueue := congrArg Inbox.inflight hinbox
      rw [hflight] at hin
      rw [hknows.outcomes]
      rcases List.mem_append.mp hin with hold | hq
      · exact h w hold
      · exact Or.inl ((hw.sound w).unsettled (hw.queued w hq).2.1)

end Requests

section Streams

/-- A frame that is cut off bytes of a stream of frames is the first one of the stream. -/
theorem cutFrame_frames {maxFrameBytes : ℕ} {bs payload rest : List UInt8} {ps : List Payload}
    (h : cutFrame maxFrameBytes bs = some (payload, rest)) (hbs : bs <+: frames ps) :
    ∃ p qs, ps = p :: qs ∧ payload = p.bytes ∧ bs = frame p ++ rest ∧ rest <+: frames qs := by
  simp only [cutFrame, Option.ite_none_left_eq_some] at h
  obtain ⟨hwhole, h⟩ := h
  cases h
  obtain ⟨more, hmore⟩ := hbs
  cases ps with
  | nil =>
      have hlength := congrArg List.length hmore
      simp only [frames_nil, List.length_append, List.length_nil] at hlength
      omega
  | cons p qs =>
      rw [frames_cons] at hmore
      have hheader : ofBigEndian (bs.take 4) = p.bytes.length := by
        rw [← ofBigEndian_take_frame p (frames qs), ← hmore,
          List.take_append_of_le_length (by omega)]
      rw [hheader] at hwhole ⊢
      have hfront : bs.take (4 + p.bytes.length) = frame p := by
        have htake := congrArg (List.take (4 + p.bytes.length)) hmore
        rw [List.take_append_of_le_length (by omega)] at htake
        rw [htake, ← length_frame, List.take_left]
      have hsplit : bs = frame p ++ bs.drop (4 + p.bytes.length) := by
        rw [← hfront, List.take_append_drop]
      refine ⟨p, qs, rfl, ?_, hsplit, more, ?_⟩
      · rw [hsplit, drop_frame, List.take_left]
      · rw [hsplit, List.append_assoc] at hmore
        exact List.append_cancel_left hmore

end Streams

section Invariant

namespace Net

/-- The bytes and the requests that are under way on a connection. The buffer is the front of what
was sent behind the frames that were received, and in flight are the requests behind the answers
that were received. -/
structure Live (n : Net) (i : ℕ) : Prop where
  arrived : n.arrived i =
    (frames (((n.sent i).take (n.client.receivedOn i).length).map ServerFrame.payload)).length +
      n.client.recvBuf.length
  buffered : n.client.recvBuf <+:
    frames (((n.sent i).drop (n.client.receivedOn i).length).map ServerFrame.payload)
  waiting : ∃ orphans, n.client.inflight =
      ((n.client.writtenOn i).drop
        (replies ((n.sent i).take (n.client.receivedOn i).length)).length).map Sent.waiter ++
          orphans ∧
    (orphans ≠ [] → n.client.link.Over)

/-- What holds in every run of a client that is not disturbed. -/
structure Inv (n : Net) : Prop where
  waiters : WaiterInv n.client
  lifecycle : ∃ st, Lifecycle n.client.link st
  sound : n.client.link.Sound
  pending : n.client.Pending opts
  parsing : ∀ p, n.client.parsing = some p → (n.client.socks p).phase = .connected
  pairs : ∀ i, n.Pairs opts i
  recognised : ∀ i, ∀ f ∈ n.sent i, Recognised f
  answered : ∀ i, (replies (n.sent i)).length ≤ (n.client.writtenOn i).length
  live : ∀ i, n.client.link.Engaged i → n.Live i
  rest : (∀ i, ¬ n.client.link.Engaged i) →
    n.client.recvBuf = [] ∧ n.client.inflight = [] ∨ n.client.link.Over
  fresh : ∀ i, n.client.link.Fresh i →
    n.client.writtenOn i = [] ∧ n.client.receivedOn i = [] ∧ n.arrived i = 0

/-- What a step of the client keeps, whatever it does to the connection. -/
structure Base (n n' : Net) : Prop where
  waiters : WaiterInv n'.client
  lifecycle : ∃ st, Lifecycle n'.client.link st
  sound : n'.client.link.Sound
  parsing : ∀ p, n'.client.parsing = some p → (n'.client.socks p).phase = .connected
  sent : n'.sent = n.sent
  written : ∃ new, n'.client.wire = n.client.wire ++ new ∧
    ∀ x ∈ new, n.client.socket = some x.sock
  given : ∀ w < n.client.nextWaiter, ∀ p, n.client.Given opts w p → n'.client.Given opts w p

variable {opts} {n n' : Net} {i : ℕ}

theorem Pairs.length_le (h : n.Pairs opts i) :
    (n.client.receivedOn i).length ≤ (n.sent i).length := by
  simpa using h.payloads.length_le

/-- The pairs stay when more is sent or written. -/
theorem Pairs.mono (h : n.Pairs opts i) {fs : List ServerFrame} {new : List Sent}
    (hsent : n'.sent i = n.sent i ++ fs)
    (hreceived : n'.client.receivedOn i = n.client.receivedOn i)
    (hwritten : n'.client.writtenOn i = n.client.writtenOn i ++ new)
    (hgiven : ∀ x ∈ n.client.writtenOn i, ∀ p, n.client.Given opts x.waiter p →
      n'.client.Given opts x.waiter p) : n'.Pairs opts i := by
  have hold : ∀ {j : ℕ} {d : Delivery}, (n.client.receivedOn i)[j]? = some d →
      (n.sent i ++ fs)[j]? = (n.sent i)[j]? ∧ (n.sent i ++ fs).take j = (n.sent i).take j := by
    intro j d hd
    have hlt := (List.getElem?_eq_some_iff.mp hd).1.trans_le h.length_le
    exact ⟨List.getElem?_append_left hlt, List.take_append_of_le_length hlt.le⟩
  refine ⟨?_, fun j p d hp hd => ?_, fun j p d hp hd => ?_⟩
  · rw [hreceived, hsent, List.map_append]
    exact h.payloads.trans (List.prefix_append _ _)
  · rw [hreceived] at hd
    rw [hsent, (hold hd).1] at hp
    obtain ⟨x, hx, hwaiter, hset⟩ := h.reply j p d hp hd
    obtain ⟨hlt, hget⟩ := List.getElem?_eq_some_iff.mp hx
    refine ⟨x, ?_, hwaiter, hgiven x (hget ▸ List.getElem_mem hlt) p hset⟩
    rw [hsent, (hold hd).2, hwritten, List.getElem?_append_left hlt, hx]
  · rw [hreceived] at hd
    rw [hsent, (hold hd).1] at hp
    exact h.push j p d hp hd

/-- One more frame is received. -/
theorem Pairs.delivered (h : n.Pairs opts i) {f : ServerFrame} {d : Delivery}
    (hf : (n.sent i)[(n.client.receivedOn i).length]? = some f) (hsent : n'.sent i = n.sent i)
    (hreceived : n'.client.receivedOn i = n.client.receivedOn i ++ [d])
    (hpayload : d.payload = f.payload.bytes)
    (hwritten : n'.client.writtenOn i = n.client.writtenOn i)
    (hgiven : ∀ x ∈ n.client.writtenOn i, ∀ p, n.client.Given opts x.waiter p →
      n'.client.Given opts x.waiter p)
    (hreply : ∀ p, f = .reply p → ∃ x, (n.client.writtenOn i)[(replies ((n.sent i).take
      (n.client.receivedOn i).length)).length]? = some x ∧ d.waiter = some x.waiter ∧
        n'.client.Given opts x.waiter p)
    (hpush : ∀ p, f = .push p → d.waiter = none) : n'.Pairs opts i := by
  obtain ⟨hlt, hget⟩ := List.getElem?_eq_some_iff.mp hf
  have hcases : ∀ {j : ℕ} {e : Delivery}, (n.client.receivedOn i ++ [d])[j]? = some e →
      (n.client.receivedOn i)[j]? = some e ∨ j = (n.client.receivedOn i).length ∧ e = d := by
    intro j e he
    rcases Nat.lt_or_ge j (n.client.receivedOn i).length with hj | hj
    · rw [List.getElem?_append_left hj] at he
      exact Or.inl he
    · obtain ⟨hle, -⟩ := List.getElem?_eq_some_iff.mp he
      rw [List.length_append, List.length_singleton] at hle
      obtain rfl : j = (n.client.receivedOn i).length := by omega
      rw [List.getElem?_concat_length] at he
      exact Or.inr ⟨rfl, (Option.some.inj he).symm⟩
  refine ⟨?_, fun j p e hp he => ?_, fun j p e hp he => ?_⟩
  · obtain ⟨more, hmore⟩ := h.payloads
    rw [hreceived, hsent, List.map_append, List.map_singleton, hpayload]
    have htake : (n.client.receivedOn i).map Delivery.payload =
        ((n.sent i).take (n.client.receivedOn i).length).map fun f => f.payload.bytes := by
      have hcut := congrArg (List.take (n.client.receivedOn i).length) hmore
      rw [List.take_append_of_le_length (by simp), List.take_of_length_le (by simp)] at hcut
      rw [hcut, List.map_take]
    have hnext : (n.sent i).take (n.client.receivedOn i).length ++ [f] =
        (n.sent i).take ((n.client.receivedOn i).length + 1) := by
      rw [List.take_succ_eq_append_getElem hlt, hget]
    have hlast : [f.payload.bytes] = [f].map fun f => f.payload.bytes := rfl
    rw [htake, hlast, ← List.map_append, hnext, List.map_take]
    exact List.take_prefix _ _
  · rw [hreceived] at he
    rw [hsent] at hp ⊢
    rw [hwritten]
    rcases hcases he with hold | ⟨rfl, rfl⟩
    · obtain ⟨x, hx, hwaiter, hset⟩ := h.reply j p e hp hold
      obtain ⟨hlt, hget⟩ := List.getElem?_eq_some_iff.mp hx
      exact ⟨x, hx, hwaiter, hgiven x (hget ▸ List.getElem_mem hlt) p hset⟩
    · rw [hf] at hp
      exact hreply p (Option.some.inj hp)
  · rw [hreceived] at he
    rw [hsent] at hp
    rcases hcases he with hold | ⟨rfl, rfl⟩
    · exact h.push j p e hp hold
    · rw [hf] at hp
      exact hpush p (Option.some.inj hp)

theorem inv_init : Net.init.Inv opts where
  waiters := waiterInv_init
  lifecycle := ⟨.rest, lifecycle_init⟩
  sound := ⟨fun i h => (by cases h), fun h => (by cases h), fun h => (by cases h)⟩
  pending w h := by cases h
  parsing p h := by cases h
  pairs i := ⟨List.nil_prefix, fun j p d _ h => (by cases h), fun j p d _ h => (by cases h)⟩
  recognised i f h := by cases h
  answered i := Nat.zero_le _
  live i h := by
    rcases h with h | h
    · cases h
    · cases h
  rest _ := Or.inl ⟨rfl, rfl⟩
  fresh i _ := ⟨rfl, rfl, rfl⟩

/-- The server sends one more frame. -/
theorem Inv.serve (h : n.Inv opts) {f : ServerFrame} (hf : Recognised f)
    (hreply : f.reply?.isSome = true →
      (replies (n.sent i)).length < (n.client.writtenOn i).length) : (n.serve i f).Inv opts := by
  refine ⟨h.waiters, h.lifecycle, h.sound, h.pending, h.parsing, fun j => ?_, fun j g hg => ?_,
    fun j => ?_, fun j hj => ?_, h.rest, h.fresh⟩
  · exact (h.pairs j).mono (n.serve_sent i f j) rfl (List.append_nil _).symm fun x _ p hp => hp
  · rw [serve_sent] at hg
    rcases List.mem_append.mp hg with hg | hg
    · exact h.recognised j g hg
    · split at hg
      · rw [List.mem_singleton.mp hg]
        exact hf
      · cases hg
  · rw [serve_sent, serve_client, replies_append, List.length_append]
    split
    · next hj =>
        subst hj
        cases f with
        | push p => exact h.answered j
        | reply p => exact hreply rfl
    · exact h.answered j
  · have hlive := h.live j hj
    have hle := (h.pairs j).length_le
    refine ⟨?_, ?_, ?_⟩
    · rw [serve_sent, serve_client, serve_arrived, List.take_append_of_le_length hle]
      exact hlive.arrived
    · rw [serve_sent, serve_client, List.drop_append_of_le_length hle, List.map_append,
        frames_append]
      exact hlive.buffered.trans (List.prefix_append _ _)
    · rw [serve_sent, serve_client, List.take_append_of_le_length hle]
      exact hlive.waiting

theorem Inv.base (h : n.Inv opts) {a : Action} (ha : OneAttempt n.client a) {t : State}
    (hs : step opts n.client a = some t) (arrived : ℕ → ℕ) :
    n.Base opts { n with client := t, arrived := arrived } := by
  obtain ⟨st, hst⟩ := h.lifecycle
  have hlink := step_link opts hs
  exact {
    waiters := step_waiterInv opts h.waiters hs
    lifecycle := hst.next hlink ha
    sound := hlink.sound h.sound
    parsing := fun p hp => step_parsing_connected opts hst h.waiters h.parsing hs hp
    sent := rfl
    written := (step_ledger opts h.waiters hs).wire_append
    given := fun w hw p hp => hp.step h.waiters hs hw }

theorem Base.written_append (hb : n.Base opts n') (j : ℕ) :
    ∃ new, n'.client.writtenOn j = n.client.writtenOn j ++ new :=
  hb.written.elim fun _ hwire => ⟨_, writtenOn_append hwire.1 j⟩

theorem Base.pairs (hb : n.Base opts n') (h : n.Inv opts)
    (hreceived : n'.client.receivedOn i = n.client.receivedOn i) : n'.Pairs opts i := by
  obtain ⟨new, hnew⟩ := hb.written_append i
  have hsent : n'.sent i = n.sent i ++ [] := by rw [hb.sent, List.append_nil]
  exact (h.pairs i).mono hsent hreceived hnew fun x hx p hp =>
    hb.given _ (writtenOn_lt h.waiters hx) p hp

theorem Base.recognised (hb : n.Base opts n') (h : n.Inv opts) :
    ∀ j, ∀ f ∈ n'.sent j, Recognised f := by
  rw [hb.sent]
  exact h.recognised

theorem Base.answered (hb : n.Base opts n') (h : n.Inv opts) (j : ℕ) :
    (replies (n'.sent j)).length ≤ (n'.client.writtenOn j).length := by
  obtain ⟨new, hnew⟩ := hb.written_append j
  rw [hb.sent, hnew, List.length_append]
  exact Nat.le_add_right_of_le (h.answered j)

/-- What is written on a socket that is not connected yet is nothing. -/
theorem Base.fresh (hb : n.Base opts n') (h : n.Inv opts) (hfresh : n.client.link.Fresh i) :
    n'.client.writtenOn i = [] := by
  obtain ⟨st, hst⟩ := h.lifecycle
  obtain ⟨new, hwire, hsock⟩ := hb.written
  have hnot : ∀ x ∈ new, ¬ decide (x.sock = i) = true := fun x hx he =>
    hst.not_engaged_of_fresh h.sound hfresh (Or.inl ((of_decide_eq_true he) ▸ hsock x hx))
  rw [writtenOn_append hwire, (h.fresh i hfresh).1, List.filter_eq_nil_iff.mpr hnot]
  rfl

/-- No socket that is used is stored. -/
theorem Inv.over (h : n.Inv opts) (he : n.client.link.Engaged i) (hnone : n.client.socket = none) :
    n.client.link.Over :=
  h.lifecycle.elim fun _ hst => hst.over_of_engaged he hnone

/-- The queue of the requests in flight when more is written on a connection. -/
theorem Live.extends (hl : n.Live i) (h : n.Inv opts) {t : State} {new : List Sent}
    {orphans : List ℕ} (hext : n.client.Extends t new orphans) (he : n.client.link.Engaged i)
    (hover : n.client.link.Over → t.link.Over) (horphans : orphans ≠ [] → n.client.link.Over) :
    { n with client := t }.Live i := by
  obtain ⟨st, hst⟩ := h.lifecycle
  have hreceived : t.receivedOn i = n.client.receivedOn i := by
    rw [State.receivedOn, hext.received]
    rfl
  obtain ⟨old, hold, holdover⟩ := hl.waiting
  have hle : (replies ((n.sent i).take (n.client.receivedOn i).length)).length ≤
      (n.client.writtenOn i).length :=
    (length_replies_take_le _ _).trans (h.answered i)
  refine ⟨?_, ?_, ?_⟩
  · change n.arrived i = _
    rw [hreceived, hext.recvBuf]
    exact hl.arrived
  · rw [hreceived, hext.recvBuf]
    exact hl.buffered
  · rw [hreceived, writtenOn_append hext.wire]
    cases new with
    | nil =>
        refine ⟨old ++ orphans, ?_, fun hne => hover ?_⟩
        · rw [hext.inflight, hold]
          simp
        · by_cases hnil : old = []
          · exact horphans fun he => hne (by rw [hnil, he, List.append_nil])
          · exact holdover hnil
    | cons x xs =>
        have hsocket := hext.sock x List.mem_cons_self
        have hnil : ∀ {ws : List ℕ}, (ws ≠ [] → n.client.link.Over) → ws = [] := by
          intro ws hws
          by_contra hne
          cases hsocket.symm.trans (hws hne).socket
        have hsame : ∀ y ∈ x :: xs, y.sock = i := fun y hy =>
          hst.engaged_unique (Or.inl (hext.sock y hy)) he
        refine ⟨[], ?_, fun hne => absurd rfl hne⟩
        rw [hext.inflight, hold, hnil holdover, hnil horphans, filter_sock hsame, if_pos rfl,
          List.drop_append_of_le_length hle]
        simp

theorem over_of_lost {a : Action} (ha : Undisturbed opts n.client a)
    (hlost : ∃ k token, a = .resume k ∧ (n.client.tasks k).pc = .connected ∧
      opts.token? = some token ∧ n.client.socket = none) : n.client.link.Over := by
  obtain ⟨k, token, hk, hpc, htoken, hnone⟩ := hlost
  rcases ha.2 k hk hpc with hnot | hsome | hidle
  · cases htoken.symm.trans hnot
  · rw [hnone] at hsome
    cases hsome
  · exact ⟨hidle, hnone⟩

/-- A connection that begins. -/
theorem Inv.begun (h : n.Inv opts) {t : State} (hs : step opts n.client (.sockConnected i) = some t) :
    { n with client := t }.Live i := by
  obtain ⟨st, hst⟩ := h.lifecycle
  have hledger := step_ledger opts h.waiters hs
  obtain ⟨-, hphase⟩ := idle_of_sockConnected opts hs
  obtain ⟨new, orphans, hext, hlost⟩ := hledger.extends rfl rfl
  obtain ⟨hwritten, hreceived, harrived⟩ := h.fresh i (Or.inl hphase)
  have hnone : ∀ j, ¬ n.client.link.Engaged j := fun j => hst.not_engaged_of_connecting hphase
  have hnew : new = [] := by
    cases new with
    | nil => rfl
    | cons x xs => exact absurd (Or.inl (hext.sock x List.mem_cons_self)) (hnone x.sock)
  have horphans : orphans = [] := by
    by_contra hne
    obtain ⟨k, -, hk, -⟩ := hlost hne
    cases hk
  subst hnew horphans
  rcases h.rest hnone with ⟨hbuf, hin⟩ | hover
  · have hreceived' : t.receivedOn i = [] := by
      rw [State.receivedOn, hext.received]
      exact hreceived
    have hwritten' : t.writtenOn i = [] := by
      rw [writtenOn_append hext.wire, hwritten]
      rfl
    have hbuf' : t.recvBuf = [] := hext.recvBuf.trans hbuf
    have hin' : t.inflight = [] := by
      rw [hext.inflight, hin]
      rfl
    refine ⟨?_, ?_, [], ?_, fun hne => absurd rfl hne⟩
    · rw [hreceived', hbuf']
      exact harrived
    · rw [hbuf']
      exact List.nil_prefix
    · rw [hin', hwritten']
      simp
  · exact absurd hphase (hst.not_connecting_of_idle hover.idle)

/-- When no connection is used after a step, nothing is under way, or the client is over. -/
theorem Inv.act_rest (h : n.Inv opts) {a : Action} (ha : Undisturbed opts n.client a) {t : State}
    (hs : step opts n.client a = some t) (hread : a.reads = false)
    (hnone : ∀ i, ¬ t.link.Engaged i) : t.recvBuf = [] ∧ t.inflight = [] ∨ t.link.Over := by
  obtain ⟨st, hst⟩ := h.lifecycle
  have hlink := step_link opts hs
  have hledger := step_ledger opts h.waiters hs
  have hover : n.client.link.Over → t.link.Over := hlink.over hst
  have hbefore : (∃ i, n.client.link.Engaged i) ∨
      (∀ i, ¬ n.client.link.Engaged i) ∧
        (n.client.recvBuf = [] ∧ n.client.inflight = [] ∨ n.client.link.Over) := by
    by_cases hex : ∃ i, n.client.link.Engaged i
    · exact Or.inl hex
    · exact Or.inr ⟨not_exists.mp hex, h.rest (not_exists.mp hex)⟩
  cases hends : a.ends with
  | true =>
      have hinbox := hledger.inbox_of_ends opts hends
      have hbuf : t.recvBuf = [] := congrArg Inbox.recvBuf hinbox
      have hin : t.inflight = if n.client.socket.isSome then [] else n.client.inflight :=
        congrArg Inbox.inflight hinbox
      rcases Option.eq_none_or_eq_some n.client.socket with hsocket | ⟨j, hj⟩
      · rw [hsocket] at hin
        rcases hbefore with ⟨i, hi⟩ | ⟨-, ⟨-, hold⟩ | hisover⟩
        · exact Or.inr (hover (h.over hi hsocket))
        · exact Or.inl ⟨hbuf, hin.trans hold⟩
        · exact Or.inr (hover hisover)
      · rw [hj] at hin
        exact Or.inl ⟨hbuf, hin⟩
  | false =>
      rcases hbefore with ⟨i, hi⟩ | ⟨hrest, ⟨hbuf, hin⟩ | hisover⟩
      · exact Or.inr (hlink.disengaged hst hi (hnone i) hends)
      · obtain ⟨new, orphans, hext, hlost⟩ := hledger.extends hread hends
        have hnew : new = [] := by
          cases new with
          | nil => rfl
          | cons x xs => exact absurd (Or.inl (hext.sock x List.mem_cons_self)) (hrest x.sock)
        by_cases horphans : orphans = []
        · refine Or.inl ⟨hext.recvBuf.trans hbuf, ?_⟩
          rw [hext.inflight, hin, hnew, horphans]
          rfl
        · exact Or.inr (hover (over_of_lost ha (hlost horphans)))
      · exact Or.inr (hover hisover)

/-- A step of the client that does not read. -/
theorem Inv.act (h : n.Inv opts) {a : Action} (ha : Undisturbed opts n.client a) {t : State}
    (hs : step opts n.client a = some t) (hread : a.reads = false) :
    { n with client := t }.Inv opts := by
  obtain ⟨st, hst⟩ := h.lifecycle
  have hbase := h.base ha.1 hs n.arrived
  have hlink := step_link opts hs
  have hledger := step_ledger opts h.waiters hs
  have hreceived : ∀ i, t.receivedOn i = n.client.receivedOn i := fun i => by
    rw [State.receivedOn, (hledger.inbox_eq opts hread).1]
    rfl
  refine ⟨hbase.waiters, hbase.lifecycle, hbase.sound, h.pending.step h.waiters hs ?_,
    hbase.parsing, fun i => hbase.pairs h (hreceived i), hbase.recognised h, hbase.answered h,
    fun i he => ?_, h.act_rest ha hs hread, fun i hfresh => ?_⟩
  · rintro rfl
    cases hread
  · cases hends : a.ends with
    | true => exact absurd he ((disengaged_of_ends opts hst hs hends).2 i)
    | false =>
        obtain ⟨new, orphans, hext, hlost⟩ := hledger.extends hread hends
        rcases hlink.engaged he with hold | rfl
        · exact (h.live i hold).extends h hext hold (hlink.over hst) fun hne =>
            over_of_lost ha (hlost hne)
        · exact h.begun hs
  · have hold := hlink.fresh hfresh
    exact ⟨hbase.fresh h hold, (hreceived i).trans (h.fresh i hold).2.1, (h.fresh i hold).2.2⟩

/-- Where the bytes that have not arrived are. -/
theorem Live.inbound (hl : n.Live i) : (n.stream i).drop (n.arrived i) =
    (frames (((n.sent i).drop (n.client.receivedOn i).length).map ServerFrame.payload)).drop
      n.client.recvBuf.length := by
  have hdrop := drop_frames_take ((n.sent i).map ServerFrame.payload)
    (n.client.receivedOn i).length
  rw [← List.map_take, ← List.map_drop] at hdrop
  rw [← hdrop, List.drop_drop, hl.arrived]
  rfl

/-- A chunk arrives. -/
theorem Inv.arrive (h : n.Inv opts) {k : ℕ} {t : State}
    (hs : step opts n.client (.sockData i (n.chunk i k)) = some t) :
    (n.arrive i (n.chunk i k).length t).Inv opts := by
  obtain ⟨st, hst⟩ := h.lifecycle
  have halone : OneAttempt n.client (.sockData i (n.chunk i k)) := trivial
  have hbase := h.base halone hs
    (Function.update n.arrived i (n.arrived i + (n.chunk i k).length))
  have hpending := h.pending.step h.waiters hs (by simp)
  simp only [step, Option.ite_none_right_eq_some, Option.some.injEq] at hs
  obtain ⟨⟨-, hphase, -⟩, rfl⟩ := hs
  have hi : n.client.link.Engaged i := Or.inr hphase
  refine ⟨hbase.waiters, hbase.lifecycle, hbase.sound, hpending, hbase.parsing,
    fun j => hbase.pairs h rfl, hbase.recognised h, hbase.answered h, fun j hj => ?_,
    fun hnone => absurd hi (hnone i), fun j hj => ?_⟩
  · obtain rfl : j = i := hst.engaged_unique hj hi
    have hl := h.live j hi
    obtain ⟨more, hmore⟩ := hl.buffered
    have hchunk : n.chunk j k = more.take k := by
      rw [Net.chunk, hl.inbound, ← hmore, List.drop_left]
    refine ⟨?_, ?_, hl.waiting⟩
    · change Function.update n.arrived j (n.arrived j + (n.chunk j k).length) j = _ +
        (n.client.recvBuf ++ n.chunk j k).length
      rw [Function.update_self, hl.arrived, List.length_append, Nat.add_assoc]
      rfl
    · change n.client.recvBuf ++ n.chunk j k <+: _
      rw [hchunk]
      refine ⟨more.drop k, ?_⟩
      rw [List.append_assoc, List.take_append_drop, hmore]
      rfl
  · have hne : j ≠ i := fun he => hst.not_engaged_of_fresh h.sound hj (he ▸ hi)
    obtain ⟨hwritten, hreceived, harrived⟩ := h.fresh j hj
    refine ⟨hwritten, hreceived, ?_⟩
    change Function.update n.arrived i _ j = 0
    rw [Function.update_of_ne hne]
    exact harrived

/-- What becomes of the waiters when a frame is received: a pushed one leaves them alone, and an
answer is given to the request that was written at its position. -/
inductive Delivers (n : Net) (t : State) (i : ℕ) (d : Delivery) : ServerFrame → Prop
  | push (p : Payload) (hwaiter : d.waiter = none) (hin : t.inflight = n.client.inflight)
      (hwaiters : t.waiters = n.client.waiters) : Delivers n t i d (.push p)
  | reply {p : Payload} {x : Sent} (hx : (n.client.writtenOn i)[(replies ((n.sent i).take
        (n.client.receivedOn i).length)).length]? = some x)
      (hwaiter : d.waiter = some x.waiter) (hin : n.client.inflight = x.waiter :: t.inflight)
      (hwaiters : t.waiters = Function.update n.client.waiters x.waiter
        ((n.client.waiters x.waiter).finish (settlementOf p.bytes))) : Delivers n t i d (.reply p)

/-- The next frame of a connection is received. -/
structure Receives (n : Net) (t : State) (i : ℕ) (f : ServerFrame) (d : Delivery) : Prop where
  next : (n.sent i)[(n.client.receivedOn i).length]? = some f
  sock : d.sock = i
  payload : d.payload = f.payload.bytes
  received : t.received = n.client.received ++ [d]
  wire : t.wire = n.client.wire
  link : t.link = n.client.link
  recvBuf : n.client.recvBuf = frame f.payload ++ t.recvBuf
  buffered : t.recvBuf <+:
    frames (((n.sent i).drop ((n.client.receivedOn i).length + 1)).map ServerFrame.payload)
  delivers : n.Delivers t i d f

/-- The request that the next answer belongs to is at the front of the requests in flight. -/
theorem Inv.front (h : n.Inv opts) (he : n.client.link.Engaged i) {p : Payload}
    (hnext : (n.sent i)[(n.client.receivedOn i).length]? = some (.reply p)) :
    ∃ x ws, (n.client.writtenOn i)[(replies ((n.sent i).take
      (n.client.receivedOn i).length)).length]? = some x ∧ n.client.inflight = x.waiter :: ws := by
  have hcount := length_replies_take_succ hnext
  have hall := length_replies_take_le (n.sent i) ((n.client.receivedOn i).length + 1)
  have hlt : (replies ((n.sent i).take (n.client.receivedOn i).length)).length <
      (n.client.writtenOn i).length := by
    have hone : (ServerFrame.reply p).reply?.isSome = true := rfl
    rw [if_pos hone] at hcount
    have hanswered := h.answered i
    omega
  obtain ⟨orphans, hin, -⟩ := (h.live i he).waiting
  rw [List.drop_eq_getElem_cons hlt] at hin
  exact ⟨_, _, List.getElem?_eq_getElem hlt, hin⟩

/-- A round of `onData` receives the next frame of the connection, or leaves the requests and the
buffer as they are. -/
theorem Inv.round_cases (h : n.Inv opts) (hparsing : n.client.parsing = some i) :
    (∃ socks, onDataRound opts i n.client = { n.client with socks := socks, parsing := none }) ∨
      ∃ f d, n.Receives (onDataRound opts i n.client) i f d := by
  have he : n.client.link.Engaged i := Or.inr (h.parsing i hparsing)
  rcases onDataRound_cases opts hparsing with ⟨-, hround⟩ | ⟨payload, rest, hcut, hround⟩
  · obtain ⟨socks, hsettle⟩ := settleBuffer_eq opts n.client.recvBuf n.client
    exact Or.inl ⟨socks, hround.trans hsettle⟩
  · obtain ⟨p, qs, hps, rfl, hbuf, hrest⟩ := cutFrame_frames hcut (h.live i he).buffered
    cases hdrop : (n.sent i).drop (n.client.receivedOn i).length with
    | nil =>
        rw [hdrop] at hps
        cases hps
    | cons f fs =>
        rw [hdrop] at hps
        cases hps
        have hnext : (n.sent i)[(n.client.receivedOn i).length]? = some f := by
          rw [← List.head?_drop, hdrop]
          rfl
        have hbehind : fs = (n.sent i).drop ((n.client.receivedOn i).length + 1) := by
          rw [← List.tail_drop, hdrop]
          rfl
        rw [hbehind] at hrest
        have hlink : (onDataRound opts i n.client).link = n.client.link := by
          rw [hround]
          exact link_handlePayload i f.payload.bytes n.client
        have hrecognised : Recognised f :=
          h.recognised i f (List.mem_of_getElem? hnext)
        rcases handlePayload_eq i f.payload.bytes n.client with
          ⟨name, value, version, hevent, callback, heq⟩ | ⟨hevent, heq⟩
        · refine Or.inr ⟨f, ⟨i, f.payload.bytes, none, callback⟩, hnext, rfl, rfl, ?_, ?_, hlink,
            ?_, ?_, ?_⟩
          · rw [hround, heq]
            rfl
          · rw [hround, heq]
            rfl
          · rw [hround]
            exact hbuf
          · rw [hround]
            exact hrest
          · have hpush := hrecognised.mp ⟨name, value, version, hevent⟩
            cases f with
            | reply p => cases hpush
            | push p =>
                refine .push p rfl ?_ ?_
                · rw [hround, heq]
                  rfl
                · rw [hround, heq]
                  rfl
        · cases f with
          | push p =>
              obtain ⟨name, value, version, hok⟩ := hrecognised.mpr rfl
              exact absurd hok (hevent name value version)
          | reply p =>
              obtain ⟨x, ws, hx, hin⟩ := h.front he hnext
              have hshift : onDataRound opts i n.client =
                  ({ n.client.updateWaiter x.waiter (Waiter.finish (settlementOf p.bytes)) with
                    inflight := ws
                    received := n.client.received ++ [⟨i, p.bytes, some x.waiter, none⟩] } :
                      State).buffered rest (some i) := by
                rw [hround, heq, shiftWaiter, hin]
                rfl
              refine Or.inr ⟨.reply p, ⟨i, p.bytes, some x.waiter, none⟩, hnext, rfl, rfl, ?_, ?_,
                hlink, ?_, ?_, .reply hx rfl ?_ ?_⟩
              · rw [hshift]
                rfl
              · rw [hshift]
                rfl
              · rw [hround]
                exact hbuf
              · rw [hround]
                exact hrest
              · rw [hshift]
                exact hin
              · rw [hshift]
                rfl

theorem Receives.receivedOn {t : State} {f : ServerFrame} {d : Delivery}
    (hr : n.Receives t i f d) (j : ℕ) :
    t.receivedOn j = n.client.receivedOn j ++ if j = i then [d] else [] := by
  rw [State.receivedOn, hr.received, List.filter_append]
  congr 1
  by_cases hj : j = i
  · simp [hj, hr.sock]
  · simp [hj, hr.sock, Ne.symm hj]

theorem Receives.writtenOn {t : State} {f : ServerFrame} {d : Delivery}
    (hr : n.Receives t i f d) (j : ℕ) : t.writtenOn j = n.client.writtenOn j := by
  rw [State.writtenOn, hr.wire]
  rfl

/-- The waiter that an answer is given to has it, unless its timeout came first. -/
theorem Inv.given (h : n.Inv opts) {w : ℕ} (hw : w ∈ n.client.inflight) (p : Payload) {t : State}
    (hwaiters : t.waiters = Function.update n.client.waiters w
      ((n.client.waiters w).finish (settlementOf p.bytes))) : t.Given opts w p := by
  have hsound := h.waiters.sound w
  unfold State.Given
  rw [hwaiters, Function.update_self]
  rcases Waiter.finish_outcomes hsound (settlementOf p.bytes) with hsame | ⟨-, hout⟩
  · rw [hsame]
    rcases h.pending w hw with hnil | htimeout
    · have hsettled : (n.client.waiters w).settled = false := by
        cases hs : (n.client.waiters w).settled with
        | false => rfl
        | true => exact absurd hnil (hsound.answered hs)
      have hfinish : ((n.client.waiters w).finish (settlementOf p.bytes)).outcomes =
          [settlementOf p.bytes] := by
        simp [Waiter.finish, Waiter.settle, Waiter.clearTimeout, hsettled, hnil]
      rw [hsame, hnil] at hfinish
      cases hfinish
    · exact Or.inr htimeout
  · exact Or.inl hout

/-- The connection after the next frame is received. -/
theorem Live.received (hl : n.Live i) {t : State} {f : ServerFrame} {d : Delivery}
    (hr : n.Receives t i f d) : { n with client := t }.Live i := by
  obtain ⟨hlt, hget⟩ := List.getElem?_eq_some_iff.mp hr.next
  have hon : t.receivedOn i = n.client.receivedOn i ++ [d] := by simpa using hr.receivedOn i
  have hlength : (t.receivedOn i).length = (n.client.receivedOn i).length + 1 := by
    rw [hon, List.length_append]
    rfl
  refine ⟨?_, ?_, ?_⟩
  · rw [hlength, List.take_succ_eq_append_getElem hlt, hget, List.map_append, frames_append]
    change n.arrived i = _
    rw [hl.arrived, hr.recvBuf]
    simp [Nat.add_assoc]
  · rw [hlength]
    exact hr.buffered
  · rw [hlength, hr.writtenOn, length_replies_take_succ hr.next]
    obtain ⟨orphans, hin, hover⟩ := hl.waiting
    rw [← hr.link] at hover
    cases hr.delivers with
    | push p _ hin' _ =>
        refine ⟨orphans, ?_, hover⟩
        rw [hin', hin]
        rfl
    | @reply p x hx _ hin' _ =>
        obtain ⟨hlt', hget'⟩ := List.getElem?_eq_some_iff.mp hx
        refine ⟨orphans, ?_, hover⟩
        rw [List.drop_eq_getElem_cons hlt', hin'] at hin
        exact (List.cons.inj hin).2

/-- A frame is received. -/
theorem Inv.received (h : n.Inv opts) {t : State} {f : ServerFrame} {d : Delivery}
    (he : n.client.link.Engaged i) (hbase : n.Base opts { n with client := t })
    (hr : n.Receives t i f d) : { n with client := t }.Inv opts := by
  obtain ⟨st, hst⟩ := h.lifecycle
  have hother : ∀ j, j ≠ i → t.receivedOn j = n.client.receivedOn j := fun j hj => by
    simpa [hj] using hr.receivedOn j
  refine ⟨hbase.waiters, hbase.lifecycle, hbase.sound, fun v hv => ?_, hbase.parsing, fun j => ?_,
    hbase.recognised h, hbase.answered h, fun j hj => ?_, fun hnone => ?_, fun j hj => ?_⟩
  · cases hr.delivers with
    | push p _ hin hwaiters =>
        rw [hwaiters]
        exact h.pending v (hin ▸ hv)
    | @reply p x _ _ hin hwaiters =>
        have hnodup := (List.nodup_append'.mp h.waiters.nodup).1
        rw [hin] at hnodup
        have hne : v ≠ x.waiter := fun he => (List.nodup_cons.mp hnodup).1 (he ▸ hv)
        rw [hwaiters, Function.update_of_ne hne]
        exact h.pending v (hin ▸ List.mem_cons_of_mem _ hv)
  · by_cases hj : j = i
    · subst hj
      refine (h.pairs j).delivered hr.next rfl (by simpa using hr.receivedOn j) hr.payload
        (hr.writtenOn j) (fun x hx p hp => hbase.given _ (writtenOn_lt h.waiters hx) p hp)
          (fun p hp => ?_) fun p hp => ?_
      · subst hp
        cases hr.delivers with
        | @reply p x hx hwaiter hin hwaiters =>
            exact ⟨x, hx, hwaiter, h.given (hin ▸ List.mem_cons_self) p hwaiters⟩
      · subst hp
        cases hr.delivers with
        | push p hwaiter _ _ => exact hwaiter
    · exact hbase.pairs h (hother j hj)
  · have hj' : n.client.link.Engaged j := hr.link ▸ hj
    obtain rfl : j = i := hst.engaged_unique hj' he
    exact (h.live j he).received hr
  · exact absurd (show t.link.Engaged i from hr.link.symm ▸ he) (hnone i)
  · have hfresh : n.client.link.Fresh j := hr.link ▸ hj
    have hne : j ≠ i := fun hji => hst.not_engaged_of_fresh h.sound hfresh (hji ▸ he)
    obtain ⟨hwritten, hreceived, harrived⟩ := h.fresh j hfresh
    exact ⟨(hr.writtenOn j).trans hwritten, (hother j hne).trans hreceived, harrived⟩

/-- The loop of `onData` ends. -/
theorem Inv.stopped (h : n.Inv opts) {a : Action} (ha : a = .round ∨ a = .callbackThrow)
    {socks : ℕ → Sock}
    (hs : step opts n.client a = some { n.client with socks := socks, parsing := none }) :
    { n with client := { n.client with socks := socks, parsing := none } }.Inv opts := by
  obtain ⟨st, hst⟩ := h.lifecycle
  have halone : OneAttempt n.client a := by
    rcases ha with rfl | rfl
    · trivial
    · trivial
  have hends : a.ends = false := by
    rcases ha with rfl | rfl
    · rfl
    · rfl
  have hnot : ∀ j, a ≠ .sockConnected j := by
    rcases ha with rfl | rfl
    · simp
    · simp
  have hbase := h.base halone hs n.arrived
  have hlink := step_link opts hs
  refine ⟨hbase.waiters, hbase.lifecycle, hbase.sound, h.pending, hbase.parsing,
    fun j => hbase.pairs h rfl, hbase.recognised h, hbase.answered h, fun j hj => ?_,
    fun hnone => ?_, fun j hj => h.fresh j (hlink.fresh hj)⟩
  · have hold : n.client.link.Engaged j := (hlink.engaged hj).resolve_right (hnot j)
    have hl := h.live j hold
    obtain ⟨orphans, hin, hover⟩ := hl.waiting
    exact ⟨hl.arrived, hl.buffered, orphans, hin, fun hne => hlink.over hst (hover hne)⟩
  · by_cases hex : ∃ j, n.client.link.Engaged j
    · obtain ⟨j, hj⟩ := hex
      exact Or.inr (hlink.disengaged hst hj (hnone j) hends)
    · exact (h.rest (not_exists.mp hex)).imp_right (hlink.over hst)

/-- The steps of `onData`, other than the arrival of a chunk. -/
theorem Inv.reads (h : n.Inv opts) {a : Action} (ha : a = .round ∨ a = .callbackThrow) {t : State}
    (hs : step opts n.client a = some t) :
    { n with client := t }.Inv opts ∧
      (t.received = n.client.received ∨ ∃ j f d, n.Receives t j f d) := by
  rcases ha with rfl | rfl
  · have hs' := hs
    simp only [step, Option.map_eq_some_iff] at hs'
    obtain ⟨j, hparsing, rfl⟩ := hs'
    rcases h.round_cases hparsing with ⟨socks, heq⟩ | ⟨f, d, hr⟩
    · rw [heq] at hs ⊢
      exact ⟨h.stopped (Or.inl rfl) hs, Or.inl rfl⟩
    · have hbase : n.Base opts { n with client := onDataRound opts j n.client } :=
        h.base (show OneAttempt n.client .round from trivial) hs n.arrived
      exact ⟨h.received (Or.inr (h.parsing j hparsing)) hbase hr, Or.inr ⟨j, f, d, hr⟩⟩
  · have hs' := hs
    simp only [step, Option.ite_none_right_eq_some, Option.some.injEq] at hs'
    obtain ⟨-, rfl⟩ := hs'
    exact ⟨h.stopped (Or.inr rfl) hs, Or.inl rfl⟩

/-- What a step of a client and its server keeps, and what it delivers. -/
theorem Inv.next (h : n.Inv opts) {a : NetAction} (ha : Serves opts Recognised n a)
    (hs : netStep opts n a = some n') :
    n'.Inv opts ∧ (n'.client.received = n.client.received ∨
      ∃ j f d, n.Receives n'.client j f d) := by
  cases a with
  | client a =>
      simp only [netStep, Option.ite_none_left_eq_some, Option.map_eq_some_iff] at hs
      obtain ⟨hdata, t, ht, rfl⟩ := hs
      by_cases hread : a.reads = true
      · refine h.reads ?_ ht
        cases a with
        | round => exact Or.inl rfl
        | callbackThrow => exact Or.inr rfl
        | sockData i chunk => exact absurd rfl hdata
        | _ => cases hread
      · have hread' : a.reads = false := eq_false_of_ne_true hread
        refine ⟨h.act ha ht hread', Or.inl ?_⟩
        exact ((step_ledger opts h.waiters ht).inbox_eq opts hread').1
  | serve i f =>
      simp only [netStep, Option.ite_none_right_eq_some, Option.some.injEq] at hs
      obtain ⟨hreply, rfl⟩ := hs
      exact ⟨h.serve ha hreply, Or.inl rfl⟩
  | arrive i k =>
      simp only [netStep, Option.map_eq_some_iff] at hs
      obtain ⟨t, ht, rfl⟩ := hs
      refine ⟨h.arrive ht, Or.inl ?_⟩
      simp only [step, Option.ite_none_right_eq_some, Option.some.injEq] at ht
      rw [← ht.2]
      rfl

/-- What a step that delivers a frame, or none, hands over. -/
theorem handsOver (hcases : n'.client.received = n.client.received ∨
    ∃ j f d, n.Receives n'.client j f d) (i : ℕ) : n.HandsOver n' i := by
  have hnone : ∀ {d : Delivery} {p : Prop}, n'.client.receivedOn i = n.client.receivedOn i →
      n'.client.receivedOn i = n.client.receivedOn i ++ [d] → p := fun hsame hmore => by
    simpa using hsame.symm.trans hmore
  rcases hcases with hsame | ⟨j, f, d, hr⟩
  · have hon : n'.client.receivedOn i = n.client.receivedOn i := by
      rw [State.receivedOn, hsame]
      rfl
    exact ⟨Or.inl hon, fun p d _ hmore => hnone hon hmore, fun p d _ hmore => hnone hon hmore⟩
  · by_cases hij : i = j
    · subst hij
      have hon : n'.client.receivedOn i = n.client.receivedOn i ++ [d] := by
        simpa using hr.receivedOn i
      have hsame : ∀ {e : Delivery}, n'.client.receivedOn i = n.client.receivedOn i ++ [e] →
          e = d := fun hmore => by simpa using hmore.symm.trans hon
      refine ⟨Or.inr ⟨d, hon⟩, fun p e hnext hmore => ?_, fun p e hnext hmore => ?_⟩
      · obtain rfl := hsame hmore
        obtain rfl := Option.some.inj (hnext.symm.trans hr.next)
        cases hr.delivers with
        | @reply p x _ hwaiter hin hwaiters =>
            refine ⟨x.waiter, hwaiter, hin, fun v hv => ?_⟩
            rw [hwaiters, Function.update_of_ne hv]
      · obtain rfl := hsame hmore
        obtain rfl := Option.some.inj (hnext.symm.trans hr.next)
        cases hr.delivers with
        | push p _ hin hwaiters => exact ⟨hin.symm ▸ rfl, hwaiters⟩
    · have hon : n'.client.receivedOn i = n.client.receivedOn i := by
        simpa [hij] using hr.receivedOn i
      exact ⟨Or.inl hon, fun p d _ hmore => hnone hon hmore, fun p d _ hmore => hnone hon hmore⟩

theorem inv_of_reachable (h : Reachable (netStep opts) (Serves opts Recognised) Net.init n) :
    n.Inv opts :=
  h.invariant (I := fun n => n.Inv opts) inv_init fun _ _ _ hn ha hs => (hn.next ha hs).1

end Net

end Invariant

section Paired

/-- A frame is well formed and, if it is a watch event, has a version that is a safe integer. -/
def SafelyFormed (f : ServerFrame) : Prop :=
  WellFormed f ∧ SafeVersion f

theorem Serves.mono {R S : ServerFrame → Prop} (hRS : ∀ f, R f → S f) {n : Net} {a : NetAction}
    (h : Serves opts R n a) : Serves opts S n a := by
  cases a with
  | client a => exact h
  | serve i f => exact hRS f h
  | arrive i k => exact h

/-- The answers are paired with the requests in every run of a client that is not disturbed with a
server whose watch events have versions that are safe integers. -/
theorem replies_paired : PairsReplies opts (Serves opts SafelyFormed) := by
  have hrecognised : ∀ n a, Serves opts SafelyFormed n a → Serves opts Recognised n a :=
    fun _ _ h => h.mono opts fun _ hf => hf.1.recognised hf.2
  rintro n ⟨ls, hrun⟩ i
  have hinv : n.Inv opts := Net.inv_of_reachable ⟨ls, hrun.mono hrecognised⟩
  exact ⟨hinv.pairs i, fun a n' ha hs =>
    Net.handsOver (hinv.next (hrecognised n a ha) hs).2 i⟩

/-- A watch event with the first version that is not a safe integer. -/
def largeEvent : Payload :=
  ⟨(ServerResponse.watchEvent "k" none 9007199254740992).encode, by decide⟩

/-- Attempts to connect do not overlap, and nothing but the large event is sent. -/
def SendsLargeEvent (n : Net) : NetAction → Prop
  | .client a => OneAttempt n.client a
  | .serve _ f => f.payload.bytes = largeEvent.bytes ∧ f.reply?.isNone = true
  | .arrive _ _ => True

instance (n : Net) (a : NetAction) : Decidable (SendsLargeEvent n a) := by
  unfold SendsLargeEvent
  cases a <;> infer_instance

theorem serves_largeEvent (n : Net) (a : NetAction) (h : SendsLargeEvent n a) :
    Serves Options.defaults WellFormed n a := by
  cases a with
  | client a => exact ⟨h, fun t _ _ => Or.inl rfl⟩
  | serve i f =>
      refine ⟨.watchEvent "k" none 9007199254740992, ?_, ?_⟩
      · rw [h.1]
        exact encodes_encode node_standard _ (by decide)
      · rw [h.2]
        rfl
  | arrive i k => exact h

/-- A pushed watch event with a large version is given to the waiter of a Get. -/
theorem event_given_to_waiter :
    ¬ PairsReplies Options.defaults (Serves Options.defaults WellFormed) := by
  obtain ⟨n, d, hrun, hsent, hreceived, hwaiter⟩ : ∃ n d,
      exec (netStep Options.defaults) SendsLargeEvent Net.init
        [.client (.connect true), .client (.sockConnected 0), .client (.resume 0),
          .client (.resume 0), .client (.request (.get "a" none)), .serve 0 (.push largeEvent),
          .arrive 0 100, .client .round] = some n ∧
      (n.sent 0)[0]? = some (.push largeEvent) ∧ (n.client.receivedOn 0)[0]? = some d ∧
        d.waiter = some 0 := ⟨_, _, rfl, rfl, rfl, rfl⟩
  intro h
  have hpairs := (h n ⟨_, (run_of_exec hrun).mono serves_largeEvent⟩ 0).1
  cases hwaiter.symm.trans (hpairs.push 0 largeEvent d hsent hreceived)

end Paired

end NodeTcp

end DittoClient
