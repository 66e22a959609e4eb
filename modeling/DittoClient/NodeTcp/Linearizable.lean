import DittoClient.NodeTcp.Store

/-!
# The Node.js TCP client is linearizable

Whatever the order of calls, network events, timeouts and reconnections, each call that is given a
response took effect in the service between the call and the response, once, and the response is
the one that the service gave there. The invariant (`Cluster.Tracked`) says that the answers on a
connection are those of the log to the requests with the same numbers.
-/

namespace DittoClient

namespace NodeTcp

open DittoClient.Linear
open DittoClient.LockStep
open DittoClient.Octets
open DittoClient.Wire
open DittoClient.Transition

variable {σ : Type*} {M : Service σ} (opts : Options)

/-- A call is named by its waiter. It has returned when the waiter has a response, which is what the
decoder makes of the response of the service to the request that is read out of its frame. -/
def calls (M : Service σ) : View (Cluster M) M.toMachine ℕ (Request × ClientResponse) where
  log := Cluster.log
  invoked s w := w < s.net.client.nextWaiter
  returned s w res := w < s.net.client.nextWaiter ∧
    (s.net.client.waiters w).request = res.1 ∧
      (s.net.client.waiters w).outcomes.head? = some (.resolved res.2)
  fits res r x := nodeEncoder.reads res.1 = some r ∧ nodeDialect.meaning x = .ok res.2

/-- What holds in every run of a client with a service. -/
structure Cluster.Tracked (s : Cluster M) : Prop where
  net : s.net.Inv opts
  replied : s.net.client.Replied
  once : s.log.origins.Nodup
  answered : ∀ w ∈ s.log.origins, ∃ (i k : ℕ) (x : Sent), k < (replies (s.net.sent i)).length ∧
    (s.net.client.writtenOn i)[k]? = some x ∧ x.waiter = w
  served : ∀ (i k : ℕ) (p : Payload), (replies (s.net.sent i))[k]? = some p →
    ∃ (x : Sent) (e : Entry ℕ Request ServerResponse),
      (s.net.client.writtenOn i)[k]? = some x ∧ e ∈ s.log.entries ∧ e.origin = some x.waiter ∧
        nodeEncoder.reads x.frame = some e.request ∧ p.bytes = e.response.encode

variable {opts} {s t : Cluster M}

theorem Cluster.tracked_init : (Cluster.init : Cluster M).Tracked opts where
  net := Net.inv_init
  replied w hw := absurd hw (Nat.not_lt_zero w)
  once := List.nodup_nil
  answered w hw := (by cases hw)
  served i k p hp := (by simp [Cluster.init, Net.init, replies] at hp)

/-- A step of the client and its connections that the service has no part in. -/
theorem Cluster.Tracked.of_net (h : s.Tracked opts) {n : Net} (hinv : n.Inv opts)
    (hgrows : s.net.Advances n) (hreplied : n.client.Replied)
    (hsame : ∀ i, replies (n.sent i) = replies (s.net.sent i)) :
    ({ s with net := n } : Cluster M).Tracked opts where
  net := hinv
  replied := hreplied
  once := h.once
  answered w hw := by
    obtain ⟨i, k, x, hk, hx, hxw⟩ := h.answered w hw
    exact ⟨i, k, x, (hsame i).symm ▸ hk, getElem?_mono (hgrows.written i) hx, hxw⟩
  served i k p hp := by
    rw [hsame] at hp
    obtain ⟨x, e, hx, he⟩ := h.served i k p hp
    exact ⟨x, e, getElem?_mono (hgrows.written i) hx, he⟩

/-- The answers change only where an answer is sent. -/
theorem replies_netStep {n n' : Net} {a : NetAction} (hs : netStep opts n a = some n')
    (ha : ∀ i p, a ≠ .serve i (.reply p)) (j : ℕ) : replies (n'.sent j) = replies (n.sent j) := by
  cases a with
  | client b =>
      simp only [netStep, Option.ite_none_left_eq_some, Option.map_eq_some_iff] at hs
      obtain ⟨-, s, -, rfl⟩ := hs
      rfl
  | serve i f =>
      simp only [netStep, Option.ite_none_right_eq_some, Option.some.injEq] at hs
      obtain ⟨-, rfl⟩ := hs
      cases f with
      | reply p => exact absurd rfl (ha i p)
      | push p =>
          rw [Net.serve_sent, replies_append]
          split
          · exact List.append_nil _
          · exact List.append_nil _
  | arrive i k =>
      simp only [netStep, Option.map_eq_some_iff] at hs
      obtain ⟨s, -, rfl⟩ := hs
      rfl

/-- The answer of a service is not a watch event. -/
theorem recognised_reply (s : Cluster M) (r : Request) : Recognised (s.reply r) := by
  refine ⟨?_, fun hnone => by cases hnone⟩
  rintro ⟨name, value, version, hdecode⟩
  have hmeaning := (M.decode_payload node_follows node_plain node_standard (by decide) _ r _).mp
    hdecode
  refine absurd hmeaning (not_event_of_meaning ?_)
  cases hx : (M.handle (M.after s.log.entries) r).2 with
  | watchEvent key value version => exact absurd hx (M.answers _ _ _ _ _)
  | _ => rfl

/-- The next request of a connection is answered. -/
theorem Cluster.Tracked.answer (h : s.Tracked opts) {i : ℕ} {x : Sent} {r : Request} {n : Net}
    (hx : s.next i = some x) (hr : nodeEncoder.reads x.frame = some r)
    (hs : netStep opts s.net (.serve i (s.reply r)) = some n) :
    (⟨n, s.log.record (some x.waiter) r⟩ : Cluster M).Tracked opts := by
  have hserves : Serves opts Recognised s.net (.serve i (s.reply r)) := recognised_reply s r
  have hinv := (h.net.next hserves hs).1
  obtain ⟨hgrows, hreplied⟩ := netStep_advances h.net h.replied hs
  simp only [netStep, Option.ite_none_right_eq_some, Option.some.injEq] at hs
  obtain ⟨-, rfl⟩ := hs
  have hsent : ∀ j, replies ((s.net.serve i (s.reply r)).sent j) = replies (s.net.sent j) ++
      if j = i then [M.payload (M.after s.log.entries) r] else [] := by
    intro j
    rw [Net.serve_sent, replies_append]
    split
    · rfl
    · rfl
  refine ⟨hinv, hreplied, ?_, fun w hw => ?_, fun j k p hp => ?_⟩
  · -- the request has a place of its own, behind all that were answered before
    rw [Log.origins_record]
    refine List.nodup_append'.mpr ⟨h.once, List.nodup_singleton _, ?_⟩
    rw [Option.toList_some, List.disjoint_singleton]
    intro hmem
    obtain ⟨j, k, y, hk, hy, hyx⟩ := h.answered x.waiter hmem
    obtain ⟨rfl, rfl⟩ := written_unique h.net.waiters hy hx hyx
    exact Nat.lt_irrefl _ hk
  · rw [Log.origins_record] at hw
    rcases List.mem_append.mp hw with hw | hw
    · obtain ⟨j, k, y, hk, hy, hyw⟩ := h.answered w hw
      refine ⟨j, k, y, ?_, hy, hyw⟩
      rw [hsent, List.length_append]
      exact Nat.lt_add_right _ hk
    · rw [Option.toList_some, List.mem_singleton] at hw
      refine ⟨i, _, x, ?_, hx, hw.symm⟩
      rw [hsent, if_pos rfl, List.length_append]
      exact Nat.lt_succ_self _
  · have hold : (replies (s.net.sent j))[k]? = some p → ∃ y e,
        (s.net.client.writtenOn j)[k]? = some y ∧ e ∈ (s.log.record (some x.waiter) r).entries ∧
          e.origin = some y.waiter ∧ nodeEncoder.reads y.frame = some e.request ∧
            p.bytes = e.response.encode := by
      intro hp
      obtain ⟨y, e, hy, he, hrest⟩ := h.served j k p hp
      exact ⟨y, e, hy, (s.log.prefix_record _ _).subset he, hrest⟩
    rw [hsent] at hp
    split at hp
    · next hj =>
        subst hj
        rcases Nat.lt_or_ge k (replies (s.net.sent j)).length with hk | hk
        · rw [List.getElem?_append_left hk] at hp
          exact hold hp
        · rw [List.getElem?_append_right hk] at hp
          obtain ⟨hzero, hget⟩ := List.getElem?_eq_some_iff.mp hp
          rw [List.length_singleton] at hzero
          obtain rfl : k = (replies (s.net.sent j)).length := by omega
          refine ⟨x, _, hx, List.mem_append_right _ (List.mem_singleton_self _), rfl, hr, ?_⟩
          rw [← hget]
          simp [Service.payload]
    · rw [List.append_nil] at hp
      exact hold hp

/-- A request of another client. -/
theorem Cluster.Tracked.other (h : s.Tracked opts) (r : Request) :
    ({ s with log := s.log.record none r } : Cluster M).Tracked opts where
  net := h.net
  replied := h.replied
  once := by
    rw [Log.origins_record, Option.toList_none, List.append_nil]
    exact h.once
  answered w hw := by
    rw [Log.origins_record, Option.toList_none, List.append_nil] at hw
    exact h.answered w hw
  served i k p hp := by
    obtain ⟨x, e, hx, he, hrest⟩ := h.served i k p hp
    exact ⟨x, e, hx, (s.log.prefix_record _ _).subset he, hrest⟩

theorem SafelyFormed.recognised {f : ServerFrame} (h : SafelyFormed f) : Recognised f :=
  h.1.recognised h.2

/-- A step keeps the invariant, and the log grows. -/
theorem Cluster.Tracked.step (h : s.Tracked opts) {a : ClusterAction} (ha : Orderly opts s a)
    (hs : clusterStep opts s a = some t) :
    t.Tracked opts ∧ s.log.entries <+: t.log.entries := by
  have hnet : ∀ {b : NetAction} {n : Net}, Serves opts Recognised s.net b →
      netStep opts s.net b = some n → (∀ i p, b ≠ .serve i (.reply p)) →
        ({ s with net := n } : Cluster M).Tracked opts := fun hb hn hnot => by
    obtain ⟨hgrows, hreplied⟩ := netStep_advances h.net h.replied hn
    exact h.of_net (h.net.next hb hn).1 hgrows hreplied (replies_netStep hn hnot)
  cases a with
  | client b =>
      obtain ⟨n, hn, rfl⟩ := Option.map_eq_some_iff.mp hs
      exact ⟨hnet (b := .client b) ha hn (by simp), List.prefix_refl _⟩
  | arrive i k =>
      obtain ⟨n, hn, rfl⟩ := Option.map_eq_some_iff.mp hs
      exact ⟨hnet (b := .arrive i k) trivial hn (by simp), List.prefix_refl _⟩
  | push i p =>
      simp only [clusterStep, Option.map_eq_some_iff] at hs
      obtain ⟨n, hn, rfl⟩ := hs
      have hpush : Serves opts Recognised s.net (.serve i (.push p)) :=
        SafelyFormed.recognised ha
      exact ⟨hnet hpush hn (by simp), List.prefix_refl _⟩
  | answer i =>
      simp only [clusterStep, Option.bind_eq_bind, Option.bind_eq_some_iff,
        Option.some.injEq] at hs
      obtain ⟨x, hx, r, hr, n, hn, rfl⟩ := hs
      exact ⟨h.answer hx hr hn, s.log.prefix_record _ _⟩
  | other r =>
      cases hs
      exact ⟨h.other r, s.log.prefix_record _ _⟩

/-- The log accounts for the calls. -/
theorem Cluster.Tracked.accounts (h : s.Tracked opts) : (calls M).Accounts s where
  once := h.once
  called w hw := by
    obtain ⟨i, k, x, -, hx, rfl⟩ := h.answered w hw
    exact writtenOn_lt h.net.waiters (List.mem_of_getElem? hx)
  answered := by
    rintro w ⟨req, r⟩ ⟨hw, hreq, hout⟩
    -- the waiter was shifted for a frame, which is an answer
    obtain ⟨d, hd, hdw, hdecode⟩ := h.replied w hw r hout
    have hd' : d ∈ s.net.client.receivedOn d.sock :=
      List.mem_filter.mpr ⟨hd, decide_eq_true rfl⟩
    obtain ⟨j, hj, hget⟩ := List.getElem_of_mem hd'
    have hdj : (s.net.client.receivedOn d.sock)[j]? = some d :=
      List.getElem?_eq_some_iff.mpr ⟨hj, hget⟩
    have hpairs := h.net.pairs d.sock
    have hpayload : ((s.net.sent d.sock).map fun f => f.payload.bytes)[j]? = some d.payload := by
      refine getElem?_mono hpairs.payloads ?_
      rw [List.getElem?_map, hdj]
      rfl
    rw [List.getElem?_map, Option.map_eq_some_iff] at hpayload
    obtain ⟨f, hf, hbytes⟩ := hpayload
    cases f with
    | push p =>
        rw [hpairs.push j p d hf hdj] at hdw
        cases hdw
    | reply p =>
        obtain ⟨x, hx, hwaiter, -⟩ := hpairs.reply j p d hf hdj
        obtain rfl : x.waiter = w := Option.some.inj (hwaiter.symm.trans hdw)
        obtain ⟨y, e, hy, he, horigin, hreads, hpe⟩ := h.served _ _ p (getElem?_replies hf)
        obtain ⟨u, hu⟩ := Log.exists_response he
        obtain rfl : x = y := Option.some.inj (hx.symm.trans hy)
        refine ⟨e, he, horigin, ?_, ?_⟩
        · have hframe := h.net.waiters.frames x
            (List.mem_filter.mp (List.mem_of_getElem? hx)).1
          rw [hframe, hreq] at hreads
          exact hreads
        · have hbytes : p.bytes = d.payload := hbytes
          rw [← hbytes, hpe, hu] at hdecode
          rw [hu]
          exact (M.decode_payload node_follows node_plain node_standard (by decide) u _ r).mp
            hdecode

/-- In every run, whatever the order of the calls and of what happens on the network, a call that
was given a response took effect in the service between the call and the response, and nothing takes
effect twice. -/
theorem calls_linearizable (opts : Options) (M : Service σ) :
    (calls M).Linearizable (clusterStep opts) (Orderly opts) Cluster.init :=
  View.linearizable_of_invariant (fun s => s.Tracked opts) Cluster.tracked_init
    (fun _ _ _ h ha hs => h.step ha hs) fun _ h => h.accounts

section Unwritten

/-- A call that was settled before its frame was written. -/
structure State.Unwritten (s : State) (w : ℕ) : Prop where
  called : w < s.nextWaiter
  settled : (s.waiters w).settled = true
  unwritten : ∀ x ∈ s.wire, x.waiter ≠ w

/-- The frame of a call that has been settled is not written any more: what waits in the queue is
not settled. -/
theorem State.Unwritten.step {s t : State} {a : Action} {w : ℕ} (h : s.Unwritten w)
    (hw : WaiterInv s) (hs : NodeTcp.step opts s a = some t) : t.Unwritten w := by
  have hledger := step_ledger opts hw hs
  refine ⟨h.called.trans_le hledger.nextWaiter_le, ?_, ?_⟩
  · by_contra hopen
    have hold := (hledger.unsettled opts h.called (Bool.eq_false_iff.mpr hopen)).1
    rw [h.settled] at hold
    cases hold
  · have hmore : ∀ new, t.wire = s.wire ++ new → (∀ x ∈ new, x.waiter ≠ w) →
        ∀ x ∈ t.wire, x.waiter ≠ w := by
      intro new hwire hnew
      rw [hwire]
      exact List.forall_mem_append.mpr ⟨h.unwritten, hnew⟩
    have hsame : t.wire = s.wire → ∀ x ∈ t.wire, x.waiter ≠ w := by
      intro hwire
      rw [hwire]
      exact h.unwritten
    cases hledger with
    | kept _ hset _ => exact hsame hset.wire
    | lost _ hset _ => exact hsame hset.wire
    | read _ hset => exact hsame hset.wire
    | queued _ _ _ _ _ _ hwire _ => exact hsame hwire
    | unsent _ _ _ _ _ hwire _ => exact hsame hwire
    | sent _ _ _ _ hwire _ =>
        exact hmore _ hwire (List.forall_mem_singleton.mpr (Nat.ne_of_gt h.called))
    | flushed _ _ _ _ hwire _ =>
        refine hmore _ hwire fun x hx hxw => ?_
        obtain ⟨v, hv, rfl⟩ := List.mem_map.mp hx
        have hopen := (hw.queued v hv).2.1
        obtain rfl : v = w := hxw
        rw [h.settled] at hopen
        cases hopen

/-- What the service has served was written. -/
structure Cluster.Written (s : Cluster M) : Prop where
  waiters : WaiterInv s.net.client
  served : ∀ w ∈ s.log.origins, ∃ x ∈ s.net.client.wire, x.waiter = w

theorem Cluster.written_init : (Cluster.init : Cluster M).Written where
  waiters := waiterInv_init
  served w hw := (by cases hw)

/-- A step of a client with a service keeps what was written. -/
theorem Cluster.Written.step (h : s.Written) {a : ClusterAction}
    (hs : clusterStep opts s a = some t) :
    t.Written ∧ ∀ w, s.net.client.Unwritten w → t.net.client.Unwritten w := by
  have hclient : ∀ {b : Action} {u : State} {n : Net}, NodeTcp.step opts s.net.client b = some u →
      n.client = u → (⟨n, s.log⟩ : Cluster M).Written ∧
        ∀ w, s.net.client.Unwritten w → n.client.Unwritten w := by
    rintro b u n hb rfl
    refine ⟨⟨step_waiterInv opts h.waiters hb, fun w hw => ?_⟩, fun w hw => hw.step h.waiters hb⟩
    obtain ⟨x, hx, hxw⟩ := h.served w hw
    obtain ⟨new, hwire, -⟩ := (step_ledger opts h.waiters hb).wire_append
    exact ⟨x, hwire ▸ List.mem_append_left _ hx, hxw⟩
  cases a with
  | client b =>
      simp only [clusterStep, netStep, Option.map_eq_some_iff, Option.ite_none_left_eq_some] at hs
      obtain ⟨n, ⟨-, u, hu, rfl⟩, rfl⟩ := hs
      exact hclient hu rfl
  | arrive i k =>
      simp only [clusterStep, netStep, Option.map_eq_some_iff] at hs
      obtain ⟨n, ⟨u, hu, rfl⟩, rfl⟩ := hs
      exact hclient hu rfl
  | push i p =>
      simp only [clusterStep, netStep, Option.map_eq_some_iff, Option.ite_none_right_eq_some,
        Option.some.injEq] at hs
      obtain ⟨n, ⟨-, rfl⟩, rfl⟩ := hs
      exact ⟨⟨h.waiters, h.served⟩, fun w hw => hw⟩
  | other r =>
      cases hs
      refine ⟨⟨h.waiters, fun w hw => h.served w ?_⟩, fun w hw => hw⟩
      rwa [Log.origins_record, Option.toList_none, List.append_nil] at hw
  | answer i =>
      simp only [clusterStep, netStep, Option.bind_eq_bind, Option.bind_eq_some_iff,
        Option.ite_none_right_eq_some, Option.some.injEq] at hs
      obtain ⟨x, hx, r, -, n, ⟨-, rfl⟩, rfl⟩ := hs
      refine ⟨⟨h.waiters, fun w hw => ?_⟩, fun w hw => hw⟩
      rw [Log.origins_record] at hw
      rcases List.mem_append.mp hw with hw | hw
      · exact h.served w hw
      · rw [Option.toList_some, List.mem_singleton] at hw
        exact ⟨x, List.mem_of_mem_filter (List.mem_of_getElem? hx), hw.symm⟩

/-- In every run, whatever happens, a call that was settled before its frame was written, as one
that was queued when the client was closed, never takes effect. -/
theorem unwritten_never_served (opts : Options) {s t : Cluster M} {w : ℕ}
    (hs : Reachable (clusterStep opts) (fun _ _ => True) Cluster.init s)
    (ht : Reachable (clusterStep opts) (fun _ _ => True) s t)
    (hw : s.net.client.Unwritten w) : t.net.client.Unwritten w ∧ w ∉ t.log.origins := by
  have hwritten : s.Written :=
    hs.invariant Cluster.written_init fun s a t h _ hstep => (h.step hstep).1
  have hboth : t.Written ∧ t.net.client.Unwritten w := by
    refine ht.invariant (I := fun t => t.Written ∧ t.net.client.Unwritten w) ⟨hwritten, hw⟩ ?_
    intro s a t h _ hstep
    obtain ⟨hstep, hkeep⟩ := h.1.step hstep
    exact ⟨hstep, hkeep w h.2⟩
  refine ⟨hboth.2, fun hmem => ?_⟩
  obtain ⟨x, hx, hxw⟩ := hboth.1.served w hmem
  exact hboth.2.unwritten x hx hxw

/-- A service that answers everything with Pong. -/
def ponging : Service Unit where
  init := ()
  handle _ _ := ((), .pong)
  answers _ _ _ _ _ h := by cases h
  fits _ _ := by decide

/-- A request is queued and rejected, since no connection comes about. Later the client connects,
and writes another request. -/
theorem unwritten_never_served_refused : ∃ s t : Cluster ponging,
    Reachable (clusterStep { Options.defaults with autoReconnect := true, maxReconnectAttempts := 1 })
      (fun _ _ => True) s t ∧ s.net.client.Unwritten 0 ∧
        t.net.client.Unwritten 0 ∧ 0 ∉ t.log.origins ∧
          t.net.client.wire = [⟨1, 1, .get "k" none⟩] := by
  let opts := { Options.defaults with autoReconnect := true, maxReconnectAttempts := 1 }
  obtain ⟨s, hs, hunwritten, t, ht, hwire⟩ : ∃ s : Cluster ponging,
      exec (clusterStep opts) (fun _ _ => True) Cluster.init
        [.client (.request (.get "k" none)), .client (.connect true),
          .client (.sockError 0 (.error "connect ECONNREFUSED")), .client (.resume 0)] = some s ∧
      s.net.client.Unwritten 0 ∧ ∃ t : Cluster ponging,
        exec (clusterStep opts) (fun _ _ => True) s
          [.client (.connect true), .client (.sockConnected 1),
            .client (.request (.get "k" none))] = some t ∧
        t.net.client.wire = [⟨1, 1, .get "k" none⟩] :=
    ⟨_, rfl, ⟨by decide, rfl, List.forall_mem_nil _⟩, _, rfl, by decide +kernel⟩
  have hreach : Reachable (clusterStep opts) (fun _ _ => True) s t := ⟨_, run_of_exec ht⟩
  obtain ⟨hkept, hnever⟩ :=
    unwritten_never_served opts ⟨_, run_of_exec hs⟩ hreach hunwritten
  exact ⟨s, t, hreach, hunwritten, hkept, hnever, hwire⟩

end Unwritten

end NodeTcp

end DittoClient
