import DittoClient.NodeTcp.Connecting
import DittoClient.NodeTcp.Resubscription

/-!
# The watches of a client and the subscriptions of its server

When a client is connected and at rest, the entries it has callbacks for are those that the server
has acknowledged on the connection. The reason is kept in every state with a stored socket: what the
client expects the server to acknowledge is registered, and what is registered is expected, or a run
of `doConnect` has still to come to it. Nothing puts the two in step again once they differ, so that
a call must not change the one without the other, and an answer must be the one that is expected.
-/

namespace DittoClient

namespace NodeTcp

open DittoClient.LockStep
open DittoClient.Octets
open DittoClient.Wire
open DittoClient.Transition

/-- The action is this call to `watch` or `unwatch`, and passes validation. -/
def Subscription.Made (opts : Options) (c : Subscription) (a : Action) : Prop :=
  a = c.action ∧ opts.validate c.request = true

/-- A step does not set the client and its server apart. A call to `watch` or `unwatch` finds no
other entry under its name, and is not made when the client is closed and has a socket; no Watch
that is taken back waits in the queue; and a run of `doConnect` that ends early has no entry to
register that the server is not expected to have. -/
structure Preserves (opts : Options) (n : Net) (a : Action) : Prop where
  named : ∀ c : Subscription, c.Made opts a → ∀ e ∈ n.client.watchCallbacks,
    e.name = c.pair.name → e.pair = c.pair
  opened : ∀ c : Subscription, c.Made opts a → n.client.destroyed = true →
    n.client.socket = none
  queued : ∀ key ns, Subscription.Made opts (.unwatch key ns) a → ∀ w ∈ n.client.offlineQueue,
    (n.client.waiters w).request ≠ .watch key (normalizeNamespace ns)
  registered : ∀ k pos i, a = .resume k → n.client.socket = some i → n.client.Breaks k pos →
    ∀ e ∈ n.client.watchCallbacks, pos ≤ e.index → e.pair ∈ n.expected i

/-- The client and its server are not set apart: neither by a step of the client nor by an answer,
which leaves the entries that are expected on the stored connection as they are. -/
def Concurs (opts : Options) (n : Net) (a : NetAction) : Prop :=
  Serves opts Recognised n a ∧ (∀ b, a = .client b → Preserves opts n b) ∧
    ∀ i f, a = .serve i f → n.client.socket = some i → (n.serve i f).expected i = n.expected i

/-- In every run under a condition, the registered entries are the subscriptions of the current
connection whenever the client is connected and at rest. -/
def AgreesAtRest (opts : Options) (C : Net → NetAction → Prop) : Prop :=
  ∀ n, Reachable (netStep opts) C Net.init n → ∀ i, n.client.socket = some i →
    (∀ k, (n.client.tasks k).pc.isDone = true) → n.client.inflight = [] →
      n.client.offlineQueue = [] → n.client.registry.pairs = n.subscriptions i

section Subscribing

theorem subscribe_mono {S R : Finset Pair} (h : S ⊆ R) (req : Request) :
    subscribe S req ⊆ subscribe R req := by
  cases req with
  | watch key ns => exact Finset.insert_subset_insert _ h
  | unwatch key ns => exact Finset.erase_subset_erase _ h
  | _ => exact h

theorem foldl_subscribe_mono {S R : Finset Pair} (h : S ⊆ R) (reqs : List Request) :
    reqs.foldl subscribe S ⊆ reqs.foldl subscribe R := by
  induction reqs generalizing S R with
  | nil => exact h
  | cons req reqs ih => exact ih (subscribe_mono h req)

theorem subscribe_operation {req : Request} (h : isOperation req = true) (S : Finset Pair) :
    subscribe S req = S := by
  cases req <;> first | rfl | cases h

/-- An entry that is watched is subscribed to, unless it is taken back. -/
theorem Within.mem_foldl {R : Finset Pair} {reqs : List Request} (h : Within R reqs)
    {key : String} {ns : Option String} (hmem : .watch key ns ∈ reqs) (S : Finset Pair) :
    (⟨ns, key⟩ : Pair) ∈ reqs.foldl NodeTcp.subscribe S := by
  induction reqs generalizing S with
  | nil => cases hmem
  | cons req reqs ih =>
      have htail : Within R reqs := fun req hreq => h req (List.mem_cons_of_mem _ hreq)
      rcases List.mem_cons.mp hmem with rfl | hmem
      · exact (htail.foldl _).1 (Finset.mem_insert_self _ _)
      · exact ih htail hmem _

end Subscribing

section Calls

variable {opts : Options} {n : Net} {s t : State} {a : Action} {i : ℕ}

theorem foldl_operation {req : Request} (hs : step opts s (.request req) = some t)
    (S : Finset Pair) : ((Action.request req).request? opts).toList.foldl subscribe S = S := by
  simp only [step] at hs
  split at hs
  · next hoperation =>
      simp only [Action.request?]
      split
      · exact subscribe_operation hoperation S
      · rfl
  · cases hs

/-- What a call does to the registered entries is what its request does to the subscriptions. -/
theorem pairs_step (hs : step opts n.client a = some t) (hordered : n.client.registry.Ordered)
    (h : Preserves opts n a) :
    t.registry.pairs = (a.request? opts).toList.foldl subscribe n.client.registry.pairs := by
  rw [step_registry opts hs]
  cases a with
  | request req => exact (foldl_operation hs _).symm
  | watch key ns callback =>
      simp only [Action.register, Action.request?]
      split
      · next hvalid =>
          exact Registry.pairs_watch (r := n.client.registry) (q := Pair.of key ns)
            (h.named (.watch key ns callback) ⟨rfl, hvalid⟩)
      · rfl
  | unwatch key ns =>
      simp only [Action.register, Action.request?]
      split
      · next hvalid =>
          exact Registry.pairs_delete (q := Pair.of key ns) hordered
            (h.named (.unwatch key ns) ⟨rfl, hvalid⟩)
      · rfl
  | _ => rfl

/-- With a socket stored, a call that changes something writes its request. -/
theorem foldl_writes (hs : step opts n.client a = some t) (h : Preserves opts n a)
    (hresume : ∀ k, a ≠ .resume k) (hsocket : n.client.socket = some i) (S : Finset Pair) :
    (n.client.writes opts a).foldl subscribe S = (a.request? opts).toList.foldl subscribe S := by
  have hwrites : n.client.writes opts a =
      if n.client.destroyed then [] else (a.request? opts).toList := by
    cases a with
    | resume k => exact absurd rfl (hresume k)
    | _ => rfl
  rw [hwrites]
  split
  · next hdestroyed =>
      have hnot : ∀ {c : Subscription} {p : Prop}, c.Made opts a → p := fun hmade => by
        rw [h.opened _ hmade hdestroyed] at hsocket
        cases hsocket
      cases a with
      | request req => exact (foldl_operation hs S).symm
      | watch key ns callback =>
          simp only [Action.request?]
          split
          · next hvalid => exact hnot (c := .watch key ns callback) ⟨rfl, hvalid⟩
          · rfl
      | unwatch key ns =>
          simp only [Action.request?]
          split
          · next hvalid => exact hnot (c := .unwatch key ns) ⟨rfl, hvalid⟩
          · rfl
      | _ => rfl
  · rfl

/-- A registration that a call leaves behind was there before and is not taken back, or is the one
of the call. -/
theorem mem_of_step {e : WatchEntry} (hs : step opts n.client a = some t)
    (hordered : n.client.registry.Ordered) (he : e ∈ t.watchCallbacks) :
    e ∈ n.client.watchCallbacks ∧ (∀ S, e.pair ∈ S →
        e.pair ∈ (a.request? opts).toList.foldl subscribe S) ∨
      ∀ S, e.pair ∈ (a.request? opts).toList.foldl subscribe S := by
  have hmem : e ∈ (a.register opts n.client.registry).entries := step_registry opts hs ▸ he
  cases a with
  | request req =>
      refine Or.inl ⟨hmem, fun S hS => ?_⟩
      rw [foldl_operation hs]
      exact hS
  | watch key ns callback =>
      simp only [Action.register, Action.request?] at hmem ⊢
      by_cases hvalid : opts.validate (.watch key ns) = true
      · rw [if_pos hvalid] at hmem ⊢
        rcases Registry.pair_of_mem_watch (q := Pair.of key ns) hmem with hpair | ⟨-, hold⟩
        · refine Or.inr fun S => ?_
          rw [hpair]
          exact Finset.mem_insert_self _ _
        · exact Or.inl ⟨hold, fun S hS => Finset.mem_insert_of_mem hS⟩
      · rw [if_neg hvalid] at hmem ⊢
        exact Or.inl ⟨hmem, fun S hS => hS⟩
  | unwatch key ns =>
      simp only [Action.register, Action.request?] at hmem ⊢
      by_cases hvalid : opts.validate (.unwatch key ns) = true
      · rw [if_pos hvalid] at hmem ⊢
        obtain ⟨hname, hold⟩ := n.client.registry.mem_delete hmem
        refine Or.inl ⟨hold, fun S hS => Finset.mem_erase.mpr ⟨fun hpair => hname ?_, hS⟩⟩
        rw [hordered.named e hold, hpair]
        rfl
      · rw [if_neg hvalid] at hmem ⊢
        exact Or.inl ⟨hmem, fun S hS => hS⟩
  | _ => exact Or.inl ⟨hmem, fun S hS => hS⟩

end Calls

namespace Net

variable {opts : Options} {n n' : Net} {t : State} {a : Action} {i : ℕ}

/-- What a client and its server keep, whatever is still under way. -/
structure Agrees (n : Net) : Prop where
  begun : ∀ k, n.client.nextTask ≤ k → (n.client.tasks k).pc = .done none
  ordered : n.client.registry.Ordered
  queued : ∀ w ∈ n.client.offlineQueue, Within n.client.registry.pairs [(n.client.waiters w).request]
  expected : ∀ i, n.client.socket = some i → n.expected i ⊆ n.client.registry.pairs
  registered : ∀ i, n.client.socket = some i → ∀ e ∈ n.client.watchCallbacks,
    e.pair ∈ n.expected i ∨ ∃ k, n.client.Registers k e

theorem agrees_init : Net.init.Agrees where
  begun k _ := rfl
  ordered := ⟨fun e h => (by cases h), List.Pairwise.nil, fun e h => (by cases h)⟩
  queued w h := by cases h
  expected i h := by cases h
  registered i h := by cases h

theorem expected_of_writes {reqs : List Request} (h : n.client.Writes t i reqs)
    (hinv : n.Inv opts) (hclient : n'.client = t) (hsent : n'.sent = n.sent) :
    n'.expected i = reqs.foldl subscribe (n.expected i) := by
  obtain ⟨new, hwire, hsock, rfl⟩ := h
  have hrequests : n'.requestsOn i = n.requestsOn i ++ new.map Sent.frame := by
    rw [requestsOn, hclient, writtenOn_append hwire, filter_sock hsock, if_pos rfl, List.map_append]
    rfl
  have hanswered : (replies (n.sent i)).length ≤ (n.requestsOn i).length := by
    rw [requestsOn, List.length_map]
    exact hinv.answered i
  rw [Net.expected, hrequests, hsent]
  exact expected_append hanswered ∅ _

/-- A run of `doConnect` writes nothing but Auth and registered watches. -/
theorem Agrees.within (h : n.Agrees) (k : ℕ) :
    Within n.client.registry.pairs (n.client.resumes opts k) := by
  have hregisters : ∀ pos, Within n.client.registry.pairs (n.client.registers pos) := by
    intro pos req hreq
    obtain ⟨e, hfind, rfl⟩ := Option.map_eq_some_iff.mp (Option.mem_toList.mp hreq)
    refine ⟨by simp, fun key ns heq => ?_⟩
    cases heq
    exact Registry.mem_pairs.mpr ⟨e, List.mem_of_find?_eq_some hfind, rfl⟩
  have hnil : Within n.client.registry.pairs [] := fun req hreq => by cases hreq
  unfold State.resumes
  split
  · split
    · exact hregisters 0
    · intro req hreq
      rw [List.mem_singleton.mp hreq]
      simp
  · split
    · exact hregisters 0
    · exact hnil
  · split
    · exact hregisters _
    · exact hnil
  · intro req hreq
    obtain ⟨w, hw, rfl⟩ := List.mem_map.mp hreq
    exact h.queued w hw _ (List.mem_singleton_self _)
  · exact hnil

/-- The watches in the queue are registered. -/
theorem Agrees.queued_next (h : n.Agrees) (hinv : n.Inv opts) (hp : Preserves opts n a)
    (hs : step opts n.client a = some t) {w : ℕ} (hq : w ∈ t.offlineQueue) :
    Within t.registry.pairs [(t.waiters w).request] := by
  intro req hreq
  obtain rfl := List.mem_singleton.mp hreq
  have hpairs := pairs_step hs h.ordered hp
  rcases step_queue hinv.waiters hs hq with ⟨hold, hsame⟩ | ⟨-, hrequest, hwatch⟩
  · rw [hsame]
    obtain ⟨hunwatch, hmem⟩ := h.queued w hold _ (List.mem_singleton_self _)
    refine ⟨hunwatch, fun key ns heq => ?_⟩
    rw [hpairs]
    have hregistered := hmem key ns heq
    cases a with
    | request req =>
        rw [foldl_operation hs]
        exact hregistered
    | watch key' ns' callback =>
        simp only [Action.request?]
        split
        · exact Finset.mem_insert_of_mem hregistered
        · exact hregistered
    | unwatch key' ns' =>
        simp only [Action.request?]
        split
        · next hvalid =>
            refine Finset.mem_erase.mpr ⟨fun hpair => ?_, hregistered⟩
            obtain ⟨rfl, rfl⟩ := Pair.mk.inj hpair
            exact hp.queued _ _ ⟨rfl, hvalid⟩ w hold heq
        · exact hregistered
    | _ => exact hregistered
  · rw [hpairs, hrequest]
    cases a with
    | request req =>
        simp only [step] at hs
        split at hs
        · next hoperation =>
            simp only [Action.request?] at hrequest
            split at hrequest
            · cases hrequest
              constructor
              · rintro key ns heq
                rw [heq] at hoperation
                cases hoperation
              · rintro key ns heq
                rw [heq] at hoperation
                cases hoperation
            · cases hrequest
        · cases hs
    | watch key ns callback =>
        simp only [Action.request?] at hrequest
        split at hrequest
        · refine ⟨by rw [← Option.some.inj hrequest]; simp, fun key' ns' heq => ?_⟩
          rw [heq]
          exact Finset.mem_insert_self _ _
        · cases hrequest
    | unwatch key ns => exact absurd rfl (hwatch key ns)
    | _ => cases hrequest

/-- A connection that begins has no subscriptions, and a run of `doConnect` to register the watches
on it. -/
theorem Agrees.begun_on (hinv : n.Inv opts) (halone : OneAttempt n.client (.sockConnected i))
    (hs : step opts n.client (.sockConnected i) = some t) (hclient : n'.client = t) :
    n'.expected i = ∅ ∧ ∀ e, ∃ k, t.Registers k e := by
  obtain ⟨st, hst⟩ := hinv.lifecycle
  obtain ⟨-, hphase⟩ := idle_of_sockConnected opts hs
  refine ⟨?_, fun e => ?_⟩
  · have hwritten := (hinv.base halone hs n.arrived).fresh hinv (i := i) (Or.inl hphase)
    have hrequests : n'.requestsOn i = [] := by
      rw [requestsOn, hclient]
      exact congrArg (List.map Sent.frame) hwritten
    rw [Net.expected, hrequests]
    cases replies (n'.sent i) with
    | nil => rfl
    | cons p ps => rfl
  · obtain ⟨k, hk⟩ := sockConnected_connected opts hst hs
    exact ⟨k, Or.inl hk⟩

/-- What is expected is registered. -/
theorem Agrees.expected_next (h : n.Agrees) (hinv : n.Inv opts) (hp : Preserves opts n a)
    (hs : step opts n.client a = some t) (hsocket : n.client.socket = some i)
    (hclient : n'.client = t) (hsent : n'.sent = n.sent) :
    n'.expected i ⊆ t.registry.pairs := by
  have hwrites := step_writes hinv.waiters hs hsocket
  rw [expected_of_writes hwrites hinv hclient hsent]
  by_cases hresume : ∃ k, a = .resume k
  · obtain ⟨k, rfl⟩ := hresume
    rw [step_registry opts hs]
    exact ((h.within k).foldl _).2 (h.expected i hsocket)
  · rw [foldl_writes hs hp (fun k hk => hresume ⟨k, hk⟩) hsocket, pairs_step hs h.ordered hp]
    exact foldl_subscribe_mono (h.expected i hsocket) _

/-- What is registered is expected, or a run of `doConnect` has still to come to it. -/
theorem Agrees.registered_next (h : n.Agrees) (hinv : n.Inv opts) (hp : Preserves opts n a)
    (hs : step opts n.client a = some t) (hsocket : n.client.socket = some i)
    (hsocket' : t.socket = some i) (hclient : n'.client = t) (hsent : n'.sent = n.sent)
    {e : WatchEntry} (he : e ∈ t.watchCallbacks) :
    e.pair ∈ n'.expected i ∨ ∃ k, t.Registers k e := by
  have hwrites := step_writes hinv.waiters hs hsocket
  rw [expected_of_writes hwrites hinv hclient hsent]
  by_cases hresume : ∃ k, a = .resume k
  · obtain ⟨k, rfl⟩ := hresume
    have hsame : t.watchCallbacks = n.client.watchCallbacks :=
      congrArg Registry.entries (step_registry opts hs)
    have hold : e ∈ n.client.watchCallbacks := hsame ▸ he
    have hin : e.pair ∈ n.expected i →
        e.pair ∈ (n.client.resumes opts k).foldl subscribe (n.expected i) := fun hmem =>
      ((h.within k).foldl _).1 hmem
    rcases h.registered i hsocket e hold with hmem | ⟨j, hj⟩
    · exact Or.inl (hin hmem)
    · by_cases hjk : j = k
      · subst hjk
        simp only [step] at hs
        split at hs
        · rcases hj.resume h.ordered.sorted hold hs hsocket hsocket' with
            hwrite | hlater | ⟨pos, hbreaks, hpos⟩
          · exact Or.inl ((h.within j).mem_foldl hwrite _)
          · exact Or.inr ⟨j, hlater⟩
          · exact Or.inl (hin (hp.registered j pos i rfl hsocket hbreaks e hold hpos))
        · cases hs
      · exact Or.inr ⟨j, hj.stays h.begun hs fun heq => hjk (Action.resume.inj heq).symm⟩
  · have hnot : ∀ k, a ≠ .resume k := fun k hk => hresume ⟨k, hk⟩
    rw [foldl_writes hs hp hnot hsocket]
    rcases mem_of_step hs h.ordered he with ⟨hold, hkept⟩ | hnew
    · exact (h.registered i hsocket e hold).imp (hkept _) (Exists.imp fun k hk =>
        hk.stays h.begun hs (hnot k))
    · exact Or.inl (hnew _)

/-- A step of the client. -/
theorem Agrees.act (h : n.Agrees) (hinv : n.Inv opts) (halone : OneAttempt n.client a)
    (hp : Preserves opts n a) (hs : step opts n.client a = some t) (hclient : n'.client = t)
    (hsent : n'.sent = n.sent) : n'.Agrees := by
  subst hclient
  have hsocket : ∀ i, n'.client.socket = some i →
      n.client.socket = some i ∨ a = .sockConnected i := fun i hi =>
    (step_link opts hs).socket_some hi
  refine ⟨step_begun opts h.begun hs, ?_, fun w hw => h.queued_next hinv hp hs hw,
    fun i hi => ?_, fun i hi e he => ?_⟩
  · rw [step_registry opts hs]
    exact h.ordered.register opts a
  · rcases hsocket i hi with hold | rfl
    · exact h.expected_next hinv hp hs hold rfl hsent
    · rw [(begun_on hinv halone hs rfl).1]
      exact Finset.empty_subset _
  · rcases hsocket i hi with hold | rfl
    · exact h.registered_next hinv hp hs hold hi rfl hsent he
    · exact Or.inr ((begun_on hinv halone hs rfl).2 e)

/-- The server sends one more frame. -/
theorem Agrees.serve (h : n.Agrees) {f : ServerFrame}
    (hf : n.client.socket = some i → (n.serve i f).expected i = n.expected i) :
    (n.serve i f).Agrees := by
  have hsame : ∀ j, n.client.socket = some j → (n.serve i f).expected j = n.expected j := by
    intro j hj
    by_cases hij : j = i
    · subst hij
      exact hf hj
    · have hsent : (n.serve i f).sent j = n.sent j := by
        rw [serve_sent, if_neg hij, List.append_nil]
      unfold Net.expected
      rw [hsent]
      rfl
  refine ⟨h.begun, h.ordered, h.queued, fun j hj => ?_, fun j hj e he => ?_⟩
  · rw [hsame j hj]
    exact h.expected j hj
  · rw [hsame j hj]
    exact h.registered j hj e he

theorem preserves_sockData (n : Net) (i : ℕ) (chunk : List UInt8) :
    Preserves opts n (.sockData i chunk) := by
  have hnot : ∀ c : Subscription, ¬ c.Made opts (.sockData i chunk) := by
    rintro c ⟨hc, -⟩
    cases c with
    | watch key ns callback => cases hc
    | unwatch key ns => cases hc
  exact ⟨fun c hc => absurd hc (hnot c), fun c hc => absurd hc (hnot c),
    fun key ns hc => absurd hc (hnot _), fun k pos j hk => (by cases hk)⟩

theorem Agrees.next (h : n.Agrees) (hinv : n.Inv opts) {a : NetAction} (ha : Concurs opts n a)
    (hs : netStep opts n a = some n') : n'.Agrees := by
  cases a with
  | client a =>
      simp only [netStep, Option.ite_none_left_eq_some, Option.map_eq_some_iff] at hs
      obtain ⟨-, t, ht, rfl⟩ := hs
      exact h.act hinv ha.1.1 (ha.2.1 a rfl) ht rfl rfl
  | serve i f =>
      simp only [netStep, Option.ite_none_right_eq_some, Option.some.injEq] at hs
      obtain ⟨-, rfl⟩ := hs
      exact h.serve (ha.2.2 i f rfl)
  | arrive i k =>
      simp only [netStep, Option.map_eq_some_iff] at hs
      obtain ⟨t, ht, rfl⟩ := hs
      exact h.act hinv (show OneAttempt n.client (.sockData i (n.chunk i k)) from trivial)
        (preserves_sockData n i _) ht rfl rfl

/-- Nothing is expected of the server any more when nothing is in flight. -/
theorem Inv.expected_eq (hinv : n.Inv opts) (hsocket : n.client.socket = some i)
    (hin : n.client.inflight = []) : n.expected i = n.subscriptions i := by
  obtain ⟨orphans, hwaiting, -⟩ := (hinv.live i (Or.inl hsocket)).waiting
  rw [hin] at hwaiting
  have hnone := (List.append_eq_nil_iff.mp hwaiting.symm).1
  have hall := List.drop_eq_nil_iff.mp (List.map_eq_nil_iff.mp hnone)
  refine expected_eq_subscribed ?_ ∅
  rw [requestsOn, List.length_map]
  exact hall.trans (length_replies_take_le _ _)

end Net

/-- The watches of a client that is at rest are those of its server, in every run whose steps do not
set the two apart. -/
theorem watches_agree (opts : Options) : AgreesAtRest opts (Concurs opts) := by
  intro n hreach i hsocket hdone hin _
  obtain ⟨hinv, h⟩ : n.Inv opts ∧ n.Agrees := by
    refine hreach.invariant (I := fun n => n.Inv opts ∧ n.Agrees)
      ⟨Net.inv_init, Net.agrees_init⟩ fun n a n' h ha hs => ?_
    exact ⟨(h.1.next ha.1 hs).1, h.2.next h.1 ha hs⟩
  rw [← hinv.expected_eq hsocket hin]
  refine Finset.Subset.antisymm (fun q hq => ?_) (h.expected i hsocket)
  obtain ⟨e, he, rfl⟩ := Registry.mem_pairs.mp hq
  refine (h.registered i hsocket e he).resolve_right fun ⟨k, hk⟩ => ?_
  have hnot := hdone k
  rcases hk with hpc | ⟨w, hpc⟩ | ⟨pos, w, hpc, -⟩
  · rw [hpc] at hnot
    cases hnot
  · rw [hpc] at hnot
    cases hnot
  · rw [hpc] at hnot
    cases hnot

section Offline

/-- A client that connects again. -/
def reconnecting : Options :=
  { Options.defaults with autoReconnect := true }

/-- The answer of a server to a Watch. -/
def watchingPayload : Payload :=
  ⟨ServerResponse.watching.encode, Nat.le_of_ble_eq_true rfl⟩

/-- Attempts to connect do not overlap, and the server acknowledges a Watch. -/
def AnswersWatching (n : Net) : NetAction → Prop
  | .client a => OneAttempt n.client a
  | .serve _ f => f.payload.bytes = watchingPayload.bytes ∧ f.reply?.isSome = true
  | .arrive _ _ => True

instance (n : Net) (a : NetAction) : Decidable (AnswersWatching n a) :=
  match a with
  | .client b => inferInstanceAs (Decidable (OneAttempt n.client b))
  | .serve _ _ => inferInstanceAs (Decidable (_ ∧ _))
  | .arrive _ _ => isTrue trivial

theorem serves_answersWatching (n : Net) (a : NetAction) (h : AnswersWatching n a) :
    Serves reconnecting Recognised n a := by
  cases a with
  | client a => exact ⟨h, fun t _ _ => Or.inl rfl⟩
  | serve i f =>
      obtain ⟨hbytes, hreply⟩ := h
      have hdecode : decodeResponse watchingPayload.bytes = .ok .watching := rfl
      constructor
      · rintro ⟨name, value, version, hevent⟩
        rw [hbytes, hdecode] at hevent
        cases hevent
      · intro hnone
        rw [hnone] at hreply
        cases hreply
  | arrive i k => exact h

/-- A Watch that waits in the queue is written after it was taken back, and stays at the server. -/
theorem unwatched_stays_subscribed :
    ¬ AgreesAtRest reconnecting (Serves reconnecting Recognised) := by
  obtain ⟨n, hrun, hsocket, hdone, hin, hq, hpairs, hsubscribed⟩ : ∃ n,
      exec (netStep reconnecting) AnswersWatching Net.init
        [.client (.watch "k" none 0), .client (.unwatch "k" none), .client (.connect true),
          .client (.sockConnected 0), .client (.resume 0), .client (.resume 0),
          .serve 0 (.reply watchingPayload), .arrive 0 100, .client .round,
          .client .round] = some n ∧
      n.client.socket = some 0 ∧ (∀ k, (n.client.tasks k).pc.isDone = true) ∧
        n.client.inflight = [] ∧ n.client.offlineQueue = [] ∧ n.client.registry.pairs = ∅ ∧
          n.subscriptions 0 = {⟨none, "k"⟩} :=
    ⟨_, rfl, rfl, fun k => (match k with | 0 => rfl | _ + 1 => rfl), rfl, rfl, rfl, rfl⟩
  intro h
  have hagree := h n ⟨_, (run_of_exec hrun).mono serves_answersWatching⟩ 0 hsocket hdone hin hq
  rw [hpairs, hsubscribed] at hagree
  exact absurd hagree.symm (Finset.singleton_ne_empty _)

end Offline

end NodeTcp

end DittoClient
