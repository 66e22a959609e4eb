import DittoClient.Linear.History
import DittoClient.NodeTcp.Pairing
import DittoClient.Wire.Service

/-!
# A client and the service it reaches

The server reads the requests of a connection in the order in which they were written, and hands
each of them to the service, whose response it puts on the connection (`Cluster`). Other clients
make requests in between, and watch events are pushed at any time. What the server has answered is
the log of the service, in which a request of the client is named by its waiter (`Cluster.Tracked`).
-/

namespace DittoClient

namespace NodeTcp

open DittoClient.Linear
open DittoClient.LockStep
open DittoClient.Octets
open DittoClient.Wire
open DittoClient.Transition

/-- A client with its connections, and what the service behind them has served. -/
structure Cluster {σ : Type*} (M : Service σ) where
  net : Net
  log : Log M.toMachine ℕ

/-- A step of the client that is not the arrival of data, the arrival of up to `n` bytes, the next
request of a connection is answered, a frame is pushed, or another client makes a request. -/
inductive ClusterAction
  | client (a : Action)
  | arrive (i n : ℕ)
  | answer (i : ℕ)
  | push (i : ℕ) (p : Payload)
  | other (r : Request)

variable {σ : Type*} {M : Service σ} (opts : Options)

namespace Cluster

def init : Cluster M where
  net := Net.init
  log := Log.empty

/-- The next request of a connection that the server has not answered. -/
def next (s : Cluster M) (i : ℕ) : Option Sent :=
  (s.net.client.writtenOn i)[(replies (s.net.sent i)).length]?

/-- The answer to a request, after all that was served before. -/
def reply (s : Cluster M) (r : Request) : ServerFrame :=
  .reply (M.payload (M.after s.log.entries) r)

end Cluster

def clusterStep (s : Cluster M) : ClusterAction → Option (Cluster M)
  | .client a => (netStep opts s.net (.client a)).map fun n => { s with net := n }
  | .arrive i n => (netStep opts s.net (.arrive i n)).map fun n => { s with net := n }
  | .answer i => do
      let x ← s.next i
      let r ← nodeEncoder.reads x.frame
      let n ← netStep opts s.net (.serve i (s.reply r))
      some ⟨n, s.log.record (some x.waiter) r⟩
  | .push i p => (netStep opts s.net (.serve i (.push p))).map fun n => { s with net := n }
  | .other r => some { s with log := s.log.record none r }

/-- The client is not disturbed, and the frames that are pushed hold watch events with a version
that is a safe integer. -/
def Orderly (s : Cluster M) : ClusterAction → Prop
  | .client a => Undisturbed opts s.net.client a
  | .push _ p => SafelyFormed (.push p)
  | _ => True

/-- A client between two steps. -/
structure Net.Advances (n n' : Net) : Prop where
  sent : ∀ i, n.sent i <+: n'.sent i
  written : ∀ i, n.client.writtenOn i <+: n'.client.writtenOn i
  received : n.client.received <+: n'.client.received
  nextWaiter : n.client.nextWaiter ≤ n'.client.nextWaiter

/-- A waiter that has a response was shifted for a frame with this response. -/
def State.Replied (s : State) : Prop :=
  ∀ w < s.nextWaiter, ∀ r, (s.waiters w).outcomes.head? = some (.resolved r) →
    ∃ d ∈ s.received, d.waiter = some w ∧ decodeResponse d.payload = .ok r

section Client

variable {opts} {s t : State} {a : Action}

/-- A waiter that is new in a step has no response yet. -/
theorem Ledger.unanswered (hs : Ledger opts s a t) {w : ℕ} (hlo : s.nextWaiter ≤ w)
    (hhi : w < t.nextWaiter) : (t.waiters w).outcomes = [] := by
  have hnone : t.nextWaiter = s.nextWaiter → (t.waiters w).outcomes = [] := fun h => by omega
  have hnew : ∀ {owner : Owner} {req : Request}, s.Adds t owner req →
      (t.waiters w).outcomes = [] := by
    intro owner req hadds
    have hnext := hadds.nextWaiter
    obtain rfl : w = s.nextWaiter := by omega
    exact hadds.outcomes
  cases hs with
  | kept _ hset _ => exact hnone hset.nextWaiter
  | lost _ hset _ => exact hnone hset.nextWaiter
  | read _ hset => exact hnone hset.nextWaiter
  | queued _ _ _ _ hadds _ _ _ => exact hnew hadds
  | sent _ _ hadds _ _ _ => exact hnew hadds
  | unsent _ _ _ hadds _ _ _ => exact hnew hadds
  | flushed _ _ hknows _ _ _ => exact hnone hknows.nextWaiter

theorem State.Replied.step (h : s.Replied) (hw : WaiterInv s) (hs : step opts s a = some t) :
    t.Replied := by
  intro w hlt r hout
  have hledger := step_ledger opts hw hs
  obtain ⟨hreceived, -⟩ := step_received opts hw hs
  rcases Nat.lt_or_ge w s.nextWaiter with hold | hnew
  · -- the response was there, or the waiter has been shifted for it
    have hkept : (s.waiters w).outcomes.head? = some (.resolved r) →
        ∃ d ∈ t.received, d.waiter = some w ∧ decodeResponse d.payload = .ok r := by
      intro hsame
      obtain ⟨d, hd, hdw⟩ := h w hold r hsame
      exact ⟨d, hreceived.subset hd, hdw⟩
    have hset : s.Settles t →
        ∃ d ∈ t.received, d.waiter = some w ∧ decodeResponse d.payload = .ok r := by
      intro hset
      rcases hset.replied w r hout with hsame | ⟨d, hd, hdw⟩
      · exact hkept hsame
      · exact ⟨d, List.mem_of_mem_drop hd, hdw⟩
    have hadds : ∀ {owner : Owner} {req : Request}, s.Adds t owner req →
        ∃ d ∈ t.received, d.waiter = some w ∧ decodeResponse d.payload = .ok r := by
      intro owner req hadds
      refine hkept ?_
      rwa [hadds.others w (Nat.ne_of_lt hold)] at hout
    cases hledger with
    | kept _ hst _ => exact hset hst
    | lost _ hst _ => exact hset hst
    | read _ hst => exact hset hst
    | queued _ _ _ _ hadd _ _ _ => exact hadds hadd
    | sent _ _ hadd _ _ _ => exact hadds hadd
    | unsent _ _ _ hadd _ _ _ => exact hadds hadd
    | flushed _ _ hknows _ _ _ => exact hkept (hknows.outcomes w ▸ hout)
  · rw [hledger.unanswered hnew hlt] at hout
    cases hout

end Client

section Net

variable {opts} {n n' : Net} {a : NetAction}

theorem Net.Advances.of_step {b : Action} {s : State} (hw : WaiterInv n.client)
    (hs : step opts n.client b = some s) (hclient : n'.client = s) (hsent : n'.sent = n.sent) :
    n.Advances n' where
  sent i := hsent ▸ List.prefix_refl _
  written i := by
    obtain ⟨new, hwire, -⟩ := (step_ledger opts hw hs).wire_append
    rw [hclient, writtenOn_append hwire]
    exact List.prefix_append _ _
  received := hclient ▸ (step_received opts hw hs).1
  nextWaiter := hclient ▸ (step_ledger opts hw hs).nextWaiter_le

/-- What a step of a client and its server keeps. -/
theorem netStep_advances (hinv : n.Inv opts) (hr : n.client.Replied)
    (hs : netStep opts n a = some n') : n.Advances n' ∧ n'.client.Replied := by
  cases a with
  | client b =>
      simp only [netStep, Option.ite_none_left_eq_some, Option.map_eq_some_iff] at hs
      obtain ⟨-, s, hs, rfl⟩ := hs
      exact ⟨.of_step hinv.waiters hs rfl rfl, hr.step hinv.waiters hs⟩
  | serve i f =>
      simp only [netStep, Option.ite_none_right_eq_some, Option.some.injEq] at hs
      obtain ⟨-, rfl⟩ := hs
      refine ⟨⟨fun j => ?_, fun _ => List.prefix_refl _, List.prefix_refl _, le_rfl⟩, hr⟩
      rw [Net.serve_sent]
      exact List.prefix_append _ _
  | arrive i k =>
      simp only [netStep, Option.map_eq_some_iff] at hs
      obtain ⟨s, hs, rfl⟩ := hs
      exact ⟨.of_step hinv.waiters hs rfl rfl, hr.step hinv.waiters hs⟩

/-- An answer is the one behind the answers that were sent before it. -/
theorem getElem?_replies {fs : List ServerFrame} {j : ℕ} {p : Payload}
    (h : fs[j]? = some (.reply p)) : (replies fs)[(replies (fs.take j)).length]? = some p := by
  obtain ⟨hlt, hget⟩ := List.getElem?_eq_some_iff.mp h
  have hsplit : replies fs = replies (fs.take j) ++ p :: replies (fs.drop (j + 1)) := by
    conv_lhs => rw [← List.take_append_drop j fs]
    rw [List.drop_eq_getElem_cons hlt, hget, replies_append]
    rfl
  rw [hsplit, List.getElem?_append_right le_rfl, Nat.sub_self]
  rfl

theorem getElem?_mono {β : Type*} {l l' : List β} (h : l <+: l') {k : ℕ} {x : β}
    (hk : l[k]? = some x) : l'[k]? = some x := by
  obtain ⟨more, rfl⟩ := h
  rw [List.getElem?_append_left (List.getElem?_eq_some_iff.mp hk).1, hk]

/-- A waiter has one place on one connection. -/
theorem written_unique (hw : WaiterInv n.client) {i j k l : ℕ} {x y : Sent}
    (hx : (n.client.writtenOn i)[k]? = some x) (hy : (n.client.writtenOn j)[l]? = some y)
    (hxy : x.waiter = y.waiter) : i = j ∧ k = l := by
  have hmem : ∀ {i k : ℕ} {x : Sent}, (n.client.writtenOn i)[k]? = some x →
      x ∈ n.client.wire ∧ x.sock = i := by
    intro i k x hx
    obtain ⟨hin, hsock⟩ := List.mem_filter.mp (List.mem_of_getElem? hx)
    exact ⟨hin, of_decide_eq_true hsock⟩
  obtain ⟨hxin, rfl⟩ := hmem hx
  obtain ⟨hyin, rfl⟩ := hmem hy
  obtain rfl : x = y := List.inj_on_of_nodup_map hw.once hxin hyin hxy
  refine ⟨rfl, ?_⟩
  have hnodup : (n.client.writtenOn x.sock).Nodup := (hw.once.of_map _).filter _
  obtain ⟨hk, hkx⟩ := List.getElem?_eq_some_iff.mp hx
  obtain ⟨hl, hly⟩ := List.getElem?_eq_some_iff.mp hy
  exact hnodup.getElem_inj_iff.mp (hkx.trans hly.symm)

end Net

end NodeTcp

end DittoClient
