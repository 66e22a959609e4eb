import DittoClient.NodeTcp.Pairing
import DittoClient.NodeTcp.Rollback
import Mathlib.Data.Finset.Dedup
import Mathlib.Data.Finset.Erase
import Mathlib.Data.Finset.Insert

/-!
# The subscriptions of a connection

A server keeps for each connection the entries that it has acknowledged a Watch for, until it
acknowledges an Unwatch. With the requests that it has not answered yet, taken to be acknowledged,
this is what the client expects it to keep. The client itself keeps the entries in its map of
callbacks, which is a set of entries as long as no name stands for two of them.
-/

namespace DittoClient

namespace NodeTcp

open DittoClient.Octets
open DittoClient.Wire
open DittoClient.Transition

/-- What an acknowledged request makes of the subscriptions. -/
def subscribe (S : Finset Pair) : Request → Finset Pair
  | .watch key ns => insert ⟨ns, key⟩ S
  | .unwatch key ns => S.erase ⟨ns, key⟩
  | _ => S

/-- Whether a response acknowledges a Watch or an Unwatch. -/
def acknowledges : Request → ClientResponse → Bool
  | .watch _ _, .watching => true
  | .unwatch _ _, .unwatched => true
  | _, _ => false

/-- What a request with its answer makes of the subscriptions. -/
def answer (S : Finset Pair) (req : Request) (p : Payload) : Finset Pair :=
  match decodeResponse p.bytes with
  | .ok r => if acknowledges req r then subscribe S req else S
  | .error _ => S

/-- The subscriptions after some requests and the answers to the first ones of them. -/
def subscribed (S : Finset Pair) : List Request → List Payload → Finset Pair
  | req :: reqs, p :: ps => subscribed (answer S req p) reqs ps
  | _, _ => S

/-- The same, when the requests that are not answered yet are acknowledged. -/
def expected (S : Finset Pair) : List Request → List Payload → Finset Pair
  | [], _ => S
  | req :: reqs, [] => expected (subscribe S req) reqs []
  | req :: reqs, p :: ps => expected (answer S req p) reqs ps

section Subscribing

theorem expected_nil (S : Finset Pair) (reqs : List Request) :
    expected S reqs [] = reqs.foldl subscribe S := by
  induction reqs generalizing S with
  | nil => rfl
  | cons req reqs ih => exact ih (subscribe S req)

/-- What is written behind the answered requests is taken to be acknowledged. -/
theorem expected_append {reqs : List Request} {ps : List Payload} (h : ps.length ≤ reqs.length)
    (S : Finset Pair) (new : List Request) :
    expected S (reqs ++ new) ps = new.foldl subscribe (expected S reqs ps) := by
  induction reqs generalizing S ps with
  | nil =>
      cases ps with
      | nil => exact expected_nil S new
      | cons p ps => cases h
  | cons req reqs ih =>
      cases ps with
      | nil => exact ih (Nat.zero_le _) (subscribe S req)
      | cons p ps => exact ih (Nat.le_of_succ_le_succ h) (answer S req p)

/-- When all requests are answered, what is expected is what the server has. -/
theorem expected_eq_subscribed {reqs : List Request} {ps : List Payload}
    (h : reqs.length ≤ ps.length) (S : Finset Pair) :
    expected S reqs ps = subscribed S reqs ps := by
  induction reqs generalizing S ps with
  | nil =>
      cases ps with
      | nil => rfl
      | cons p ps => rfl
  | cons req reqs ih =>
      cases ps with
      | nil => cases h
      | cons p ps => exact ih (Nat.le_of_succ_le_succ h) (answer S req p)

/-- The requests subscribe to nothing but entries of a set. -/
def Within (R : Finset Pair) (reqs : List Request) : Prop :=
  ∀ req ∈ reqs, (∀ key ns, req ≠ .unwatch key ns) ∧
    ∀ key ns, req = .watch key ns → (⟨ns, key⟩ : Pair) ∈ R

theorem Within.subscribe {R : Finset Pair} {reqs : List Request} {req : Request}
    (h : Within R reqs) (hreq : req ∈ reqs) (S : Finset Pair) :
    S ⊆ subscribe S req ∧ (S ⊆ R → NodeTcp.subscribe S req ⊆ R) := by
  obtain ⟨hunwatch, hwatch⟩ := h req hreq
  cases req with
  | watch key ns =>
      exact ⟨Finset.subset_insert _ _, fun hS => Finset.insert_subset (hwatch key ns rfl) hS⟩
  | unwatch key ns => exact absurd rfl (hunwatch key ns)
  | _ => exact ⟨subset_rfl, fun hS => hS⟩

theorem Within.foldl {R : Finset Pair} {reqs : List Request} (h : Within R reqs)
    (S : Finset Pair) :
    S ⊆ reqs.foldl NodeTcp.subscribe S ∧ (S ⊆ R → reqs.foldl NodeTcp.subscribe S ⊆ R) := by
  induction reqs generalizing S with
  | nil => exact ⟨subset_rfl, fun hS => hS⟩
  | cons req reqs ih =>
      obtain ⟨hgrows, hwithin⟩ := h.subscribe List.mem_cons_self S
      have htail : Within R reqs := fun req hreq => h req (List.mem_cons_of_mem _ hreq)
      obtain ⟨hgrows', hwithin'⟩ := ih htail (NodeTcp.subscribe S req)
      exact ⟨hgrows.trans hgrows', fun hS => hwithin' (hwithin hS)⟩

end Subscribing

namespace Net

/-- The requests that were written on a connection. -/
def requestsOn (n : Net) (i : ℕ) : List Request :=
  (n.client.writtenOn i).map Sent.frame

/-- The entries that the server has acknowledged on a connection. -/
def subscriptions (n : Net) (i : ℕ) : Finset Pair :=
  subscribed ∅ (n.requestsOn i) (replies (n.sent i))

/-- The entries that the client expects the server to acknowledge. -/
def expected (n : Net) (i : ℕ) : Finset Pair :=
  NodeTcp.expected ∅ (n.requestsOn i) (replies (n.sent i))

end Net

/-- The entry that was registered. -/
def WatchEntry.pair (e : WatchEntry) : Pair :=
  ⟨e.ns, e.key⟩

/-- The entry that a call is about. -/
def Subscription.pair : Subscription → Pair
  | .watch key ns _ => Pair.of key ns
  | .unwatch key ns => Pair.of key ns

namespace Registry

/-- The registered entries. -/
def pairs (r : Registry) : Finset Pair :=
  (r.entries.map WatchEntry.pair).toFinset

/-- The registrations have the names of their entries, and are numbered in their order. -/
structure Ordered (r : Registry) : Prop where
  named : ∀ e ∈ r.entries, e.name = e.pair.name
  sorted : r.entries.Pairwise fun d e => d.index < e.index
  bound : ∀ e ∈ r.entries, e.index < r.nextWatch

variable {r : Registry} {q : Pair} {callback : ℕ}

@[simp] theorem mem_pairs {q : Pair} : q ∈ r.pairs ↔ ∃ e ∈ r.entries, e.pair = q := by
  simp [pairs]

/-- The registration of an entry under its name. -/
def watch (r : Registry) (q : Pair) (callback : ℕ) : Registry :=
  r.set q.name ⟨q.key, q.ns, callback⟩

/-- The other registrations stay. -/
theorem mem_watch_of_ne {e : WatchEntry} (h : e ∈ r.entries) (hname : e.name ≠ q.name) :
    e ∈ (r.watch q callback).entries := by
  unfold watch set
  split
  · exact List.mem_map.mpr ⟨e, h, if_neg hname⟩
  · exact List.mem_append_left _ h

theorem pair_of_registration {e : WatchEntry} (h : e.registration = ⟨q.key, q.ns, callback⟩) :
    e.pair = q := by
  obtain ⟨hkey, hns, -⟩ := Registration.mk.inj h
  rw [WatchEntry.pair, hkey, hns]

theorem exists_mem_watch : ∃ e ∈ (r.watch q callback).entries, e.pair = q := by
  have hget := r.get_set q.name ⟨q.key, q.ns, callback⟩ q.name
  rw [if_pos rfl] at hget
  obtain ⟨e, hfind, hreg⟩ := Option.map_eq_some_iff.mp hget
  exact ⟨e, List.mem_of_find?_eq_some hfind, pair_of_registration hreg⟩

theorem pair_of_mem_watch {e : WatchEntry} (h : e ∈ (r.watch q callback).entries) :
    e.pair = q ∨ e.name ≠ q.name ∧ e ∈ r.entries := by
  refine (r.mem_set h).imp_left fun ⟨_, hreg⟩ => ?_
  exact pair_of_registration hreg

/-- If its name stands for no other entry, an entry is added. -/
theorem pairs_watch (h : ∀ e ∈ r.entries, e.name = q.name → e.pair = q) :
    (r.watch q callback).pairs = insert q r.pairs := by
  ext d
  simp only [mem_pairs, Finset.mem_insert]
  constructor
  · rintro ⟨e, he, rfl⟩
    exact (pair_of_mem_watch he).imp_right fun hold => ⟨e, hold.2, rfl⟩
  · rintro (rfl | ⟨e, he, rfl⟩)
    · exact exists_mem_watch
    · by_cases hname : e.name = q.name
      · rw [h e he hname]
        exact exists_mem_watch
      · exact ⟨e, mem_watch_of_ne he hname, rfl⟩

/-- If its name stands for no other entry, an entry is removed. -/
theorem pairs_delete (hr : r.Ordered) (h : ∀ e ∈ r.entries, e.name = q.name → e.pair = q) :
    (r.delete q.name).pairs = r.pairs.erase q := by
  ext d
  simp only [mem_pairs, Finset.mem_erase]
  constructor
  · rintro ⟨e, he, rfl⟩
    obtain ⟨hname, hmem⟩ := r.mem_delete he
    refine ⟨fun hq => hname ?_, e, hmem, rfl⟩
    rw [hr.named e hmem, hq]
  · rintro ⟨hne, e, he, rfl⟩
    exact ⟨e, List.mem_filter.mpr ⟨he, decide_eq_true fun hname => hne (h e he hname)⟩, rfl⟩

theorem Ordered.watch (hr : r.Ordered) (q : Pair) (callback : ℕ) :
    (r.watch q callback).Ordered := by
  unfold Registry.watch set
  split
  · have hindex : ∀ e : WatchEntry, (if e.name = q.name then
        { e with key := q.key, ns := q.ns, callback := callback } else e).index = e.index :=
      fun e => by split <;> rfl
    refine ⟨fun e he => ?_, ?_, fun e he => ?_⟩
    · obtain ⟨d, hd, rfl⟩ := List.mem_map.mp he
      split
      · next hname => exact hname
      · exact hr.named d hd
    · refine List.pairwise_map.mpr (hr.sorted.imp fun hlt => ?_)
      rw [hindex, hindex]
      exact hlt
    · obtain ⟨d, hd, rfl⟩ := List.mem_map.mp he
      rw [hindex]
      exact hr.bound d hd
  · refine ⟨fun e he => ?_, ?_, fun e he => ?_⟩
    · rcases List.mem_append.mp he with he | he
      · exact hr.named e he
      · rw [List.mem_singleton.mp he]
        rfl
    · refine List.pairwise_append.mpr ⟨hr.sorted, List.pairwise_singleton _ _, fun d hd e he => ?_⟩
      rw [List.mem_singleton.mp he]
      exact hr.bound d hd
    · rcases List.mem_append.mp he with he | he
      · exact Nat.lt_succ_of_lt (hr.bound e he)
      · rw [List.mem_singleton.mp he]
        exact Nat.lt_succ_self _

theorem Ordered.delete (hr : r.Ordered) (name : String) : (r.delete name).Ordered where
  named e he := hr.named e (r.mem_delete he).2
  sorted := hr.sorted.filter _
  bound e he := hr.bound e (r.mem_delete he).2

/-- The map stays a map of entries, whatever is called. -/
theorem Ordered.register (hr : r.Ordered) (opts : Options) (a : Action) :
    (a.register opts r).Ordered := by
  cases a with
  | watch key ns callback =>
      simp only [Action.register]
      split
      · exact hr.watch (Pair.of key ns) callback
      · exact hr
  | unwatch key ns =>
      simp only [Action.register]
      split
      · exact hr.delete _
      · exact hr
  | _ => exact hr

end Registry

end NodeTcp

end DittoClient
