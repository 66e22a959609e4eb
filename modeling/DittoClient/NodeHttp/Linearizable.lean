import DittoClient.Http.EndToEnd
import DittoClient.NodeHttp.Deletion
import DittoClient.NodeHttp.Store

/-!
# The Node.js HTTP client is linearizable

Whatever happens on the network, each call that returns a response of the service took effect there
during the call, at its last attempt (`operations_take_effect`).
-/

namespace DittoClient

namespace NodeHttp

open DittoClient.Linear
open DittoClient.Wire (Alphabet Letters Service latin)
open DittoClient.Transition

section System

variable {σ : Type*} {M : Service σ} (go : Letters) (java : Alphabet) (strict : Bool)
  (c : Settings) (respond : Wire.Request → Wire.ServerResponse → Http.Response)

/-- An operation is named by the last attempt of its call. Its result is what the client makes of
the response that its promise is resolved with. -/
def operations (M : Service σ) :
    View (Cluster M) M.toMachine (ℕ × ℕ) (Wire.Request × Option Http.Outcome) where
  log := Cluster.log
  invoked s k := k ∈ s.begun
  returned s k res := ∃ h y, s.calls[k.1]? = some (res.1, h) ∧ (k, y) ∈ s.done ∧
    res.2 = (Http.results .node).result res.1 y
  fits res q x := ∃ h, Http.send go java strict .node res.1 = some h ∧ h.read = some q ∧
    res.2 = (Http.results .node).result res.1 (respond q x)

/-- The promise of a request is in the attempt that was begun last, or was resolved with what the
service answered to that attempt. -/
def Promise.Traced (begun : List (ℕ × ℕ))
    (entries : List (Linear.Entry (ℕ × ℕ) Wire.Request Wire.ServerResponse)) (i : ℕ) :
    Promise Delivery → Prop
  | .fetching _ attempt => lastBegun begun i = some (i, attempt)
  | .resolved _ ⟨y, true⟩ => ∃ k, lastBegun begun i = some k ∧
      ∃ e ∈ entries, e.origin = some k ∧ y = respond e.request e.response
  | _ => True

/-- What holds in every run of a client with a service. -/
structure Cluster.Tracked (s : Cluster M) : Prop where
  length : s.client.requests.length = s.calls.length
  sends : ∀ x ∈ s.calls, Http.send go java strict .node x.1 = some x.2
  within : ∀ (i : ℕ) x p, s.calls[i]? = some x → s.client.requests[i]? = some p →
    p.Within c (requestInit x.2)
  begun : ∀ k ∈ s.begun, ∃ x, s.calls[k.1]? = some x ∧ k.2 ≤ retries c x.2
  once : s.log.origins.Nodup
  executed : ∀ k ∈ s.log.origins, k ∈ s.begun
  reads : ∀ e ∈ s.log.entries, ∀ k, e.origin = some k →
    ∃ x, s.calls[k.1]? = some x ∧ x.2.read = some e.request
  traced : ∀ (i : ℕ) p, s.client.requests[i]? = some p →
    p.Traced respond s.begun s.log.entries i

variable {go java strict c respond} {s t : Cluster M} {i : ℕ}

theorem Cluster.tracked_init (nowMs : ℕ) :
    (Cluster.init nowMs : Cluster M).Tracked go java strict c respond where
  length := rfl
  sends x hx := by cases hx
  within i x p hx hp := by cases hx
  begun k hk := by cases hk
  once := List.nodup_nil
  executed k hk := by cases hk
  reads e he := by cases he
  traced i p hp := by cases hp

/-- What is begun for other requests and executed does not matter to a promise. -/
theorem Promise.Traced.mono {begun new : List (ℕ × ℕ)}
    {entries entries' : List (Linear.Entry (ℕ × ℕ) Wire.Request Wire.ServerResponse)}
    {p : Promise Delivery} (h : p.Traced respond begun entries i)
    (hnew : ∀ k ∈ new, k.1 ≠ i) (hsub : entries ⊆ entries') :
    p.Traced respond (begun ++ new) entries' i := by
  simp only [Promise.Traced, lastBegun_append hnew] at h ⊢
  split
  · exact h
  · obtain ⟨k, hk, e, he, hrest⟩ := h
    exact ⟨k, hk, e, hsub he, hrest⟩
  · trivial

namespace Cluster.Tracked

variable (h : s.Tracked go java strict c respond)
include h

/-- A step of the client that changes the promise of one request, and may begin an attempt of it. -/
theorem of_set {u : Client Delivery} {p q : Promise Delivery} (new : List (ℕ × ℕ))
    (hi : s.client.requests[i]? = some q) (hu : u.requests = s.client.requests.set i p)
    (hp : ∀ x, s.calls[i]? = some x → q.Within c (requestInit x.2) → p.Within c (requestInit x.2))
    (htraced : p.Traced respond (s.begun ++ new) s.log.entries i)
    (hnew : ∀ k ∈ new, k.1 = i ∧ ∃ x, s.calls[k.1]? = some x ∧ k.2 ≤ retries c x.2) :
    ({ s with client := u, begun := s.begun ++ new } : Cluster M).Tracked
      go java strict c respond := by
  have hlt : i < s.client.requests.length := (List.getElem?_eq_some_iff.mp hi).1
  refine ⟨?_, h.sends, ?_, ?_, h.once, ?_, h.reads, ?_⟩
  · rw [hu, List.length_set]
    exact h.length
  · intro j x p' hx hp'
    rw [hu] at hp'
    rcases eq_or_ne i j with rfl | hne
    · rw [List.getElem?_set_self hlt] at hp'
      cases hp'
      exact hp x hx (h.within i x q hx hi)
    · rw [List.getElem?_set_ne hne] at hp'
      exact h.within j x p' hx hp'
  · intro k hk
    rcases List.mem_append.mp hk with hk | hk
    · exact h.begun k hk
    · exact (hnew k hk).2
  · exact fun k hk => List.mem_append_left _ (h.executed k hk)
  · intro j p' hp'
    rw [hu] at hp'
    rcases eq_or_ne i j with rfl | hne
    · rw [List.getElem?_set_self hlt] at hp'
      cases hp'
      exact htraced
    · rw [List.getElem?_set_ne hne] at hp'
      refine (h.traced j p' hp').mono (fun k hk hkj => ?_) (List.Subset.refl _)
      exact hne ((hnew k hk).1.symm.trans hkj)

/-- An attempt that ends is repeated, or settles its promise with its reply. -/
theorem of_reply {u : Client Delivery} {r : Reply Delivery} {jitter : ℕ}
    (hu : s.client.step c (.reply i r jitter) = some u)
    (htraced : r.promise.Traced respond s.begun s.log.entries i) :
    ({ s with client := u } : Cluster M).Tracked go java strict c respond := by
  obtain ⟨retries, attempt, p, hi, hset, hp⟩ := Client.requests_reply hu
  have hkept := h.of_set [] hi hset
  rw [List.append_nil] at hkept
  rcases hp with ⟨-, hretries, hlt, wakeMs, rfl⟩ | rfl
  · refine hkept (fun x hx hwithin => ⟨hwithin.1, ?_⟩) trivial nofun
    rw [budget, if_pos hretries]
    exact hlt
  · refine hkept (fun x hx hwithin => ?_) htraced nofun
    cases r <;> trivial

/-- A pause ends in another attempt. -/
theorem of_wake {u : Client Delivery} (hu : s.client.step c (.wake i) = some u) :
    ({ s with client := u, begun := s.begun ++ (u.running i).toList } : Cluster M).Tracked
      go java strict c respond := by
  obtain ⟨retried, attempt, wakeMs, hi, hset⟩ := Client.requests_wake hu
  have hlt : i < s.client.requests.length := (List.getElem?_eq_some_iff.mp hi).1
  have hrunning : u.running i = some (i, attempt) := by
    refine Client.running_eq_some.mpr ⟨retried, rfl, ?_⟩
    rw [hset, List.getElem?_set_self hlt]
  obtain ⟨x, hx⟩ : ∃ x, s.calls[i]? = some x :=
    ⟨_, List.getElem?_eq_getElem (h.length ▸ hlt)⟩
  obtain ⟨hretried, hle⟩ := h.within _ x _ hx hi
  rw [hrunning, Option.toList_some]
  refine h.of_set _ hi hset (fun x hx hwithin => hwithin) (lastBegun_concat rfl) fun k hk => ?_
  rw [List.mem_singleton.mp hk]
  exact ⟨rfl, x, hx, by rw [retries, ← hretried]; exact hle⟩

/-- An operation is called. -/
theorem of_call {u : Client Delivery} {r : Wire.Request} {x : Http.HttpRequest}
    (hx : Http.send go java strict .node r = some x)
    (hu : s.client.step c (.request (requestInit x)) = some u) :
    ({ s with
        client := u
        calls := s.calls ++ [(r, x)]
        begun := s.begun ++ (u.running s.calls.length).toList } : Cluster M).Tracked
      go java strict c respond := by
  obtain ⟨p, hrequests, hp⟩ := Client.requests_request hu
  have hlast : u.requests[s.calls.length]? = some p := by
    rw [hrequests, ← h.length, List.getElem?_concat_length]
  have hwithin : p.Within c (requestInit x) := by
    rcases hp with rfl | ⟨e, rfl⟩
    · exact ⟨rfl, Nat.zero_le _⟩
    · trivial
  have hcalls : ∀ {j : ℕ} {y}, s.calls[j]? = some y → (s.calls ++ [(r, x)])[j]? = some y := by
    intro j y hj
    rw [List.getElem?_append_left (List.getElem?_eq_some_iff.mp hj).1, hj]
  refine ⟨?_, ?_, ?_, ?_, h.once, ?_, ?_, ?_⟩
  · rw [hrequests, List.length_append, List.length_append, h.length]
    rfl
  · intro y hy
    rcases List.mem_append.mp hy with hy | hy
    · exact h.sends y hy
    · rw [List.mem_singleton.mp hy]
      exact hx
  · intro j y q hy hq
    rcases Nat.lt_or_ge j s.calls.length with hlt | hge
    · rw [hrequests, List.getElem?_append_left (h.length ▸ hlt)] at hq
      rw [List.getElem?_append_left hlt] at hy
      exact h.within j y q hy hq
    · obtain ⟨hj, -⟩ := List.getElem?_eq_some_iff.mp hy
      rw [List.length_append, List.length_singleton] at hj
      obtain rfl : j = s.calls.length := by omega
      rw [hlast] at hq
      rw [List.getElem?_concat_length] at hy
      cases hq
      cases hy
      exact hwithin
  · intro k hk
    rcases List.mem_append.mp hk with hk | hk
    · obtain ⟨y, hy, hle⟩ := h.begun k hk
      exact ⟨y, hcalls hy, hle⟩
    · obtain ⟨retried, hk, hrunning⟩ := Client.running_eq_some.mp (Option.mem_toList.mp hk)
      rw [hlast] at hrunning
      refine ⟨(r, x), by rw [hk, List.getElem?_concat_length], ?_⟩
      cases hrunning
      obtain ⟨hretried, hle⟩ := hwithin
      rw [retries, ← hretried]
      exact hle
  · intro k hk
    exact List.mem_append_left _ (h.executed k hk)
  · intro e he k hk
    obtain ⟨y, hy, hread⟩ := h.reads e he k hk
    exact ⟨y, hcalls hy, hread⟩
  · intro j q hq
    rcases Nat.lt_or_ge j s.calls.length with hlt | hge
    · rw [hrequests, List.getElem?_append_left (h.length ▸ hlt)] at hq
      refine (h.traced j q hq).mono (fun k hk => ?_) (List.Subset.refl _)
      obtain ⟨-, hk, -⟩ := Client.running_eq_some.mp (Option.mem_toList.mp hk)
      exact hk ▸ hlt.ne'
    · obtain ⟨hj, -⟩ := List.getElem?_eq_some_iff.mp hq
      rw [hrequests, List.length_append, List.length_singleton, h.length] at hj
      obtain rfl : j = s.calls.length := by omega
      rw [hlast] at hq
      cases hq
      rcases hp with rfl | ⟨e, rfl⟩
      · have hrunning : u.running s.calls.length = some (s.calls.length, 0) :=
          Client.running_eq_some.mpr ⟨_, rfl, hlast⟩
        rw [hrunning]
        exact lastBegun_concat rfl
      · trivial

/-- The service executes a request, of this client or of another one. -/
theorem of_record {o : Option (ℕ × ℕ)} {q : Wire.Request}
    (ho : ∀ k ∈ o, k ∈ s.begun ∧ k ∉ s.log.origins ∧
      ∃ x, s.calls[k.1]? = some x ∧ x.2.read = some q) :
    ({ s with log := s.log.record o q } : Cluster M).Tracked go java strict c respond where
  length := h.length
  sends := h.sends
  within := h.within
  begun := h.begun
  once := by
    rw [Log.origins_record]
    refine List.nodup_append'.mpr ⟨h.once, ?_, ?_⟩
    · cases o <;> simp
    · intro k hk hnew
      exact (ho k (Option.mem_toList.mp hnew)).2.1 hk
  executed k hk := by
    rw [Log.origins_record] at hk
    rcases List.mem_append.mp hk with hk | hk
    · exact h.executed k hk
    · exact (ho k (Option.mem_toList.mp hk)).1
  reads e he k hk := by
    rcases List.mem_append.mp he with he | he
    · exact h.reads e he k hk
    · rw [List.mem_singleton.mp he] at hk ⊢
      exact (ho k hk).2.2
  traced i p hp := by
    rw [← List.append_nil s.begun]
    exact (h.traced i p hp).mono nofun (List.subset_append_left _ _)

/-- The response of the service arrives at the attempt that was begun last. -/
theorem of_answer {u : Client Delivery} {k : ℕ × ℕ} {y : Http.Response} {jitter : ℕ}
    (hk : s.client.running i = some k) (hy : response respond s.log k = some y)
    (hu : s.client.step c (.reply i (.response y.status ⟨y, true⟩) jitter) = some u) :
    ({ s with client := u } : Cluster M).Tracked go java strict c respond := by
  obtain ⟨retried, rfl, hrunning⟩ := Client.running_eq_some.mp hk
  obtain ⟨e, he, rfl⟩ := Option.map_eq_some_iff.mp hy
  have horigin := List.find?_some he
  exact h.of_reply hu ⟨k, h.traced _ _ hrunning, e, List.mem_of_find?_eq_some he,
    of_decide_eq_true horigin, rfl⟩

/-- Every step keeps the invariant, and what was executed and called stays. -/
theorem step {a : ClusterAction} (ha : clusterStep go java strict c respond s a = some t) :
    t.Tracked go java strict c respond ∧ s.log.entries <+: t.log.entries ∧
      s.calls <+: t.calls := by
  have hsame : s.log.entries <+: s.log.entries ∧ s.calls <+: s.calls :=
    ⟨List.prefix_refl _, List.prefix_refl _⟩
  cases a with
  | tick ms =>
      rw [clusterStep] at ha
      obtain ⟨u, hu, rfl⟩ := Option.map_eq_some_iff.mp ha
      have hrequests := Client.requests_tick hu
      refine ⟨⟨?_, h.sends, ?_, h.begun, h.once, h.executed, h.reads, ?_⟩, hsame⟩
      · rw [hrequests]
        exact h.length
      · rw [hrequests]
        exact h.within
      · rw [hrequests]
        exact h.traced
  | call r =>
      simp only [clusterStep] at ha
      split at ha
      · cases ha
        exact ⟨h, hsame⟩
      · next x hx =>
          obtain ⟨u, hu, rfl⟩ := Option.map_eq_some_iff.mp ha
          exact ⟨h.of_call hx hu, hsame.1, List.prefix_append _ _⟩
  | wake i =>
      rw [clusterStep] at ha
      obtain ⟨u, hu, rfl⟩ := Option.map_eq_some_iff.mp ha
      exact ⟨h.of_wake hu, hsame⟩
  | execute k =>
      rw [clusterStep] at ha
      obtain ⟨x, hx, ha⟩ := Option.bind_eq_some_iff.mp ha
      obtain ⟨q, hq, ha⟩ := Option.bind_eq_some_iff.mp ha
      split at ha
      · next hk =>
          cases ha
          refine ⟨h.of_record fun k' hk' => ?_, s.log.prefix_record _ _, hsame.2⟩
          cases hk'
          exact ⟨hk.1, hk.2, x, hx, hq⟩
      · cases ha
  | answer i jitter =>
      rw [clusterStep] at ha
      obtain ⟨k, hk, ha⟩ := Option.bind_eq_some_iff.mp ha
      obtain ⟨y, hy, ha⟩ := Option.bind_eq_some_iff.mp ha
      obtain ⟨u, hu, ha⟩ := Option.bind_eq_some_iff.mp ha
      cases ha
      exact ⟨h.of_answer hk hy hu, hsame⟩
  | lose i r jitter =>
      simp only [clusterStep] at ha
      obtain ⟨u, hu, rfl⟩ := Option.map_eq_some_iff.mp ha
      refine ⟨h.of_reply hu ?_, hsame⟩
      cases r <;> trivial
  | other q =>
      cases ha
      exact ⟨h.of_record nofun, s.log.prefix_record _ _, hsame.2⟩

/-- A response that was returned is one that the service gave to the attempt. -/
theorem answered {d : (ℕ × ℕ) × Http.Response} (hd : d ∈ s.done) :
    ∃ e ∈ s.log.entries, e.origin = some d.1 ∧ d.2 = respond e.request e.response := by
  obtain ⟨status, hi, hk⟩ := Cluster.returned_eq_some.mp (Cluster.mem_done.mp hd)
  obtain ⟨k, hk', hanswered⟩ := h.traced _ _ hi
  rw [hk] at hk'
  cases hk'
  exact hanswered

/-- A call that was answered has its answer in the log. -/
theorem fits {k : ℕ × ℕ} {res : Wire.Request × Option Http.Outcome}
    (hreturned : (operations go java strict respond M).returned s k res) :
    ∃ e ∈ s.log.entries, e.origin = some k ∧
      (operations go java strict respond M).fits res e.request e.response := by
  obtain ⟨x, y, hx, hdone, hres⟩ := hreturned
  obtain ⟨e, he, hk, hy⟩ := h.answered hdone
  obtain ⟨x', hx', hread⟩ := h.reads e he k hk
  rw [hx] at hx'
  cases hx'
  refine ⟨e, he, hk, x, h.sends _ (List.mem_of_getElem? hx), hread, ?_⟩
  rw [hres, ← hy]

theorem accounts : (operations go java strict respond M).Accounts s where
  once := h.once
  called := h.executed
  answered _ _ hreturned := h.fits hreturned

/-- A request is executed once for each of its attempts at most. -/
theorem executions_le {x : Wire.Request × Http.HttpRequest} (hx : s.calls[i]? = some x) :
    s.executions i ≤ retries c x.2 + 1 := by
  have hbegun : ∀ k ∈ s.log.origins, decide (k.1 = i) = true →
      k ∈ (List.range (retries c x.2 + 1)).map fun n => (i, n) := by
    rintro ⟨j, n⟩ hk hj
    obtain rfl : j = i := of_decide_eq_true hj
    obtain ⟨x', hx', hle⟩ := h.begun _ (h.executed _ hk)
    rw [hx] at hx'
    cases hx'
    exact List.mem_map.mpr ⟨n, List.mem_range.mpr (Nat.lt_succ_of_le hle), rfl⟩
  have hle := s.log.countP_origins_le h.once _ hbegun
  rwa [List.length_map, List.length_range] at hle

/-- A call that has returned a response was executed. -/
theorem executions_pos {d : (ℕ × ℕ) × Http.Response} (hd : d ∈ s.done) :
    0 < s.executions d.1.1 := by
  obtain ⟨e, he, hk, -⟩ := h.answered hd
  exact List.countP_pos_iff.mpr ⟨d.1, Log.mem_origins he hk, decide_eq_true rfl⟩

end Cluster.Tracked

/-- The states that a client and a service get into. -/
abbrev Reaches (go : Letters) (java : Alphabet) (strict : Bool) (c : Settings)
    (respond : Wire.Request → Wire.ServerResponse → Http.Response) (s t : Cluster M) : Prop :=
  Reachable (clusterStep go java strict c respond) (fun _ _ => True) s t

theorem Reaches.tracked {nowMs : ℕ}
    (h : Reaches go java strict c respond (Cluster.init nowMs) s) :
    s.Tracked go java strict c respond :=
  h.invariant (Cluster.tracked_init nowMs) fun _ _ _ hs _ ha => (hs.step ha).1

/-- What was executed and called stays. -/
theorem Reaches.grows (hs : s.Tracked go java strict c respond)
    (h : Reaches go java strict c respond s t) :
    t.Tracked go java strict c respond ∧ s.log.entries <+: t.log.entries ∧
      s.calls <+: t.calls := by
  refine h.invariant (I := fun u => u.Tracked go java strict c respond ∧
    s.log.entries <+: u.log.entries ∧ s.calls <+: u.calls)
    ⟨hs, List.prefix_refl _, List.prefix_refl _⟩ fun u a v hu _ ha => ?_
  obtain ⟨hv, hlog, hcalls⟩ := hu.1.step ha
  exact ⟨hv, hu.2.1.trans hlog, hu.2.2.trans hcalls⟩

/-- In every run, whatever is lost or late, each call that returns a response of the service took
effect there during the call, once at its last attempt. -/
theorem operations_take_effect (go : Letters) (java : Alphabet) (strict : Bool) (c : Settings)
    (respond : Wire.Request → Wire.ServerResponse → Http.Response) (M : Service σ) (nowMs : ℕ) :
    (operations go java strict respond M).Linearizable (clusterStep go java strict c respond)
      (fun _ _ => True) (Cluster.init nowMs) := by
  refine View.linearizable_of_invariant (fun s => s.Tracked go java strict c respond)
    (Cluster.tracked_init nowMs) (fun s a t hs _ ha => ?_) fun s hs => hs.accounts
  obtain ⟨ht, hgrow, -⟩ := hs.step ha
  exact ⟨ht, hgrow⟩

end System

end NodeHttp

end DittoClient
