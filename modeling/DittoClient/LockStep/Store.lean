import DittoClient.Linear.History
import DittoClient.LockStep.Handing
import DittoClient.LockStep.Pairing
import DittoClient.Wire.Service

/-!
# A lock-step client and the service it reaches

During a call the server reads frames of the connections of the client, each connection in its
order, and hands the requests in them to the service; requests of other clients come in between.
What it answers on a connection are the responses of the service to the frames with the same
numbers (`Cluster.Answers`). A frame may also be read in a later call than the one that wrote it,
or never.
-/

namespace DittoClient

namespace LockStep

open DittoClient.Linear
open DittoClient.Octets
open DittoClient.Protobuf
open DittoClient.Wire
open DittoClient.Program
open DittoClient.Transition

/-- The requests that the server has received completely. -/
def Connection.requests (c : Connection) : List Request :=
  (c.written.filter Written.complete).map Written.frame

/-- A call that has returned, with the connection and the number of its last frame. -/
structure Done where
  conn : ℕ
  number : ℕ
  call : Call
  result : Result

/-- A client with its connections, what the service behind them has served, and the calls that have
returned. A request of the client is named by its connection and its number. -/
structure Cluster (φ : Type) {σ : Type*} (M : Service σ) where
  world : World φ
  log : Log M.toMachine (ℕ × ℕ)
  done : List Done

/-- The server reads the next frame of a connection, or another client makes a request. -/
inductive Turn
  | next (i : ℕ)
  | other (r : Request)

/-- A call, what it meets, and what the service serves meanwhile. -/
structure ServedCall (φ : Type) where
  call : Call
  env : CallEnv φ
  turns : List Turn

variable {φ : Type} {σ : Type*} {M : Service σ}

namespace Cluster

def init : Cluster φ M where
  world := World.init
  log := Log.empty
  done := []

/-- The answers on the connections are the responses of the service to the frames with the same
numbers. -/
def Answers (s : Cluster φ M) : Prop :=
  ∀ (i k : ℕ) (p : Payload), (s.world.conns i).replies[k]? = some p →
    ∃ x ∈ s.log.entries, x.origin = some (i, k) ∧ p.bytes = x.response.encode

end Cluster

/-- How many frames of a connection were read. -/
def served (l : Log M.toMachine (ℕ × ℕ)) (i : ℕ) : ℕ :=
  l.origins.countP fun k => decide (k.1 = i)

/-- One turn of the service. -/
def take (e : RequestEncoder) (w : World φ) (l : Log M.toMachine (ℕ × ℕ)) :
    Turn → Option (Log M.toMachine (ℕ × ℕ))
  | .next i => do
      let frame ← (w.conns i).requests[served l i]?
      let r ← e.reads frame
      some (l.record (some (i, served l i)) r)
  | .other r => some (l.record none r)

/-- The turns of the service, one after the other. -/
def takeAll (e : RequestEncoder) (w : World φ) :
    List Turn → Log M.toMachine (ℕ × ℕ) → Option (Log M.toMachine (ℕ × ℕ))
  | [], l => some l
  | a :: turns, l => (take e w l a).bind (takeAll e w turns)

/-- A call that has returned, if it sends a request. -/
def finished (c : Call) (res : Result) (t : World φ) : List Done :=
  match c.request?, t.held with
  | some _, some i => [⟨i, (t.conns i).received - 1, c, res⟩]
  | _, _ => []

def clusterStep (e : RequestEncoder) (call : CallEnv φ → Call → Client φ Result)
    (s : Cluster φ M) (a : ServedCall φ) : Option (Cluster φ M) :=
  match call a.env a.call s.world with
  | .ok res t =>
      (takeAll e t a.turns s.log).map fun l => ⟨t, l, s.done ++ finished a.call res t⟩
  | .error _ t => (takeAll e t a.turns s.log).map fun l => ⟨t, l, s.done⟩

/-- The call keeps to a condition, and the answers are those of the service. -/
def Behind (C : World φ → Call × CallEnv φ → Prop) (e : RequestEncoder)
    (call : CallEnv φ → Call → Client φ Result) (s : Cluster φ M) (a : ServedCall φ) : Prop :=
  C s.world (a.call, a.env) ∧ ∀ t, clusterStep e call s a = some t → t.Answers

section Connections

variable {c d : Connection}

theorem length_requests (c : Connection) : c.requests.length = c.received := by
  rw [Connection.requests, List.length_map, Connection.received, List.countP_eq_length_filter]

theorem requests_mono (h : c.written <+: d.written) : c.requests <+: d.requests :=
  (h.filter _).map _

/-- The last frame, when it was written completely. -/
theorem requests_of_last {before : List Written} {x : Written} (h : c.written = before ++ [x])
    (hx : x.complete = true) : c.received = before.countP Written.complete + 1 ∧
      c.requests[before.countP Written.complete]? = some x.frame := by
  refine ⟨?_, ?_⟩
  · rw [Connection.received, h, List.countP_append]
    simp [hx]
  · have hbefore : ((before.filter Written.complete).map Written.frame).length =
        before.countP Written.complete := by
      rw [List.length_map, List.countP_eq_length_filter]
    rw [Connection.requests, h, List.filter_append, List.map_append, ← hbefore]
    simp [hx]

end Connections

section Turns

variable {e : RequestEncoder} {w : World φ} {l l' : Log M.toMachine (ℕ × ℕ)}

/-- The log holds each frame once at most, in the order of its connection, with the request that is
read out of it. -/
structure Reads (e : RequestEncoder) (w : World φ) (l : Log M.toMachine (ℕ × ℕ)) : Prop where
  once : l.origins.Nodup
  numbered : ∀ k ∈ l.origins, k.2 < served l k.1
  frames : ∀ x ∈ l.entries, ∀ i k, x.origin = some (i, k) →
    ∃ frame, (w.conns i).requests[k]? = some frame ∧ e.reads frame = some x.request

theorem reads_empty : Reads e w (Log.empty : Log M.toMachine (ℕ × ℕ)) where
  once := List.nodup_nil
  numbered k hk := by cases hk
  frames x hx := by cases hx

/-- Frames that were written later change nothing. -/
theorem Reads.grow {t : World φ} (h : Reads e w l)
    (hgrow : ∀ i, (w.conns i).written <+: (t.conns i).written) : Reads e t l where
  once := h.once
  numbered := h.numbered
  frames x hx i k hk := by
    obtain ⟨frame, hframe, hread⟩ := h.frames x hx i k hk
    obtain ⟨more, hmore⟩ := requests_mono (hgrow i)
    refine ⟨frame, ?_, hread⟩
    rw [← hmore, List.getElem?_append_left (List.getElem?_eq_some_iff.mp hframe).1, hframe]

theorem served_record_self (l : Log M.toMachine (ℕ × ℕ)) (i : ℕ) (r : Request) :
    served (l.record (some (i, served l i)) r) i = served l i + 1 := by
  rw [served, Log.origins_record, List.countP_append]
  simp [served]

theorem served_le_record (l : Log M.toMachine (ℕ × ℕ)) (o : Option (ℕ × ℕ)) (r : Request) (i : ℕ) :
    served l i ≤ served (l.record o r) i := by
  rw [served, served, Log.origins_record, List.countP_append]
  exact Nat.le_add_right _ _

/-- One turn of the service. -/
theorem Reads.take {a : Turn} (h : Reads e w l) (ha : take e w l a = some l') :
    Reads e w l' ∧ l.entries <+: l'.entries := by
  cases a with
  | next i =>
      simp only [LockStep.take, Option.bind_eq_bind, Option.bind_eq_some_iff,
        Option.some.injEq] at ha
      obtain ⟨frame, hframe, r, hr, rfl⟩ := ha
      refine ⟨⟨?_, fun k hk => ?_, fun x hx j k hk => ?_⟩, l.prefix_record _ _⟩
      · rw [Log.origins_record, Option.toList_some]
        refine List.nodup_append'.mpr ⟨h.once, List.nodup_singleton _, ?_⟩
        rw [List.disjoint_singleton]
        exact fun hmem => Nat.lt_irrefl _ (h.numbered _ hmem)
      · rw [Log.origins_record, Option.toList_some] at hk
        rcases List.mem_append.mp hk with hk | hk
        · exact (h.numbered k hk).trans_le (served_le_record ..)
        · rw [List.mem_singleton.mp hk, served_record_self]
          exact Nat.lt_succ_self _
      · rcases List.mem_append.mp hx with hx | hx
        · exact h.frames x hx j k hk
        · rw [List.mem_singleton.mp hx] at hk ⊢
          cases hk
          exact ⟨frame, hframe, hr⟩
  | other r =>
      cases ha
      have horigins : (l.record none r).origins = l.origins := by
        rw [Log.origins_record, Option.toList_none, List.append_nil]
      refine ⟨⟨horigins ▸ h.once, fun k hk => ?_, fun x hx j k hk => ?_⟩, l.prefix_record _ _⟩
      · rw [horigins] at hk
        exact (h.numbered k hk).trans_le (served_le_record ..)
      · rcases List.mem_append.mp hx with hx | hx
        · exact h.frames x hx j k hk
        · rw [List.mem_singleton.mp hx] at hk
          cases hk

/-- The turns during a call. -/
theorem Reads.takeAll {turns : List Turn} (h : Reads e w l)
    (ha : takeAll e w turns l = some l') : Reads e w l' ∧ l.entries <+: l'.entries := by
  induction turns generalizing l with
  | nil =>
      cases ha
      exact ⟨h, List.prefix_refl _⟩
  | cons a turns ih =>
      obtain ⟨m, hm, hrest⟩ := Option.bind_eq_some_iff.mp ha
      obtain ⟨hreads, hgrow⟩ := h.take hm
      obtain ⟨hreads', hgrow'⟩ := ih hreads hrest
      exact ⟨hreads', hgrow.trans hgrow'⟩

end Turns

end LockStep

end DittoClient
