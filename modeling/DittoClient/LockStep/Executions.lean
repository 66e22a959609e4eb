import DittoClient.LockStep.Linearizable

/-!
# How often the service executes the requests of a client

The log holds each frame of a connection once at most, and a client hands a frame over once in each
call, or twice if the call may be sent again. So the service executes a request of a client at most
as often as its calls allow, also when calls fail, and at least once for each call that returned
(`calls_executed`). A call that changes something and fails was executed once or not at all.
-/

namespace DittoClient

namespace LockStep

open DittoClient.Linear
open DittoClient.Octets
open DittoClient.Protobuf
open DittoClient.Wire
open DittoClient.Program
open DittoClient.Transition

variable {φ : Type} {σ : Type*} {M : Service σ}

/-- How often the service has executed the request in a frame of the client. -/
def Cluster.executions (frame : Request) (s : Cluster φ M) : ℕ :=
  s.log.origins.countP fun k => decide ((s.world.conns k.1).requests[k.2]? = some frame)

/-- In every run, the executions of a request are no more than the transmissions that its calls
allow. In a run that keeps to the condition, its calls that returned are no more than its
executions. -/
def Executes (C : World φ → Call × CallEnv φ → Prop) (M : Service σ) (e : RequestEncoder)
    (call : CallEnv φ → Call → Client φ Result) : Prop :=
  ∀ (ls : List (ServedCall φ)) (s : Cluster φ M) (frame : Request),
    (Run (clusterStep e call) (fun _ _ => True) Cluster.init ls s →
      (∀ token, Request.auth token ≠ frame) →
        s.executions frame ≤ (ls.map fun a => a.call.transmissions frame).sum) ∧
    (Run (clusterStep e call) (Behind C e call) Cluster.init ls s →
      (s.done.countP fun x => decide (x.call.request? = some frame)) ≤ s.executions frame)

section Places

/-- The places at which a frame was received completely. -/
def Connection.places (frame : Request) (c : Connection) : List ℕ :=
  (c.requests.zipIdx.filter fun x => decide (x.1 = frame)).map Prod.snd

theorem Connection.mem_places {frame : Request} {c : Connection} {k : ℕ}
    (h : c.requests[k]? = some frame) : k ∈ c.places frame := by
  refine List.mem_map.mpr ⟨(frame, k), List.mem_filter.mpr ⟨?_, by simp⟩, rfl⟩
  exact List.mem_zipIdx_iff_getElem?.mpr h

/-- A frame was received no more often than it was handed over. -/
theorem Connection.length_places (frame : Request) (c : Connection) :
    (c.places frame).length ≤ (c.written.map Written.frame).count frame := by
  have hcount : (c.places frame).length = c.requests.count frame := by
    rw [Connection.places, List.length_map, ← List.countP_eq_length_filter, List.count,
      ← List.countP_congr (p := (· == frame) ∘ Prod.fst), ← List.countP_map, List.zipIdx_map_fst]
    simp
  rw [hcount]
  exact ((List.filter_sublist).map _).count_le _

/-- The places on all the connections. -/
def World.places (frame : Request) (w : World φ) : List (ℕ × ℕ) :=
  (List.range w.next).flatMap fun i => ((w.conns i).places frame).map fun k => (i, k)

theorem World.length_places (frame : Request) (w : World φ) :
    (w.places frame).length ≤ w.handed frame := by
  unfold World.places World.handed
  induction w.next with
  | zero => simp
  | succ n ih =>
      have hlast := (w.conns n).length_places frame
      rw [List.range_succ, List.flatMap_append, List.length_append, Finset.sum_range_succ]
      simp only [List.flatMap_cons, List.flatMap_nil, List.append_nil, List.length_map]
      omega

theorem World.mem_places {frame : Request} {w : World φ} (hw : w.Sound) {i k : ℕ}
    (h : (w.conns i).requests[k]? = some frame) : (i, k) ∈ w.places frame := by
  have hi : i < w.next := by
    by_contra hge
    rw [hw.unused i (Nat.le_of_not_lt hge)] at h
    simp [Connection.requests, Connection.fresh] at h
  exact List.mem_flatMap.mpr ⟨i, List.mem_range.mpr hi,
    List.mem_map_of_mem (Connection.mem_places h)⟩

end Places

section System

variable {C : World φ → Call × CallEnv φ → Prop} {accepts : ℕ → Bool} {cfg : Config φ}
  {ping : ClientResponse → Except (Failure φ) Result}
  {call : CallEnv φ → Call → Client φ Result} {I : World φ → Prop} {e : RequestEncoder}
  {d : Dialect} {s : Cluster φ M} {frame : Request}

/-- Each call that returned was executed. -/
theorem Cluster.Tracked.done_le (h : s.Tracked e d ping I) (frame : Request) :
    (s.done.countP fun x => decide (x.call.request? = some frame)) ≤ s.executions frame := by
  have hnodup : ((s.done.filter fun x => decide (x.call.request? = some frame)).map
      fun x => (x.conn, x.number)).Nodup :=
    h.distinct.sublist (List.filter_sublist.map _)
  have hcount := h.accounts.length_le hnodup (fun k hk => ?_)
    (fun k => decide ((s.world.conns k.1).requests[k.2]? = some frame)) fun k hk => ?_
  · rw [List.length_map, ← List.countP_eq_length_filter] at hcount
    exact hcount
  · obtain ⟨x, hx, rfl⟩ := List.mem_map.mp hk
    exact ⟨(x.call, x.result), (List.mem_filter.mp hx).1⟩
  · obtain ⟨x, hx, rfl⟩ := List.mem_map.mp hk
    obtain ⟨hdone, hframe⟩ := List.mem_filter.mp hx
    rw [decide_eq_true_iff, h.framed x hdone]
    exact of_decide_eq_true hframe

/-- What was executed was handed over. -/
theorem executions_le (hsound : s.world.Sound) (hreads : Reads e s.world s.log) (frame : Request) :
    s.executions frame ≤ s.world.handed frame := by
  refine (Log.countP_origins_le hreads.once _ fun k _ hk => ?_).trans
    (s.world.length_places frame)
  exact World.mem_places hsound (of_decide_eq_true hk)

/-- The frames that a run hands over, and those that the service has read. -/
theorem Behaves.handed_le (h : Behaves C accepts cfg ping call I)
    (hauth : ∀ token, Request.auth token ≠ frame) {ls : List (ServedCall φ)}
    (hrun : Run (clusterStep e call) (fun _ _ => True) (Cluster.init : Cluster φ M) ls s) :
    s.world.Sound ∧ Reads e s.world s.log ∧
      s.world.handed frame ≤ (ls.map fun a => a.call.transmissions frame).sum := by
  induction hrun with
  | nil => exact ⟨World.sound_init, reads_empty, Nat.le_refl 0⟩
  | @snoc t u ls a _ _ hs ih =>
      obtain ⟨hsound, hreads, hle⟩ := ih
      have hgrow := h.grows hsound hs hauth
      refine ⟨hgrow.sound, ?_, ?_⟩
      · exact ((hreads.grow hgrow.written).takeAll (clusterStep_cases hs).1).1
      · rw [List.map_append, List.sum_append, List.map_singleton, List.sum_singleton]
        exact hgrow.handed.trans (Nat.add_le_add_right hle _)

theorem Behaves.executes (h : Behaves C accepts cfg ping call I)
    (hd : ∀ x : ServerResponse, x.encode.length < 2 ^ 31 → ∀ r,
      cfg.decode x.encode = .ok r ↔ d.meaning x = .ok r) (M : Service σ) (e : RequestEncoder) :
    Executes C M e call := by
  refine fun ls s frame => ⟨fun hrun hauth => ?_, fun hrun => ?_⟩
  · obtain ⟨hsound, hreads, hhanded⟩ := h.handed_le hauth hrun
    exact (executions_le hsound hreads frame).trans hhanded
  · have ht := hrun.invariant (I := fun s => s.Tracked e d ping I) (Cluster.tracked_init h.init)
      fun s a t ht hb hs => (h.step hd ht hb hs).1
    exact ht.done_le frame

end System

/-- In every run of a lock-step client a request is executed once at most for each of its calls, or
twice where it may be sent again. In a run in which the client recovers from the exchanges that
break off and no pushed frame lies ahead of an answer, it is executed once at least for each of its
calls that returned. -/
theorem calls_executed (M : Service σ) (cfg : Config φ) (rustCfg : Config (Rust.Fault φ))
    (overflowChecks : Bool) :
    Executes (Python.Recovers (cfg.decoding pythonDialect)) M pythonEncoder
      (Python.call (cfg.decoding pythonDialect)) ∧
    Executes (Go.Recovers (cfg.decoding goDialect)) M goEncoder
      (Go.call (cfg.decoding goDialect)) ∧
    Executes (Rust.Recovers (rustCfg.decoding (rustDialect overflowChecks))) M rustEncoder
      (Rust.call (rustCfg.decoding (rustDialect overflowChecks))) ∧
    Executes (Java.Recovers (cfg.decoding javaDialect)) M javaEncoder
      (Java.call (cfg.decoding javaDialect)) := by
  refine ⟨?_, ?_, ?_, ?_⟩
  · exact (Python.behaves _).executes
      (decode_encode (python_follows (2 ^ 31)) python_plain python_standard (by decide)) M _
  · exact (Go.behaves _).executes
      (decode_encode go_follows go_plain go_standard (by decide)) M _
  · exact (Rust.behaves _).executes
      (decode_encode (rust_follows overflowChecks) (rust_plain overflowChecks)
        (rust_standard overflowChecks) (by decide)) M _
  · exact (Java.behaves _).executes
      (decode_encode java_follows java_plain java_standard (by decide)) M _

end LockStep

end DittoClient
