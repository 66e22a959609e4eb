import DittoClient.NodeTcp.Machine

/-!
# The watch callbacks of the Node.js TCP client

The map `watchCallbacks` is changed by `watch` and `unwatch`, when they are called, and by
nothing else: not by what the server answers, and not by what happens to the connection. As a
map from names to registrations it is given by `Registry.get`, with one equation for each of
the two operations.
-/

namespace DittoClient

namespace NodeTcp

open DittoClient.Wire
open DittoClient.Transition

/-- What is registered under a name. -/
structure Registration where
  key : String
  ns : Option String
  callback : ℕ
  deriving DecidableEq, Repr

def WatchEntry.registration (e : WatchEntry) : Registration :=
  ⟨e.key, e.ns, e.callback⟩

/-- The map of watch callbacks, with the number of the next insertion. -/
structure Registry where
  entries : List WatchEntry
  nextWatch : ℕ
  deriving DecidableEq, Repr

def State.registry (s : State) : Registry :=
  ⟨s.watchCallbacks, s.nextWatch⟩

namespace Registry

variable (r : Registry)

def get (name : String) : Option Registration :=
  (r.entries.find? fun e => decide (e.name = name)).map WatchEntry.registration

/-- `Map.set`. -/
def set (name : String) (new : Registration) : Registry :=
  if r.entries.any fun e => decide (e.name = name) then
    { r with entries := r.entries.map fun e =>
        if e.name = name then { e with key := new.key, ns := new.ns, callback := new.callback }
        else e }
  else
    { entries := r.entries ++ [⟨r.nextWatch, name, new.key, new.ns, new.callback⟩]
      nextWatch := r.nextWatch + 1 }

/-- `Map.delete`. -/
def delete (name : String) : Registry :=
  { r with entries := r.entries.filter fun e => decide (e.name ≠ name) }

theorem get_eq_none_iff (name : String) :
    r.get name = none ↔ ∀ e ∈ r.entries, e.name ≠ name := by
  simp [get]

theorem get_set (name : String) (new : Registration) (other : String) :
    (r.set name new).get other = if other = name then some new else r.get other := by
  unfold set
  split
  · next hany =>
      have hname : ∀ e : WatchEntry, (if e.name = name then
          { e with key := new.key, ns := new.ns, callback := new.callback } else e).name =
            e.name := fun e => by split <;> rfl
      simp only [get, List.find?_map, Function.comp_def, hname, Option.map_map]
      cases hfind : r.entries.find? fun e => decide (e.name = other) with
      | none =>
          have hne : other ≠ name := by
            rintro rfl
            simp only [List.any_eq_true, decide_eq_true_eq] at hany
            obtain ⟨e, he, heq⟩ := hany
            exact absurd heq (by simpa using List.find?_eq_none.mp hfind e he)
          simp [hne]
      | some e =>
          have heq : e.name = other := by simpa using List.find?_some hfind
          by_cases hother : other = name
          · simp [hother, heq, WatchEntry.registration]
          · simp [hother, heq]
  · next hany =>
      have hnone : r.get name = none := by simpa [get_eq_none_iff] using hany
      by_cases hother : other = name
      · subst hother
        simp only [get, Option.map_eq_none_iff] at hnone
        simp [get, hnone, WatchEntry.registration]
      · simp [get, hother, Ne.symm hother]

theorem get_delete (name other : String) :
    (r.delete name).get other = if other = name then none else r.get other := by
  unfold get delete
  rw [List.find?_filter]
  by_cases hother : other = name
  · subst hother
    simp
  · have hp : (fun e : WatchEntry => !decide (e.name = name) && decide (e.name = other)) =
        fun e => decide (e.name = other) := by
      funext e
      by_cases he : e.name = other
      · simp [he, hother]
      · simp [he]
    simp [hother, hp]

/-- The entries after `Map.set`. -/
theorem mem_set {name : String} {new : Registration} {e : WatchEntry}
    (h : e ∈ (r.set name new).entries) :
    e.name = name ∧ e.registration = new ∨ e.name ≠ name ∧ e ∈ r.entries := by
  unfold set at h
  split at h
  · obtain ⟨d, hd, rfl⟩ := List.mem_map.mp h
    by_cases hname : d.name = name
    · rw [if_pos hname]
      exact Or.inl ⟨hname, rfl⟩
    · rw [if_neg hname]
      exact Or.inr ⟨hname, hd⟩
  · next hany =>
      rcases List.mem_append.mp h with he | he
      · simp only [List.any_eq_true, decide_eq_true_eq, not_exists, not_and] at hany
        exact Or.inr ⟨hany e he, he⟩
      · obtain rfl := List.mem_singleton.mp he
        exact Or.inl ⟨rfl, rfl⟩

theorem mem_delete {name : String} {e : WatchEntry} (h : e ∈ (r.delete name).entries) :
    e.name ≠ name ∧ e ∈ r.entries := by
  obtain ⟨he, hname⟩ := List.mem_filter.mp h
  exact ⟨of_decide_eq_true hname, he⟩

end Registry

/-- What a call does to the map, before the request is sent. -/
def Action.register (opts : Options) (r : Registry) : Action → Registry
  | .watch key ns callback =>
      if opts.validate (.watch key ns) then
        r.set (watchCallbackKey key (normalizeNamespace ns)) ⟨key, normalizeNamespace ns, callback⟩
      else r
  | .unwatch key ns =>
      if opts.validate (.unwatch key ns) then
        r.delete (watchCallbackKey key (normalizeNamespace ns))
      else r
  | _ => r

variable (opts : Options)

section Unregistered

@[simp] theorem registry_updateWaiter (s : State) (w : ℕ) (f : Waiter → Waiter) :
    (s.updateWaiter w f).registry = s.registry :=
  rfl

@[simp] theorem registry_updateSock (s : State) (i : ℕ) (f : Sock → Sock) :
    (s.updateSock i f).registry = s.registry :=
  rfl

@[simp] theorem registry_setPc (s : State) (t : ℕ) (pc : Pc) :
    (s.setPc t pc).registry = s.registry :=
  rfl

@[simp] theorem registry_newWaiter (s : State) (frame : Option Request) (owner : Owner)
    (req : Request) : (s.newWaiter frame owner req).registry = s.registry :=
  rfl

/-- A loop that leaves the map alone in each round. -/
theorem registry_foldl {f : State → ℕ → State} (hf : ∀ s w, (f s w).registry = s.registry)
    (ws : List ℕ) (s : State) : (ws.foldl f s).registry = s.registry := by
  induction ws generalizing s with
  | nil => rfl
  | cons w ws ih => rw [List.foldl_cons, ih, hf]

@[simp] theorem registry_rejectOfflineQueue (err : Err) (s : State) :
    (rejectOfflineQueue err s).registry = s.registry :=
  registry_foldl (fun s w => registry_updateWaiter s w _) s.offlineQueue _

@[simp] theorem registry_writeInflight (frame : Request) (w : ℕ) (s : State) :
    (writeInflight opts frame w s).1.registry = s.registry := by
  have harmed : (armRequestTimeout opts w { s with inflight := s.inflight ++ [w] }).registry =
      s.registry := by
    unfold armRequestTimeout
    split
    · rfl
    · rfl
  unfold writeInflight
  dsimp only
  split
  · exact harmed
  · exact harmed

@[simp] theorem registry_send (req : Request) (s : State) :
    (send opts req s).registry = s.registry := by
  unfold send
  split
  · rfl
  · split
    · split
      · rfl
      · rfl
    · simp

@[simp] theorem registry_scheduleReconnect (s : State) :
    (scheduleReconnect opts s).registry = s.registry := by
  unfold scheduleReconnect
  split
  · rfl
  · split
    · simp
    · rfl

theorem registry_disconnectWaiter (err : Err) (s : State) (w : ℕ) :
    (disconnectWaiter err s w).registry = s.registry := by
  unfold disconnectWaiter
  dsimp only
  split
  · rfl
  · rfl

@[simp] theorem registry_handleDisconnect (err : Err) (s : State) :
    (handleDisconnect opts err s).registry = s.registry := by
  unfold handleDisconnect
  have hloop := registry_foldl (registry_disconnectWaiter err) s.inflight
    { s with socket := none, recvBuf := [], inflight := [] }
  split
  · rfl
  · dsimp only
    split
    · rw [registry_scheduleReconnect, hloop]
      rfl
    · rw [registry_rejectOfflineQueue, hloop]
      rfl

@[simp] theorem registry_close (s : State) : (close s).registry = s.registry := by
  have hreject : (rejectOfflineQueue (.error "Client closed.")
      (cancelReconnectTimer { s with destroyed := true })).registry = s.registry :=
    registry_rejectOfflineQueue _ _
  unfold close
  dsimp only
  split
  · exact hreject
  · exact hreject

@[simp] theorem registry_doConnect (created : Bool) (s : State) :
    (doConnect created s).registry = s.registry := by
  unfold doConnect
  split
  · rfl
  · split
    · rfl
    · rfl

@[simp] theorem registry_connect (created : Bool) (s : State) :
    (connect created s).registry = s.registry := by
  unfold connect
  split
  · rfl
  · split
    · rfl
    · simp

@[simp] theorem registry_connectFailed (s : State) :
    (connectFailed opts s).registry = s.registry := by
  unfold connectFailed
  dsimp only
  split
  · rw [registry_scheduleReconnect]
    rfl
  · rw [registry_rejectOfflineQueue]
    rfl

@[simp] theorem registry_reRegisterWatches (t pos : ℕ) (s : State) :
    (reRegisterWatches opts t pos s).registry = s.registry := by
  unfold reRegisterWatches
  split
  · simp
  · rfl

theorem registry_flushWaiter (s : State) (w : ℕ) :
    (flushWaiter opts s w).registry = s.registry := by
  unfold flushWaiter
  split
  · rfl
  · simp

@[simp] theorem registry_flushOfflineQueue (s : State) :
    (flushOfflineQueue opts s).registry = s.registry := by
  unfold flushOfflineQueue
  split
  · rfl
  · exact registry_foldl (registry_flushWaiter opts) _ _

@[simp] theorem registry_connected (t : ℕ) (s : State) :
    (connected opts t s).registry = s.registry := by
  unfold connected
  dsimp only
  split
  · rw [registry_reRegisterWatches]
    rfl
  · rw [registry_setPc, registry_writeInflight]
    rfl

@[simp] theorem registry_authenticated (t : ℕ) (r : ClientResponse) (s : State) :
    (authenticated opts t r s).registry = s.registry := by
  unfold authenticated
  split
  · simp
  · simp
  · simp

theorem registry_resume {t : ℕ} {s u : State} (h : resume opts t s = some u) :
    u.registry = s.registry := by
  unfold resume at h
  split at h
  · cases h
  · cases h
    simp
  · cases h
    simp
  · split at h
    · cases h
    · cases h
      simp
    · cases h
      simp
  · cases h
    simp
  · cases h
    simp
  · split at h
    · cases h
    · cases h
      simp
    · cases h
      simp
  · cases h
    simp
  · cases h

@[simp] theorem registry_shiftWaiter (i : ℕ) (payload : List UInt8) (o : Settlement)
    (s : State) : (shiftWaiter i payload o s).registry = s.registry := by
  unfold shiftWaiter
  split
  · rfl
  · rfl

@[simp] theorem registry_handlePayload (i : ℕ) (payload : List UInt8) (s : State) :
    (handlePayload i payload s).registry = s.registry := by
  unfold handlePayload
  split
  · simp
  · rfl
  · simp

@[simp] theorem registry_destroySock (i : ℕ) (e : Err) (s : State) :
    (destroySock i e s).registry = s.registry :=
  rfl

@[simp] theorem registry_onDataRound (i : ℕ) (s : State) :
    (onDataRound opts i s).registry = s.registry := by
  unfold onDataRound
  split
  · rfl
  · dsimp only
    split
    · split
      · rfl
      · rfl
    · split
      · rfl
      · rw [registry_handlePayload]
        rfl

@[simp] theorem registry_settleConnection (i : ℕ) (pc : Pc) (s : State) :
    (settleConnection i pc s).registry = s.registry := by
  unfold settleConnection
  split
  · rfl
  · rfl

end Unregistered

theorem registry_setCallback (name key : String) (ns : Option String) (callback : ℕ)
    (s : State) :
    (setCallback name key ns callback s).registry = s.registry.set name ⟨key, ns, callback⟩ := by
  unfold setCallback Registry.set State.registry
  dsimp only
  split
  · rfl
  · rfl

/-- The call to `watch` sets its callback. -/
@[simp] theorem registry_watch (key : String) (ns : Option String) (callback : ℕ) (s : State) :
    (watch opts key ns callback s).registry =
      s.registry.set (watchCallbackKey key (normalizeNamespace ns))
        ⟨key, normalizeNamespace ns, callback⟩ := by
  rw [watch, registry_send, registry_setCallback]

@[simp] theorem registry_unwatch (key : String) (ns : Option String) (s : State) :
    (unwatch opts key ns s).registry =
      s.registry.delete (watchCallbackKey key (normalizeNamespace ns)) := by
  unfold unwatch
  dsimp only
  split
  · rfl
  · rw [registry_send]
    rfl

/-- The map is changed by the calls to `watch` and `unwatch`, and by no other action. -/
theorem step_registry {s t : State} {a : Action} (h : step opts s a = some t) :
    t.registry = a.register opts s.registry := by
  cases a with
  | connect created =>
      cases h
      exact registry_connect created s
  | close =>
      cases h
      exact registry_close s
  | request req =>
      simp only [step] at h
      split at h
      · split at h
        · cases h
          exact registry_send opts req s
        · cases h
          rfl
      · cases h
  | watch key ns callback =>
      simp only [step] at h
      split at h
      · next hvalid =>
          cases h
          simp [Action.register, hvalid]
      · next hvalid =>
          cases h
          simp [Action.register, hvalid]
  | unwatch key ns =>
      simp only [step] at h
      split at h
      · next hvalid =>
          cases h
          simp [Action.register, hvalid]
      · next hvalid =>
          cases h
          simp [Action.register, hvalid]
  | resume k =>
      simp only [step] at h
      split at h
      · exact registry_resume opts h
      · cases h
  | sockConnected i =>
      simp only [step, Option.ite_none_right_eq_some, Option.some.injEq] at h
      rw [← h.2, onConnected, registry_settleConnection]
      rfl
  | sockData i chunk =>
      simp only [step, Option.ite_none_right_eq_some, Option.some.injEq] at h
      rw [← h.2]
      rfl
  | sockError i e =>
      simp only [step, Option.ite_none_right_eq_some, Option.some.injEq] at h
      rw [← h.2, onError, registry_settleConnection, registry_handleDisconnect]
      rfl
  | sockClose i =>
      simp only [step, Option.ite_none_right_eq_some, Option.some.injEq] at h
      rw [← h.2, onClose, registry_handleDisconnect]
      rfl
  | connectTimeout i =>
      simp only [step, Option.ite_none_right_eq_some, Option.some.injEq] at h
      rw [← h.2]
      rfl
  | idleTimeout i =>
      simp only [step, Option.ite_none_right_eq_some, Option.some.injEq] at h
      rw [← h.2]
      rfl
  | requestTimeout w =>
      simp only [step, Option.ite_none_right_eq_some, Option.some.injEq] at h
      rw [← h.2]
      rfl
  | reconnectTimer created =>
      simp only [step, Option.ite_none_right_eq_some, Option.some.injEq] at h
      rw [← h.2, registry_doConnect]
      rfl
  | round =>
      simp only [step, Option.map_eq_some_iff] at h
      obtain ⟨i, -, rfl⟩ := h
      exact registry_onDataRound opts i s
  | callbackThrow =>
      simp only [step, Option.ite_none_right_eq_some, Option.some.injEq] at h
      rw [← h.2]
      rfl

end NodeTcp

end DittoClient
