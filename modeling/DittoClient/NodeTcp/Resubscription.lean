import DittoClient.NodeTcp.Attempts
import DittoClient.NodeTcp.Subscriptions

/-!
# What a client writes about its watches

On the stored connection, a call writes its own request, and a run of `doConnect` writes Auth, the
next watch, or the queue. A run registers the watches one after the other in their order, so that
a watch it has not come to yet is registered as long as the run goes on.
-/

namespace DittoClient

namespace NodeTcp

open DittoClient.Wire
open DittoClient.Transition

variable (opts : Options)

/-- The watch that is registered next, from the entry with the number `pos` on. -/
def State.registers (s : State) (pos : ℕ) : List Request :=
  ((s.watchCallbacks.find? fun e => decide (pos ≤ e.index)).map fun e =>
    Request.watch e.key e.ns).toList

/-- What a run of `doConnect` writes when it is resumed. -/
def State.resumes (s : State) (k : ℕ) : List Request :=
  match (s.tasks k).pc with
  | .connected =>
      match opts.token? with
      | none => s.registers 0
      | some token => [.auth token]
  | .auth w =>
      match (s.waiters w).outcomes.head? with
      | some (.resolved .authOk) => s.registers 0
      | _ => []
  | .rewatch pos w =>
      match (s.waiters w).outcomes.head? with
      | some (.resolved _) => s.registers pos
      | _ => []
  | .rewatched => s.offlineQueue.map fun w => (s.waiters w).request
  | _ => []

/-- The request of a call that passes validation. -/
def Action.request? : Action → Option Request
  | .request req => if opts.validate req then some req else none
  | .watch key ns _ =>
      if opts.validate (.watch key ns) then some (.watch key (normalizeNamespace ns)) else none
  | .unwatch key ns =>
      if opts.validate (.unwatch key ns) then some (.unwatch key (normalizeNamespace ns)) else none
  | _ => none

/-- A run of `doConnect` is about to end, since Auth, or the watch before the entry with the number
`pos`, was rejected. -/
def State.Breaks (s : State) (k pos : ℕ) : Prop :=
  ∃ w e, (s.waiters w).outcomes.head? = some (.rejected e) ∧
    ((s.tasks k).pc = .auth w ∧ pos = 0 ∨ (s.tasks k).pc = .rewatch pos w)

/-- A run of `doConnect` has still to come to an entry. -/
def State.Registers (s : State) (k : ℕ) (e : WatchEntry) : Prop :=
  (s.tasks k).pc = .connected ∨ (∃ w, (s.tasks k).pc = .auth w) ∨
    ∃ pos w, (s.tasks k).pc = .rewatch pos w ∧ pos ≤ e.index

/-- What a step writes on the stored connection. -/
def State.writes (s : State) : Action → List Request
  | .resume k => s.resumes opts k
  | a => if s.destroyed then [] else (a.request? opts).toList

/-- The requests `reqs` are written on the connection `i`, and nothing else. -/
def State.Writes (s t : State) (i : ℕ) (reqs : List Request) : Prop :=
  ∃ new, t.wire = s.wire ++ new ∧ (∀ x ∈ new, x.sock = i) ∧ new.map Sent.frame = reqs

section Writes

variable {opts} {s t : State} {a : Action} {i : ℕ}

theorem State.writes_nil (h : t.wire = s.wire) : s.Writes t i [] :=
  ⟨[], by simpa using h, fun x hx => (by cases hx), rfl⟩

theorem State.writes_one {w : ℕ} {req : Request} (h : t.wire = s.wire ++ [⟨i, w, req⟩]) :
    s.Writes t i [req] := by
  refine ⟨_, h, fun x hx => ?_, rfl⟩
  rw [List.mem_singleton.mp hx]

/-- A call writes its request, perhaps after the watches were changed. -/
theorem send_writes (hsocket : s.socket = some i) (req : Request) (watches : List WatchEntry)
    (n : ℕ) :
    s.Writes (send opts req { s with watchCallbacks := watches, nextWatch := n }) i
      (if s.destroyed then [] else [req]) := by
  unfold send
  split
  · exact State.writes_nil rfl
  · split
    · next hnone => cases hsocket.symm.trans hnone
    · exact State.writes_one (writeNew_wire opts
        (s := { s with watchCallbacks := watches, nextWatch := n }) hsocket .caller req)

theorem reRegisterWatches_writes (hsocket : s.socket = some i) (k pos n : ℕ) :
    s.Writes (reRegisterWatches opts k pos { s with reconnectAttempts := n }) i
      (s.registers pos) := by
  unfold reRegisterWatches State.registers
  split
  · next e _ hfind _ =>
      have hfound : (s.watchCallbacks.find? fun e => decide (pos ≤ e.index)) = some e := hfind
      rw [hfound]
      exact State.writes_one (writeNew_wire opts (s := { s with reconnectAttempts := n }) hsocket
        (.task k) (.watch e.key e.ns))
  · next hstop =>
      have hnone : (s.watchCallbacks.find? fun e => decide (pos ≤ e.index)) = none := by
        cases hfind : s.watchCallbacks.find? fun e => decide (pos ≤ e.index) with
        | none => rfl
        | some e => exact (hstop e i hfind hsocket).elim
      rw [hnone]
      exact State.writes_nil rfl

theorem resume_writes (hw : WaiterInv s) {k : ℕ} (hr : resume opts k s = some t)
    (hsocket : s.socket = some i) : s.Writes t i (s.resumes opts k) := by
  unfold resume at hr
  split at hr
  · cases hr
  · next hpc =>
      cases hr
      simp only [State.resumes, hpc]
      unfold connected
      dsimp only
      cases opts.token? with
      | none => exact reRegisterWatches_writes hsocket k 0 0
      | some token =>
          exact State.writes_one (writeNew_wire opts (s := { s with reconnectAttempts := 0 })
            hsocket (.task k) (.auth token))
  · next hpc =>
      cases hr
      simp only [State.resumes, hpc]
      exact State.writes_nil (connectFailed_settles opts s).wire
  · next w hpc =>
      split at hr
      · cases hr
      · next e hout =>
          cases hr
          simp only [State.resumes, hpc, hout]
          exact State.writes_nil rfl
      · next r hout =>
          cases hr
          simp only [State.resumes, hpc, hout]
          unfold authenticated
          cases r with
          | authOk => exact reRegisterWatches_writes hsocket k 0 s.reconnectAttempts
          | _ => exact State.writes_nil (close_settles s).wire
  · next hpc =>
      cases hr
      simp only [State.resumes, hpc]
      exact State.writes_nil rfl
  · next e hpc =>
      cases hr
      simp only [State.resumes, hpc]
      exact State.writes_nil (rejectOfflineQueue_settles e s).wire
  · next pos w hpc =>
      split at hr
      · cases hr
      · next e hout =>
          cases hr
          simp only [State.resumes, hpc, hout]
          exact State.writes_nil rfl
      · next r hout =>
          cases hr
          simp only [State.resumes, hpc, hout]
          exact reRegisterWatches_writes hsocket k pos s.reconnectAttempts
  · next hpc =>
      cases hr
      simp only [State.resumes, hpc]
      unfold flushOfflineQueue
      split
      · next hnone => cases hsocket.symm.trans hnone
      · next j hj =>
          cases hsocket.symm.trans hj
          obtain ⟨-, -, hwire, -⟩ := flush_ledger opts s.offlineQueue
            (s := { s with offlineQueue := [] }) hsocket (fun _ hq => hw.frame_of_queued hq)
              (List.nodup_append.mp hw.nodup).2.1
          refine ⟨_, hwire, fun x hx => ?_, ?_⟩
          · obtain ⟨w, -, rfl⟩ := List.mem_map.mp hx
            rfl
          · simp [Function.comp_def]
  · cases hr

/-- What a step writes when a socket is stored. -/
theorem step_writes (hw : WaiterInv s) (hs : step opts s a = some t)
    (hsocket : s.socket = some i) : s.Writes t i (s.writes opts a) := by
  have hsame : a.sends = false → (∀ k, a ≠ .resume k) → t.wire = s.wire := by
    intro hsends hresume
    cases step_ledger opts hw hs with
    | kept _ hset _ => exact hset.wire
    | lost _ hset _ => exact hset.wire
    | read _ hset => exact hset.wire
    | queued ha _ _ _ _ _ hwire _ => exact hwire
    | sent h _ _ _ _ _ =>
        cases h with
        | call req ha _ =>
            rw [hsends] at ha
            cases ha
        | auth _ _ => exact absurd rfl (hresume _)
        | watch _ _ _ => exact absurd rfl (hresume _)
    | unsent _ _ _ _ _ hwire _ => exact hwire
    | flushed _ _ _ _ _ _ => exact absurd rfl (hresume _)
  have hquiet : a.sends = false → (∀ k, a ≠ .resume k) → a.request? opts = none →
      s.Writes t i (if s.destroyed then [] else (a.request? opts).toList) := by
    intro hsends hresume hnone
    rw [hnone]
    split
    · exact State.writes_nil (hsame hsends hresume)
    · exact State.writes_nil (hsame hsends hresume)
  have hself : ∀ {req : Option Request}, req = none →
      s.Writes s i (if s.destroyed then [] else req.toList) := by
    rintro _ rfl
    split
    · exact State.writes_nil rfl
    · exact State.writes_nil rfl
  cases a with
  | resume k =>
      simp only [step] at hs
      split at hs
      · exact resume_writes hw hs hsocket
      · cases hs
  | request req =>
      simp only [step] at hs
      split at hs
      · split at hs
        · next hvalid =>
            cases hs
            simp only [State.writes, Action.request?, hvalid, if_true]
            exact send_writes hsocket req s.watchCallbacks s.nextWatch
        · next hvalid =>
            cases hs
            exact hself (if_neg hvalid)
      · cases hs
  | watch key ns callback =>
      simp only [step] at hs
      split at hs
      · next hvalid =>
          cases hs
          simp only [State.writes, Action.request?, hvalid, if_true]
          unfold watch setCallback
          dsimp only
          split
          · exact send_writes hsocket _ _ s.nextWatch
          · exact send_writes hsocket _ _ _
      · next hvalid =>
          cases hs
          exact hself (if_neg hvalid)
  | unwatch key ns =>
      simp only [step] at hs
      split at hs
      · next hvalid =>
          cases hs
          simp only [State.writes, Action.request?, hvalid, if_true]
          unfold unwatch
          dsimp only
          split
          · next hnone =>
              rw [hsocket] at hnone
              cases hnone
          · exact send_writes hsocket _ _ s.nextWatch
      · next hvalid =>
          cases hs
          exact hself (if_neg hvalid)
  | _ => exact hquiet rfl (by simp) rfl

end Writes

section Queue

variable {opts} {s t : State} {a : Action} {w : ℕ}

/-- A call queues its request if there is no connection. -/
theorem send_queue {req : Request} (h : w ∈ (send opts req s).offlineQueue) :
    w ∈ s.offlineQueue ∨ s.socket = none ∧ ((send opts req s).waiters w).request = req := by
  unfold send at h ⊢
  split at h
  · exact Or.inl h
  · next hdestroyed =>
      split at h
      · next hsocket =>
          split at h
          · next hauto =>
              refine (List.mem_append.mp h).imp_right fun hw => ?_
              rw [List.mem_singleton.mp hw, if_neg hdestroyed, hsocket]
              simp [hauto, State.newWaiter]
          · exact Or.inl h
      · exact Or.inl (writeNew_queue opts s .caller req ▸ h)

/-- The queue holds what it held before, and the request of a call without a connection, which is
no Unwatch. -/
theorem step_queue (hw : WaiterInv s) (hs : step opts s a = some t) (hq : w ∈ t.offlineQueue) :
    w ∈ s.offlineQueue ∧ (t.waiters w).request = (s.waiters w).request ∨
      s.socket = none ∧ a.request? opts = some (t.waiters w).request ∧
        ∀ key ns, a ≠ .unwatch key ns := by
  have hledger := step_ledger opts hw hs
  have hold : w ∈ s.offlineQueue → w ∈ s.offlineQueue ∧
      (t.waiters w).request = (s.waiters w).request := fun h =>
    ⟨h, hledger.waiters.1 w (hw.bound w (List.mem_append_right _ h))⟩
  have hsub : a.sends = false → w ∈ s.offlineQueue := by
    intro hsends
    have hnot : ∀ {p : Prop}, a.sends = true → p := fun ha => by
      rw [hsends] at ha
      cases ha
    cases hledger with
    | kept _ hset _ => exact hset.offlineQueue.subset hq
    | lost _ hset _ => exact hset.offlineQueue.subset hq
    | read _ hset => exact hset.offlineQueue.subset hq
    | queued ha _ _ _ _ _ _ _ => exact hnot ha
    | sent _ _ _ hqueue _ _ => exact hqueue ▸ hq
    | unsent _ _ _ _ hqueue _ _ => exact hqueue ▸ hq
    | flushed _ _ _ hqueue _ _ =>
        rw [hqueue] at hq
        cases hq
  cases a with
  | request req =>
      simp only [step] at hs
      split at hs
      · split at hs
        · next hvalid =>
            cases hs
            exact (send_queue hq).imp hold fun h => ⟨h.1, by
              rw [Action.request?, if_pos hvalid, h.2], by simp⟩
        · cases hs
          exact Or.inl (hold hq)
      · cases hs
  | watch key ns callback =>
      simp only [step] at hs
      split at hs
      · next hvalid =>
          cases hs
          have hset : (setCallback (watchCallbackKey key (normalizeNamespace ns)) key
              (normalizeNamespace ns) callback s).offlineQueue = s.offlineQueue ∧
              (setCallback (watchCallbackKey key (normalizeNamespace ns)) key
                (normalizeNamespace ns) callback s).socket = s.socket := by
            unfold setCallback
            split
            · exact ⟨rfl, rfl⟩
            · exact ⟨rfl, rfl⟩
          refine (send_queue hq).imp (fun h => hold (hset.1 ▸ h)) fun h => ⟨hset.2 ▸ h.1, ?_, by simp⟩
          rw [Action.request?, if_pos hvalid]
          exact congrArg some h.2.symm
      · cases hs
        exact Or.inl (hold hq)
  | unwatch key ns =>
      simp only [step] at hs
      split at hs
      · cases hs
        unfold unwatch at hq
        dsimp only at hq
        split at hq
        · exact Or.inl (hold hq)
        · next hsome =>
            rcases send_queue hq with h | ⟨hnone, -⟩
            · exact Or.inl (hold h)
            · exact absurd (Option.isNone_iff_eq_none.mpr hnone) hsome
      · cases hs
        exact Or.inl (hold hq)
  | _ => exact Or.inl (hold (hsub rfl))

end Queue

section Registering

variable {opts} {s t : State} {a : Action} {i k : ℕ} {e : WatchEntry}

/-- The entry that is found from a number on is the one that is looked for, or comes before it. -/
theorem find_index {es : List WatchEntry} (hsorted : es.Pairwise fun d e => d.index < e.index)
    (he : e ∈ es) {pos : ℕ} (hpos : pos ≤ e.index) :
    ∃ d, (es.find? fun d => decide (pos ≤ d.index)) = some d ∧ (d = e ∨ d.index < e.index) := by
  obtain ⟨d, hfind⟩ := Option.isSome_iff_exists.mp
    (List.find?_isSome.mpr ⟨e, he, decide_eq_true hpos⟩ :
      (es.find? fun d => decide (pos ≤ d.index)).isSome = true)
  obtain ⟨-, before, behind, hsplit, hbefore⟩ := List.find?_eq_some_iff_append.mp hfind
  refine ⟨d, hfind, ?_⟩
  rw [hsplit] at he hsorted
  rcases List.mem_append.mp he with he | he
  · exact absurd hpos (by simpa using hbefore e he)
  · rcases List.mem_cons.mp he with rfl | he
    · exact Or.inl rfl
    · exact Or.inr ((List.pairwise_cons.mp (List.pairwise_append.mp hsorted).2.1).1 e he)

/-- The run registers the entry, or an entry before it. -/
theorem reRegisterWatches_registers (hsocket : s.socket = some i)
    (hsorted : s.watchCallbacks.Pairwise fun d e => d.index < e.index)
    (he : e ∈ s.watchCallbacks) {pos : ℕ} (hpos : pos ≤ e.index) (n : ℕ) :
    .watch e.key e.ns ∈ s.registers pos ∨
      (reRegisterWatches opts k pos { s with reconnectAttempts := n }).Registers k e := by
  obtain ⟨d, hfind, rfl | hlt⟩ := find_index hsorted he hpos
  · refine Or.inl ?_
    rw [State.registers, hfind]
    exact List.mem_singleton_self _
  · refine Or.inr (Or.inr (Or.inr ⟨d.index + 1, s.nextWaiter, ?_, hlt⟩))
    unfold reRegisterWatches
    simp only [hfind, hsocket]
    simp [State.setPc]

/-- A run that is not resumed has still to come to the same entries. -/
theorem State.Registers.stays (h : s.Registers k e)
    (hbegun : ∀ k, s.nextTask ≤ k → (s.tasks k).pc = .done none) (hs : step opts s a = some t)
    (hk : a ≠ .resume k) : t.Registers k e := by
  have hstays : (s.tasks k).pc.isDone = false → (∀ i, (s.tasks k).pc ≠ .connecting i) →
      (t.tasks k).pc = (s.tasks k).pc := fun hunder hopen =>
    (step_link opts hs).pc_stays hbegun hunder hopen hk
  rcases h with hpc | ⟨w, hpc⟩ | ⟨pos, w, hpc, hpos⟩
  · exact Or.inl ((hstays (by rw [hpc]; rfl) (by simp [hpc])).trans hpc)
  · exact Or.inr (Or.inl ⟨w, (hstays (by rw [hpc]; rfl) (by simp [hpc])).trans hpc⟩)
  · exact Or.inr (Or.inr ⟨pos, w, (hstays (by rw [hpc]; rfl) (by simp [hpc])).trans hpc, hpos⟩)

/-- A run that is resumed registers the entry, has still to come to it, or ends before it. -/
theorem State.Registers.resume (h : s.Registers k e)
    (hsorted : s.watchCallbacks.Pairwise fun d e => d.index < e.index)
    (he : e ∈ s.watchCallbacks) (hr : resume opts k s = some t) (hsocket : s.socket = some i)
    (hsocket' : t.socket = some i) :
    .watch e.key e.ns ∈ s.resumes opts k ∨ t.Registers k e ∨
      ∃ pos, s.Breaks k pos ∧ pos ≤ e.index := by
  have hnext : ∀ {pos n : ℕ}, pos ≤ e.index → s.resumes opts k = s.registers pos →
      t = reRegisterWatches opts k pos { s with reconnectAttempts := n } →
        .watch e.key e.ns ∈ s.resumes opts k ∨ t.Registers k e ∨
          ∃ pos, s.Breaks k pos ∧ pos ≤ e.index := by
    rintro pos n hpos hwrites rfl
    rw [hwrites]
    exact (reRegisterWatches_registers hsocket hsorted he hpos n).imp_right Or.inl
  rcases h with hpc | ⟨w, hpc⟩ | ⟨pos, w, hpc, hpos⟩
  · simp only [NodeTcp.resume, hpc, Option.some.injEq] at hr
    cases htoken : opts.token? with
    | none =>
        refine hnext (n := 0) (Nat.zero_le _) (by simp only [State.resumes, hpc, htoken]) ?_
        rw [← hr]
        simp only [connected, htoken]
    | some token =>
        refine Or.inr (Or.inl (Or.inr (Or.inl ⟨s.nextWaiter, ?_⟩)))
        rw [← hr]
        simp only [connected, htoken]
        rw [writeInflight_threw]
        simp [State.setPc, State.newWaiter, hsocket]
  · cases hout : (s.waiters w).outcomes.head? with
    | none =>
        simp only [NodeTcp.resume, hpc, hout] at hr
        cases hr
    | some o =>
        cases o with
        | rejected err => exact Or.inr (Or.inr ⟨0, ⟨w, err, hout, Or.inl ⟨hpc, rfl⟩⟩, Nat.zero_le _⟩)
        | resolved r =>
            simp only [NodeTcp.resume, hpc, hout, Option.some.injEq] at hr
            by_cases hok : r = .authOk
            · subst hok
              exact hnext (n := s.reconnectAttempts) (Nat.zero_le _)
                (by simp only [State.resumes, hpc, hout]) hr.symm
            · have hclosed : (authenticated opts k r s).socket = none := by
                have hnone : (close s).socket = none := congrArg Link.socket (link_close s)
                cases r with
                | authOk => exact absurd rfl hok
                | _ => exact hnone
              rw [hr, hsocket'] at hclosed
              cases hclosed
  · cases hout : (s.waiters w).outcomes.head? with
    | none =>
        simp only [NodeTcp.resume, hpc, hout] at hr
        cases hr
    | some o =>
        cases o with
        | rejected err => exact Or.inr (Or.inr ⟨pos, ⟨w, err, hout, Or.inr hpc⟩, hpos⟩)
        | resolved r =>
            simp only [NodeTcp.resume, hpc, hout, Option.some.injEq] at hr
            exact hnext (n := s.reconnectAttempts) hpos (by simp only [State.resumes, hpc, hout])
              hr.symm

end Registering

end NodeTcp

end DittoClient
