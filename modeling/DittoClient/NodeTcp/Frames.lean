import DittoClient.NodeTcp.Ledger
import DittoClient.NodeTcp.Rollback
import DittoClient.Wire.Namespaces

/-!
# The entries that frames name

`watch` and `unwatch` normalize the namespace before it is encoded, and so do the frames that
register a watch again; the other operations encode the namespace as it is given. A watch and a
write with the same arguments meet on the same entry if and only if there is nothing to trim.
-/

namespace DittoClient

namespace NodeTcp

open DittoClient.Text
open DittoClient.Wire
open DittoClient.Transition

/-- The key and the namespace in a request on one entry. -/
def requestPair : Request → Option Pair
  | .get key ns => some ⟨ns, key⟩
  | .set key _ _ ns => some ⟨ns, key⟩
  | .delete key ns => some ⟨ns, key⟩
  | .watch key ns => some ⟨ns, key⟩
  | .unwatch key ns => some ⟨ns, key⟩
  | .setNx key _ _ ns => some ⟨ns, key⟩
  | .incr key _ _ ns => some ⟨ns, key⟩
  | _ => none

/-- The key and the namespace that are encoded in the frame of a request. -/
def encodedPair (r : Request) : Option Pair :=
  requestPair (r.content nodeEncoder.space)

/-- The step gives a new waiter the frame of a request. -/
def State.Gives (s t : State) (f : Request) : Prop :=
  t.nextWaiter = s.nextWaiter + 1 ∧ (t.waiters s.nextWaiter).request = f

/-- The requests of the operations that read or write an entry. -/
inductive Operates (key : String) (ns : Option String) : Request → Prop
  | get : Operates key ns (.get key ns)
  | set (value : List UInt8) (ttlSecs : Option ℤ) : Operates key ns (.set key value ttlSecs ns)
  | setNX (value : List UInt8) (ttlSecs : Option ℤ) : Operates key ns (.setNx key value ttlSecs ns)
  | incr (delta ttlSecsOnCreate : Option ℤ) : Operates key ns (.incr key delta ttlSecsOnCreate ns)
  | delete : Operates key ns (.delete key ns)

variable (opts : Options)

/-- A frame that the client sends for an operation with these arguments. -/
inductive OperationFrame (key : String) (ns : Option String) (f : Request) : Prop
  | call {s t : State} {r : Request} (h : Reached opts s) (hr : Operates key ns r)
      (hs : step opts s (.request r) = some t) (hf : s.Gives t f)

/-- A frame that the client sends for a watch with these arguments: by the call itself, by
`unwatch`, or later, when a run of `doConnect` registers the watch again. -/
inductive WatchFrame (key : String) (ns : Option String) (f : Request) : Prop
  | watch {s t : State} {callback : ℕ} (h : Reached opts s)
      (hs : step opts s (.watch key ns callback) = some t) (hf : s.Gives t f)
  | unwatch {s t : State} (h : Reached opts s) (hs : step opts s (.unwatch key ns) = some t)
      (hf : s.Gives t f)
  | again {s t u v : State} {callback k : ℕ} {m : Option String} {l : String}
      (h : Reached opts s) (hvalid : opts.validate (.watch key ns) = true)
      (hs : step opts s (.watch key ns callback) = some t)
      (hkept : Reachable (step opts) (Untouched opts (Pair.of key ns).name) t u)
      (hresume : step opts u (.resume k) = some v) (hf : u.Gives v f) (hwatch : f = .watch l m)
      (hname : Pair.name ⟨m, l⟩ = (Pair.of key ns).name)

/-- A watch and an operation with these arguments name one entry. -/
def Meet (key : String) (ns : Option String) : Prop :=
  ∀ f g, WatchFrame opts key ns f → OperationFrame opts key ns g → encodedPair f = encodedPair g

/-- There are no spaces around the namespace, or nothing else in it. -/
def NoSpaces (ns : Option String) : Prop :=
  ∀ s ∈ ns, blank nodeSpace s = true ∨ Text.trim nodeSpace s = s

section Pairs

variable {key : String} {ns : Option String}

theorem filter_eq_written (ns : Option String) :
    (ns.filter fun n => !blank nodeEncoder.space n) = nodeEncoder.writtenNamespace ns :=
  content_ns nodeEncoder (.get "" ns)

theorem normalized_written (ns : Option String) :
    nodeEncoder.writtenNamespace (normalizeNamespace ns) = normalizeNamespace ns := by
  rw [normalizeNamespace]
  exact writtenNamespace_trimmed nodeEncoder ns

/-- A normalized namespace is encoded as it is. -/
theorem encodedPair_watch :
    encodedPair (.watch key (normalizeNamespace ns)) = some (Pair.of key ns) := by
  change some (Pair.mk (Option.filter _ _) key) = _
  rw [filter_eq_written, normalized_written]
  rfl

theorem encodedPair_unwatch :
    encodedPair (.unwatch key (normalizeNamespace ns)) = some (Pair.of key ns) :=
  encodedPair_watch

/-- The other operations encode the namespace as it is given, unless it is blank. -/
theorem Operates.encodedPair {r : Request} (h : Operates key ns r) :
    encodedPair r = some ⟨nodeEncoder.writtenNamespace ns, key⟩ := by
  have hget : NodeTcp.encodedPair r = some ⟨ns.filter fun n => !blank nodeEncoder.space n, key⟩ := by
    cases h <;> rfl
  rw [hget, filter_eq_written]

theorem pair_eq_iff :
    Pair.of key ns = ⟨nodeEncoder.writtenNamespace ns, key⟩ ↔ NoSpaces ns := by
  rw [Pair.of, normalizeNamespace, Pair.mk.injEq]
  cases ns with
  | none => exact ⟨fun _ => nofun, fun _ => ⟨rfl, rfl⟩⟩
  | some s =>
      simp only [and_true, NoSpaces, Option.mem_def, Option.some.injEq, forall_eq']
      cases hblank : blank nodeSpace s with
      | true =>
          rw [trimmed_some_of_empty (trim_eq_empty_iff.mpr hblank),
            writtenNamespace_of_blank hblank]
          simp
      | false =>
          rw [trimmed_some_of_ne (trim_ne_empty hblank), writtenNamespace_of_not_blank hblank]
          simp

end Pairs

section Calls

variable {opts} {s t : State} {f : Request} {key : String} {ns : Option String}

/-- A request that is sent at all is given to the new waiter. -/
theorem gives_of_send (opts : Options) {req : Request} (h : s.Gives (send opts req s) f) : f = req := by
  obtain ⟨hnext, hf⟩ := h
  unfold send at hnext hf
  split at hnext
  · simp at hnext
  · next hdestroyed =>
      rw [if_neg hdestroyed] at hf
      split at hnext
      · next hsocket =>
          rw [hsocket] at hf
          dsimp only at hf
          split at hnext
          · next hauto =>
              rw [if_pos hauto] at hf
              simpa [State.newWaiter] using hf.symm
          · simp at hnext
      · next i hsocket =>
          rw [hsocket] at hf
          exact hf.symm.trans (writeNew_adds opts s .caller req).request

theorem send_gives (opts : Options) {req : Request} {i : ℕ} (hd : s.destroyed = false) (hs : s.socket = some i) :
    s.Gives (send opts req s) req := by
  have hadds := writeNew_adds opts s .caller req
  have hsend : send opts req s =
      (writeInflight opts req s.nextWaiter (s.newWaiter none .caller req)).1 := by
    simp [send, hd, hs]
  rw [hsend]
  exact ⟨hadds.nextWaiter, hadds.request⟩

theorem gives_of_watch {callback : ℕ} (hs : step opts s (.watch key ns callback) = some t)
    (h : s.Gives t f) : f = .watch key (normalizeNamespace ns) := by
  simp only [step] at hs
  split at hs
  · cases hs
    have hnext : (setCallback (watchCallbackKey key (normalizeNamespace ns)) key
        (normalizeNamespace ns) callback s).nextWaiter = s.nextWaiter := by
      unfold setCallback
      split
      · rfl
      · rfl
    have hsend : (setCallback (watchCallbackKey key (normalizeNamespace ns)) key
        (normalizeNamespace ns) callback s).Gives (watch opts key ns callback s) f := by
      unfold State.Gives
      rw [hnext]
      exact h
    exact gives_of_send opts hsend
  · cases hs
    exact absurd h.1 (by simp)

theorem gives_of_unwatch (hs : step opts s (.unwatch key ns) = some t) (h : s.Gives t f) :
    f = .unwatch key (normalizeNamespace ns) := by
  simp only [step, unwatch] at hs
  split at hs
  · split at hs
    · cases hs
      exact absurd h.1 (by simp)
    · cases hs
      exact gives_of_send opts h
  · cases hs
    exact absurd h.1 (by simp)

/-- A run of `doConnect` sends the watch of an entry of the map. -/
theorem gives_of_reRegisterWatches (opts : Options) {k pos : ℕ} {key : String} {ns : Option String}
    (h : s.Gives (reRegisterWatches opts k pos s) (.watch key ns)) :
    ∃ e ∈ s.watchCallbacks, e.key = key ∧ e.ns = ns := by
  obtain ⟨hnext, hf⟩ := h
  unfold reRegisterWatches at hnext hf
  split at hnext
  · next e i hfind hsocket =>
      rw [hfind, hsocket] at hf
      have hrequest := hf.symm.trans
        (writeNew_adds opts s (.task k) (.watch e.key e.ns)).request
      cases hrequest
      exact ⟨e, List.mem_of_find?_eq_some hfind, rfl, rfl⟩
  · exact absurd hnext (by simp [State.setPc])

/-- A run that is to register a watch does so when it is resumed. -/
theorem reRegisters_of_behind {k : ℕ} (hpc : s.Behind opts k) (hr : resume opts k s = some t) :
    ∃ u pos, u.watchCallbacks = s.watchCallbacks ∧ u.nextWaiter = s.nextWaiter ∧
      t = reRegisterWatches opts k pos u := by
  unfold resume at hr
  rcases hpc with ⟨hpc, htoken⟩ | ⟨w, hpc, hout⟩ | ⟨pos, w, r, hpc, hout⟩
  · rw [hpc] at hr
    cases hr
    exact ⟨{ s with reconnectAttempts := 0 }, 0, rfl, rfl, by simp [connected, htoken]⟩
  · simp only [hpc, hout, Option.some.injEq] at hr
    exact ⟨s, 0, rfl, rfl, hr.symm⟩
  · simp only [hpc, hout, Option.some.injEq] at hr
    exact ⟨s, pos, rfl, rfl, hr.symm⟩

theorem gives_of_resume {k : ℕ} (hw : WaiterInv s) (hs : step opts s (.resume k) = some t)
    (h : s.Gives t (.watch key ns)) : ∃ e ∈ s.watchCallbacks, e.key = key ∧ e.ns = ns := by
  have hr : resume opts k s = some t := by
    simp only [step] at hs
    split at hs
    · exact hs
    · cases hs
  cases resume_ledger opts hw hr with
  | kept _ hset _ => exact absurd (hset.nextWaiter.symm.trans h.1) (by simp)
  | lost ha _ _ => cases ha
  | read ha _ => cases ha
  | queued ha _ _ _ _ _ _ _ => cases ha
  | unsent _ _ _ hadds _ _ _ => cases hadds.request.symm.trans h.2
  | flushed _ _ hknows _ _ _ => exact absurd (hknows.nextWaiter.symm.trans h.1) (by simp)
  | sent hsends _ hadds _ _ _ =>
      cases hsends with
      | call _ ha _ => cases ha
      | auth _ _ => cases hadds.request.symm.trans h.2
      | watch _ _ hpc =>
          obtain ⟨u, pos, hwatches, hnext, rfl⟩ := reRegisters_of_behind hpc hr
          rw [← hwatches]
          have hgives : u.Gives (reRegisterWatches opts k pos u) (.watch key ns) := by
            unfold State.Gives
            rw [hnext]
            exact h
          exact gives_of_reRegisterWatches opts hgives

/-- The names in the map are those of the entries. -/
theorem name_of_reached (h : Reached opts s) :
    ∀ e ∈ s.registry.entries, e.name = Pair.name ⟨e.ns, e.key⟩ := by
  refine h.invariant (I := fun s => ∀ e ∈ s.registry.entries, e.name = Pair.name ⟨e.ns, e.key⟩)
    (by intro e he; cases he) ?_
  intro s a t hs _ hst e he
  rw [step_registry opts hst] at he
  cases a with
  | watch key ns callback =>
      simp only [Action.register] at he
      split at he
      · rcases Registry.mem_set _ he with ⟨hname, hreg⟩ | ⟨-, he⟩
        · have hentry : e.key = key ∧ e.ns = normalizeNamespace ns ∧ e.callback = callback := by
            simpa [WatchEntry.registration] using hreg
          rw [hname, hentry.1, hentry.2.1]
          rfl
        · exact hs e he
      · exact hs e he
  | unwatch key ns =>
      simp only [Action.register] at he
      split at he
      · exact hs e (Registry.mem_delete _ he).2
      · exact hs e he
  | _ => exact hs e he

/-- An entry of the map is still there if its name was not touched. -/
theorem mem_of_untouched {name : String} {a : Action} {r : Registry} {e : WatchEntry}
    (ha : a.touches opts ≠ some name) (he : e ∈ (a.register opts r).entries)
    (hname : e.name = name) : e ∈ r.entries := by
  cases a with
  | watch key ns callback =>
      simp only [Action.touches, Action.register] at ha he
      split at he
      · next hvalid =>
          rw [if_pos hvalid] at ha
          rcases Registry.mem_set _ he with ⟨hset, -⟩ | ⟨-, he⟩
          · exact absurd (congrArg some (hset.symm.trans hname)) ha
          · exact he
      · exact he
  | unwatch key ns =>
      simp only [Action.register] at he
      split at he
      · exact (Registry.mem_delete _ he).2
      · exact he
  | _ => exact he

/-- What is registered under the name of a watch is the watch, until the name is touched. -/
theorem registration_of_kept {u : State} {callback : ℕ}
    (hvalid : opts.validate (.watch key ns) = true)
    (hs : step opts s (.watch key ns callback) = some t)
    (hkept : Reachable (step opts) (Untouched opts (Pair.of key ns).name) t u) :
    ∀ e ∈ u.registry.entries, e.name = (Pair.of key ns).name →
      e.registration = ⟨key, normalizeNamespace ns, callback⟩ := by
  refine hkept.invariant (I := fun u => ∀ e ∈ u.registry.entries,
    e.name = (Pair.of key ns).name → e.registration = ⟨key, normalizeNamespace ns, callback⟩) ?_ ?_
  · intro e he hname
    rw [step_registry opts hs, Action.register, if_pos hvalid] at he
    rcases Registry.mem_set _ he with ⟨-, hreg⟩ | ⟨hne, -⟩
    · exact hreg
    · exact absurd hname hne
  · intro v a w hv ha hst e he hname
    rw [step_registry opts hst] at he
    exact hv e (mem_of_untouched ha he hname) hname

/-- A frame of `watch` names the entry of its normalized arguments. -/
theorem encodedPair_of_watchFrame (h : WatchFrame opts key ns f) :
    encodedPair f = some (Pair.of key ns) := by
  cases h with
  | watch h hs hf =>
      rw [gives_of_watch hs hf]
      exact encodedPair_watch
  | unwatch h hs hf =>
      rw [gives_of_unwatch hs hf]
      exact encodedPair_unwatch
  | @again s t u v callback k m l h hvalid hs hkept hresume hf hwatch hname =>
      have hu : Reached opts u := by
        obtain ⟨ls, hrun⟩ := h
        obtain ⟨ls', hrun'⟩ := hkept
        exact ⟨_, (hrun.append (Run.single trivial hs)).append (hrun'.mono fun _ _ _ => trivial)⟩
      rw [hwatch] at hf ⊢
      obtain ⟨e, he, rfl, rfl⟩ := gives_of_resume (waiterInv_of_reached opts hu) hresume hf
      have hreg := registration_of_kept hvalid hs hkept e he
        ((name_of_reached hu e he).trans hname)
      have hentry : e.key = key ∧ e.ns = normalizeNamespace ns ∧ e.callback = callback := by
        simpa [WatchEntry.registration] using hreg
      rw [hentry.1, hentry.2.1]
      exact encodedPair_watch

theorem encodedPair_of_operationFrame (h : OperationFrame opts key ns f) :
    encodedPair f = some ⟨nodeEncoder.writtenNamespace ns, key⟩ := by
  obtain ⟨h, hr, hs, hf⟩ := h
  simp only [step] at hs
  split at hs
  · split at hs
    · cases hs
      rw [gives_of_send opts hf]
      exact hr.encodedPair
    · cases hs
      exact absurd hf.1 (by simp)
  · cases hs

end Calls

section Validation

variable {key : String} {ns : Option String} {strict : Bool}

/-- The name of the operation makes a difference to the complaint only. -/
theorem isOk_validateCoreInputs (v : Validators) (op op' : String) :
    (v.validateCoreInputs strict op key ns).isOk =
      (v.validateCoreInputs strict op' key ns).isOk := by
  have hnamespace : ∀ n, (v.validateNamespace (v.complaint op) n).isOk =
      (v.validateNamespace (v.complaint op') n).isOk := by
    intro n
    unfold Validators.validateNamespace Validators.checkNamespace
    split_ifs <;> rfl
  unfold Validators.validateCoreInputs
  split_ifs
  · rfl
  · rfl
  · rfl
  · cases ns with
    | none => rfl
    | some n => exact hnamespace n

theorem Operates.isOk {r : Request} (h : Operates key ns r) :
    (nodeValidate strict r).isOk = (nodeValidate strict (.get key ns)).isOk := by
  cases h <;> exact isOk_validateCoreInputs nodeValidators _ _

theorem isOk_watch :
    (nodeValidate strict (.watch key ns)).isOk = (nodeValidate strict (.get key ns)).isOk :=
  isOk_validateCoreInputs nodeValidators _ _

theorem isOk_iff {α : Type} {x : Except α Unit} : x.isOk = true ↔ x = .ok () := by
  cases x with
  | error e => simp [Except.isOk, Except.toBool]
  | ok u => simp [Except.isOk, Except.toBool]

end Validation

theorem exists_connected (opts : Options) :
    ∃ s, Reached opts s ∧ s.destroyed = false ∧ s.socket = some 0 := by
  have hrun : exec (step opts) (fun _ _ => True) State.init [.connect true, .sockConnected 0] =
      some _ := rfl
  exact ⟨_, ⟨_, run_of_exec hrun⟩, rfl, rfl⟩

/-- Validation lets a frame of `watch` and one of another operation pass. -/
theorem frames_of_valid (opts : Options) {strict : Bool} {key : String} {ns : Option String}
    (hvalid : nodeValidate strict (.get key ns) = .ok ()) :
    WatchFrame (opts.inMode strict) key ns (.watch key (normalizeNamespace ns)) ∧
      OperationFrame (opts.inMode strict) key ns (.get key ns) := by
  obtain ⟨s, hs, hdestroyed, hsocket⟩ := exists_connected (opts.inMode strict)
  have hget : (opts.inMode strict).validate (.get key ns) = true := isOk_iff.mpr hvalid
  have hwatch : (opts.inMode strict).validate (.watch key ns) = true := isOk_watch.trans hget
  constructor
  · have hstep : step (opts.inMode strict) s (.watch key ns 0) =
        some (watch (opts.inMode strict) key ns 0 s) := by
      simp only [step, hwatch, if_true]
    have hkept : ∀ name, (setCallback name key (normalizeNamespace ns) 0 s).destroyed = false ∧
        (setCallback name key (normalizeNamespace ns) 0 s).socket = some 0 ∧
        (setCallback name key (normalizeNamespace ns) 0 s).nextWaiter = s.nextWaiter := by
      intro name
      unfold setCallback
      split
      · exact ⟨hdestroyed, hsocket, rfl⟩
      · exact ⟨hdestroyed, hsocket, rfl⟩
    obtain ⟨hd, hi, hnext⟩ := hkept (watchCallbackKey key (normalizeNamespace ns))
    have hgives : (setCallback (watchCallbackKey key (normalizeNamespace ns)) key
        (normalizeNamespace ns) 0 s).Gives (watch (opts.inMode strict) key ns 0 s)
          (.watch key (normalizeNamespace ns)) := send_gives _ hd hi
    unfold State.Gives at hgives
    rw [hnext] at hgives
    exact .watch hs hstep hgives
  · have hstep : step (opts.inMode strict) s (.request (.get key ns)) =
        some (send (opts.inMode strict) (.get key ns) s) := by
      simp only [step, hget, if_true]
      rfl
    exact .call hs .get hstep (send_gives _ hdestroyed hsocket)

/-- The watches and the other operations of a client meet if and only if validation rejects the
arguments, or the namespace has no spaces around it. -/
theorem watches_meet_iff (opts : Options) (strict : Bool) (key : String) (ns : Option String) :
    Meet (opts.inMode strict) key ns ↔
      nodeValidate strict (.get key ns) ≠ .ok () ∨ NoSpaces ns := by
  constructor
  · intro hmeet
    by_cases hvalid : nodeValidate strict (.get key ns) = .ok ()
    · obtain ⟨hwatch, hget⟩ := frames_of_valid opts hvalid
      have heq := hmeet _ _ hwatch hget
      rw [encodedPair_of_watchFrame hwatch, encodedPair_of_operationFrame hget] at heq
      exact Or.inr (pair_eq_iff.mp (Option.some.inj heq))
    · exact Or.inl hvalid
  · rintro (hinvalid | hspaces) f g hf hg
    · obtain ⟨-, hr, hs, hgives⟩ := hg
      have hrejected : ¬ (opts.inMode strict).validate _ = true := fun h =>
        hinvalid (isOk_iff.mp (hr.isOk.symm.trans h))
      simp only [step, if_neg hrejected] at hs
      split at hs
      · cases hs
        exact absurd hgives.1 (by simp)
      · cases hs
    · rw [encodedPair_of_watchFrame hf, encodedPair_of_operationFrame hg,
        pair_eq_iff.mpr hspaces]

/-- The write goes to the namespace with its space, the watch to the one without. -/
theorem watch_misses_write : ¬ Meet (Options.defaults.inMode true) "k" (some " a") := by
  intro h
  have hvalid : nodeValidate true (.get "k" (some " a")) = .ok () := isOk_iff.mp (by decide)
  obtain ⟨hwatch, hget⟩ := frames_of_valid Options.defaults hvalid
  exact absurd (h _ _ hwatch hget) (by decide)

end NodeTcp

end DittoClient
