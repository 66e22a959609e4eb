import DittoClient.NodeTcp.Names

/-!
# The routing of watch events

An event of the server names the entry that changed, and the callback that is stored under this
name is invoked. The callbacks of several watched entries are kept apart as long as no two of
the entries have one name.
-/

namespace DittoClient

namespace NodeTcp

open DittoClient.Wire
open DittoClient.Transition

/-- The callback that is invoked for an event with this name. -/
def State.invoked (s : State) (name : String) : Option ℕ :=
  (s.registry.get name).map Registration.callback

/-- What is done with the payload of an event. -/
theorem handlePayload_watchEvent {i : ℕ} {payload : List UInt8} {s : State} {name : String}
    {value : Option (List UInt8)} {version : ℤ}
    (h : decodeResponse payload = .ok (.watchEvent name value version)) :
    handlePayload i payload s =
      { s with received := s.received ++ [⟨i, payload, none, s.invoked name⟩] } := by
  unfold handlePayload
  rw [h]
  simp [State.invoked, Registry.get, State.registry, Function.comp_def,
    WatchEntry.registration]

/-- A call to `watch`: the entry that it names, and its callback. -/
structure Call where
  pair : Pair
  callback : ℕ
  deriving DecidableEq, Repr

/-- The call that an action is, if it is one that validation accepts. -/
def Action.watchCall (opts : Options) : Action → Option Call
  | .watch key ns callback =>
      if opts.validate (.watch key ns) then some ⟨Pair.of key ns, callback⟩ else none
  | _ => none

def watchCalls (opts : Options) (ls : List Action) : List Call :=
  ls.filterMap (Action.watchCall opts)

/-- The action is not a call to `unwatch`. -/
def Action.keeps : Action → Bool
  | .unwatch _ _ => false
  | _ => true

/-- Every event for a watched entry invokes the callback of this entry, also after another entry
was given up. -/
def RoutesEvents (opts : Options) (s : State) (calls : List Call) : Prop :=
  ∀ c ∈ calls, (∀ i payload value version,
      decodeResponse payload = .ok (.watchEvent c.pair.name value version) →
        handlePayload i payload s =
          { s with received := s.received ++ [⟨i, payload, none, some c.callback⟩] }) ∧
    ∀ key ns, (∃ d ∈ calls, d.pair = Pair.of key ns ∧ d.pair ≠ c.pair) →
      (unwatch opts key ns s).invoked c.pair.name = some c.callback

variable {opts : Options}

section Calls

/-- What the strict mode accepts. -/
theorem strict_of_isOk {key : String} {ns : Option String}
    (h : (nodeValidate true (.watch key ns)).isOk = true) : (Pair.of key ns).Strict := by
  have hok : nodeValidators.validate true (.watch key ns) = .ok () := by
    change (nodeValidators.validate true (.watch key ns)).isOk = true at h
    cases hv : nodeValidators.validate true (.watch key ns) with
    | error e =>
        rw [hv] at h
        cases h
    | ok u => rfl
  intro n hn
  change n ∈ normalizeNamespace ns at hn
  cases ns with
  | none => cases hn
  | some s =>
      have hs := Validators.validate_strictNamespace hok s rfl
      have hpresent : Text.trim Text.nodeSpace s ≠ "" := hs.present
      rw [normalizeNamespace, Text.trimmed_some_of_ne hpresent] at hn
      cases hn
      exact ⟨hpresent, hs.colons⟩

theorem exists_of_mem {ls : List Action} {c : Call} (h : c ∈ watchCalls opts ls) :
    ∃ key ns, c.pair = Pair.of key ns := by
  obtain ⟨a, -, ha⟩ := List.mem_filterMap.mp h
  unfold Action.watchCall at ha
  split at ha
  · next key ns callback =>
      split at ha
      · cases ha
        exact ⟨key, ns, rfl⟩
      · cases ha
  · cases ha

theorem strict_of_mem {ls : List Action} {c : Call} (h : c ∈ watchCalls (opts.inMode true) ls) :
    c.pair.Strict := by
  obtain ⟨a, -, ha⟩ := List.mem_filterMap.mp h
  unfold Action.watchCall at ha
  split at ha
  · split at ha
    · next hvalid =>
        cases ha
        rw [Options.inMode_validate] at hvalid
        exact strict_of_isOk hvalid
    · cases ha
  · cases ha

end Calls

/-- An action that keeps the callbacks sets that of the call that it is. -/
theorem get_register {a : Action} (hkeep : a.keeps = true) (r : Registry) (name : String) :
    (a.register opts r).get name =
      match a.watchCall opts with
      | none => r.get name
      | some c => if name = c.pair.name then some ⟨c.pair.key, c.pair.ns, c.callback⟩
          else r.get name := by
  cases a with
  | watch key ns callback =>
      simp only [Action.register, Action.watchCall]
      split
      · exact Registry.get_set _ _ _ _
      · rfl
  | unwatch key ns => cases hkeep
  | _ => rfl

/-- If the names differ, each callback is found under its own. -/
theorem get_of_run {s : State} {ls : List Action}
    (h : Run (step opts) (fun _ _ => True) State.init ls s)
    (hkeep : ∀ a ∈ ls, a.keeps = true)
    (hnames : (watchCalls opts ls).Pairwise fun c d => c.pair.name ≠ d.pair.name) :
    ∀ c ∈ watchCalls opts ls,
      s.registry.get c.pair.name = some ⟨c.pair.key, c.pair.ns, c.callback⟩ := by
  induction h with
  | nil => nofun
  | @snoc t u ls a h _ hs ih =>
      have hcalls : watchCalls opts (ls ++ [a]) = watchCalls opts ls ++ (a.watchCall opts).toList := by
        rw [watchCalls, List.filterMap_append]
        cases ha : a.watchCall opts with
        | none => simp [watchCalls, ha]
        | some c => simp [watchCalls, ha]
      rw [hcalls] at hnames ⊢
      obtain ⟨hold, -, hnew⟩ := List.pairwise_append.mp hnames
      have ih := ih (fun b hb => hkeep b (List.mem_append_left _ hb)) hold
      intro c hc
      rw [step_registry opts hs, get_register (hkeep a (by simp))]
      cases ha : a.watchCall opts with
      | none =>
          rw [ha] at hc
          exact ih c (by simpa using hc)
      | some d =>
          rw [ha] at hc hnew
          rcases List.mem_append.mp hc with hc | hc
          · simp only [if_neg (hnew c hc d (by simp))]
            exact ih c hc
          · have hd : c = d := by simpa using hc
            simp [hd]

theorem unwatch_invoked (key : String) (ns : Option String) (s : State) (name : String) :
    (unwatch opts key ns s).invoked name =
      if name = (Pair.of key ns).name then none else s.invoked name := by
  rw [State.invoked, registry_unwatch, Registry.get_delete]
  change Option.map _ (if name = (Pair.of key ns).name then none else s.registry.get name) = _
  split
  · rfl
  · rfl

/-- In a run in which strict watches name different entries, the events are routed to them if and
only if no two of the entries clash. -/
theorem events_routed {s : State} {ls : List Action}
    (h : Run (step (opts.inMode true)) (fun _ _ => True) State.init ls s)
    (hkeep : ∀ a ∈ ls, a.keeps = true)
    (hpairs : (watchCalls (opts.inMode true) ls).Pairwise fun c d => c.pair ≠ d.pair) :
    RoutesEvents (opts.inMode true) s (watchCalls (opts.inMode true) ls) ↔
      ∀ c ∈ watchCalls (opts.inMode true) ls, ∀ d ∈ watchCalls (opts.inMode true) ls,
        ¬ c.pair.Clash d.pair := by
  have hstrict : ∀ c ∈ watchCalls (opts.inMode true) ls, c.pair.Strict := fun c => strict_of_mem
  constructor
  · intro hroutes c hc d hd hclash
    have heq := (Pair.name_eq_iff (hstrict c hc) (hstrict d hd)).mpr (Or.inr hclash)
    obtain ⟨key, ns, hpair⟩ := exists_of_mem hd
    have hkept := (hroutes c hc).2 key ns ⟨d, hd, hpair, hclash.ne.symm⟩
    rw [unwatch_invoked, ← hpair, if_pos heq] at hkept
    cases hkept
  · intro hclash c hc
    have hname : ∀ d ∈ watchCalls (opts.inMode true) ls, d.pair ≠ c.pair →
        c.pair.name ≠ d.pair.name := by
      intro d hd hne heq
      rcases (Pair.name_eq_iff (hstrict c hc) (hstrict d hd)).mp heq with hpair | hclashed
      · exact hne hpair.symm
      · exact hclash c hc d hd hclashed
    have hnames : (watchCalls (opts.inMode true) ls).Pairwise
        fun c d => c.pair.name ≠ d.pair.name := by
      refine hpairs.imp_of_mem fun {a b} ha hb hne heq => ?_
      rcases (Pair.name_eq_iff (hstrict a ha) (hstrict b hb)).mp heq with hpair | hclashed
      · exact hne hpair
      · exact hclash a ha b hb hclashed
    have hget := get_of_run h hkeep hnames c hc
    have hinvoked : s.invoked c.pair.name = some c.callback := by
      rw [State.invoked, hget]
      rfl
    refine ⟨fun i payload value version hdecode => ?_, ?_⟩
    · rw [handlePayload_watchEvent hdecode, hinvoked]
    · rintro key ns ⟨d, hd, hpair, hne⟩
      rw [unwatch_invoked, ← hpair, if_neg (hname d hd hne), hinvoked]

/-- Two calls for one key in two namespaces. -/
def plainWatches : List Action :=
  [.watch "a" (some "left") 1, .watch "a" (some "right") 2]

/-- The events of one key in two namespaces are kept apart. -/
theorem events_routed_plain :
    ∃ s, Run (step (Options.defaults.inMode true)) (fun _ _ => True) State.init plainWatches s ∧
      RoutesEvents (Options.defaults.inMode true) s
        [⟨⟨some "left", "a"⟩, 1⟩, ⟨⟨some "right", "a"⟩, 2⟩] := by
  obtain ⟨s, hrun⟩ : ∃ s, exec (step (Options.defaults.inMode true)) (fun _ _ => True)
      State.init plainWatches = some s := Option.isSome_iff_exists.mp (by decide)
  have hcalls : watchCalls (Options.defaults.inMode true) plainWatches =
      [⟨⟨some "left", "a"⟩, 1⟩, ⟨⟨some "right", "a"⟩, 2⟩] := by decide
  have hroutes := events_routed (run_of_exec hrun) (by decide) (by rw [hcalls]; decide)
  rw [hcalls] at hroutes
  exact ⟨s, run_of_exec hrun, hroutes.mpr (by decide)⟩

/-- A key that begins with a colon, and a namespace that ends with one. -/
def clashingWatches : List Action :=
  [.watch ":b" (some "a") 1, .watch "b" (some "a:") 2]

/-- The events of the first entry invoke the callback of the second. -/
theorem events_misrouted :
    ∃ s, Run (step (Options.defaults.inMode true)) (fun _ _ => True) State.init clashingWatches s ∧
      watchCalls (Options.defaults.inMode true) clashingWatches =
        [⟨⟨some "a", ":b"⟩, 1⟩, ⟨⟨some "a:", "b"⟩, 2⟩] ∧
      s.invoked (Pair.name ⟨some "a", ":b"⟩) = some 2 ∧
      ¬ RoutesEvents (Options.defaults.inMode true) s
        (watchCalls (Options.defaults.inMode true) clashingWatches) := by
  obtain ⟨s, hrun, hinvoked, hgone⟩ : ∃ s,
      exec (step (Options.defaults.inMode true)) (fun _ _ => True) State.init clashingWatches =
        some s ∧ s.invoked (Pair.name ⟨some "a", ":b"⟩) = some 2 ∧
      (unwatch (Options.defaults.inMode true) "b" (some "a:") s).invoked
        (Pair.name ⟨some "a", ":b"⟩) = none := ⟨_, rfl, by decide, by decide⟩
  have hcalls : watchCalls (Options.defaults.inMode true) clashingWatches =
      [⟨⟨some "a", ":b"⟩, 1⟩, ⟨⟨some "a:", "b"⟩, 2⟩] := by decide
  refine ⟨s, run_of_exec hrun, hcalls, hinvoked, fun h => ?_⟩
  rw [hcalls] at h
  have hkept := (h ⟨⟨some "a", ":b"⟩, 1⟩ (by simp)).2 "b" (some "a:")
    ⟨⟨⟨some "a:", "b"⟩, 2⟩, by simp, by decide, by decide⟩
  rw [hgone] at hkept
  cases hkept

end NodeTcp

end DittoClient
