import DittoClient.NodeTcp.Names

/-!
# Calls to watch and unwatch that fail

`watch` and `unwatch` change the map of callbacks before they send their request, and do not
change it back when the request fails. A call that is rejected behind validation has therefore
left the map as it was only if there was nothing to change.
-/

namespace DittoClient

namespace NodeTcp

open DittoClient.Wire
open DittoClient.Transition

/-- A call to `watch` or to `unwatch`, with its arguments. -/
inductive Subscription
  | watch (key : String) (ns : Option String) (callback : ℕ)
  | unwatch (key : String) (ns : Option String)
  deriving DecidableEq, Repr

namespace Subscription

def action : Subscription → Action
  | .watch key ns callback => .watch key ns callback
  | .unwatch key ns => .unwatch key ns

/-- The request that is validated. -/
def request : Subscription → Request
  | .watch key ns _ => .watch key ns
  | .unwatch key ns => .unwatch key ns

/-- The name of the entry. -/
def name : Subscription → String
  | .watch key ns _ => (Pair.of key ns).name
  | .unwatch key ns => (Pair.of key ns).name

/-- What the call puts under the name. -/
def leaves : Subscription → Option Registration
  | .watch key ns callback => some ⟨key, normalizeNamespace ns, callback⟩
  | .unwatch _ _ => none

/-- The reply that lets the call return. -/
def ack : Subscription → ClientResponse
  | .watch _ _ _ => .watching
  | .unwatch _ _ => .unwatched

/-- Whether a request is to be sent: `unwatch` returns without a socket. -/
def sends (s : State) : Subscription → Bool
  | .watch _ _ _ => true
  | .unwatch _ _ => s.socket.isSome

end Subscription

/-- The call that leads from `s` to `t` has been rejected in `u`: by validation, by `send` at
once, through its waiter, or because of the reply. -/
inductive Failed (opts : Options) (s : State) (c : Subscription) (t u : State) : Prop
  | invalid (h : opts.validate c.request = false)
  | refused (h : opts.validate c.request = true) (hsends : c.sends s = true)
      (hnot : s.destroyed = true ∨ s.socket = none ∧ opts.autoReconnect = false)
  | rejected (h : opts.validate c.request = true) (hnew : t.nextWaiter = s.nextWaiter + 1)
      (e : Err) (hout : (u.waiters s.nextWaiter).outcomes.head? = some (.rejected e))
  | answered (h : opts.validate c.request = true) (hnew : t.nextWaiter = s.nextWaiter + 1)
      (r : ClientResponse) (hr : r ≠ c.ack)
      (hout : (u.waiters s.nextWaiter).outcomes.head? = some (.resolved r))

/-- The name that an action changes the callback of. -/
def Action.touches (opts : Options) : Action → Option String
  | .watch key ns _ => if opts.validate (.watch key ns) then some (Pair.of key ns).name else none
  | .unwatch key ns =>
      if opts.validate (.unwatch key ns) then some (Pair.of key ns).name else none
  | _ => none

/-- The action is not a call to `watch` or `unwatch` that changes this callback. -/
def Untouched (opts : Options) (name : String) (_ : State) (a : Action) : Prop :=
  a.touches opts ≠ some name

/-- If the call fails, the callback is what it was before, unless other calls change it. -/
def RestoresOnFailure (opts : Options) (s : State) (c : Subscription) : Prop :=
  ∀ t u, step opts s c.action = some t → Reachable (step opts) (Untouched opts c.name) t u →
    Failed opts s c t u → u.registry.get c.name = s.registry.get c.name

variable {opts : Options} {s t u : State} {c : Subscription}

theorem get_of_untouched {name : String} {a : Action} (h : a.touches opts ≠ some name)
    (r : Registry) : (a.register opts r).get name = r.get name := by
  cases a with
  | watch key ns callback =>
      simp only [Action.touches, Action.register] at h ⊢
      split
      · next hvalid =>
          rw [if_pos hvalid] at h
          rw [Registry.get_set, if_neg]
          exact fun heq => h (congrArg some heq.symm)
      · rfl
  | unwatch key ns =>
      simp only [Action.touches, Action.register] at h ⊢
      split
      · next hvalid =>
          rw [if_pos hvalid] at h
          rw [Registry.get_delete, if_neg]
          exact fun heq => h (congrArg some heq.symm)
      · rfl
  | _ => rfl

/-- A callback that is not touched stays. -/
theorem get_of_reachable {name : String} (h : Reachable (step opts) (Untouched opts name) t u) :
    u.registry.get name = t.registry.get name := by
  refine h.invariant (I := fun u => u.registry.get name = t.registry.get name) rfl ?_
  intro v a w hv ha hs
  rw [step_registry opts hs, get_of_untouched ha, hv]

/-- What the call itself does. -/
theorem get_of_call (hs : step opts s c.action = some t) :
    t.registry.get c.name =
      if opts.validate c.request then c.leaves else s.registry.get c.name := by
  rw [step_registry opts hs]
  cases c with
  | watch key ns callback =>
      change ((Action.watch key ns callback).register opts s.registry).get _ =
        if opts.validate (.watch key ns) then some ⟨key, normalizeNamespace ns, callback⟩ else _
      by_cases hvalid : opts.validate (.watch key ns) = true
      · rw [Action.register, if_pos hvalid, if_pos hvalid, Registry.get_set]
        exact if_pos rfl
      · rw [Action.register, if_neg hvalid, if_neg hvalid]
  | unwatch key ns =>
      change ((Action.unwatch key ns).register opts s.registry).get _ =
        if opts.validate (.unwatch key ns) then none else _
      by_cases hvalid : opts.validate (.unwatch key ns) = true
      · rw [Action.register, if_pos hvalid, if_pos hvalid, Registry.get_delete]
        exact if_pos rfl
      · rw [Action.register, if_neg hvalid, if_neg hvalid]

/-- A call, whether it fails or not, leaves the callback as it was if and only if it fails
validation, or would not have changed it. -/
theorem restored_iff (hs : step opts s c.action = some t)
    (hrun : Reachable (step opts) (Untouched opts c.name) t u) :
    u.registry.get c.name = s.registry.get c.name ↔
      opts.validate c.request = false ∨ s.registry.get c.name = c.leaves := by
  rw [get_of_reachable hrun, get_of_call hs]
  cases opts.validate c.request with
  | false => simp
  | true => simp [eq_comm]

/-- A client that is not connected, and has been asked once before, fails and keeps what it had. -/
theorem restored_again :
    ∃ s t, exec (step Options.defaults) (fun _ _ => True) State.init [.watch "k" none 1] = some s ∧
      step Options.defaults s (.watch "k" none 1) = some t ∧
      Failed Options.defaults s (.watch "k" none 1) t t ∧
      t.registry.get "k" = s.registry.get "k" := by
  obtain ⟨s, t, hs, ht, hget, hsocket⟩ : ∃ s t,
      exec (step Options.defaults) (fun _ _ => True) State.init [.watch "k" none 1] = some s ∧
      step Options.defaults s (.watch "k" none 1) = some t ∧
      s.registry.get "k" = some ⟨"k", none, 1⟩ ∧ s.socket = none := ⟨_, _, rfl, rfl, rfl, rfl⟩
  refine ⟨s, t, hs, ht, .refused rfl rfl (Or.inr ⟨hsocket, rfl⟩), ?_⟩
  have hiff := restored_iff (c := .watch "k" none 1) ht ⟨_, Run.nil t⟩
  exact hiff.mpr (Or.inr hget)

/-- The call of a client that is not connected is rejected at once, and its callback stays. -/
theorem callback_left_behind :
    ¬ RestoresOnFailure Options.defaults State.init (.watch "k" none 1) := by
  intro h
  have hget := h _ _ rfl ⟨_, Run.nil _⟩ (.refused rfl rfl (Or.inr ⟨rfl, rfl⟩))
  exact absurd hget (by decide)

end NodeTcp

end DittoClient
