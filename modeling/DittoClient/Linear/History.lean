import DittoClient.Linear.Log
import DittoClient.Transition.Run

/-!
# Linearizable systems

A concurrent system keeps the log of the service that its operations reach (`View`). It is
linearizable if each operation that has returned took effect in the log between its call and
its return, once, with the result that the service gave there. It is enough to account for the
operations in every state (`View.Accounts`): an operation that was not called yet is not in the
log, and the log only grows.
-/

namespace DittoClient

namespace Linear

open DittoClient.Transition

variable {σ ι ο κ ρ S α : Type*} {M : Machine σ ι ο}

/-- What is seen of a system: the log of the service, the operations that were called, the
results of those that have returned, and whether a result goes with a request and the response
to it. -/
structure View (S : Type*) (M : Machine σ ι ο) (κ ρ : Type*) where
  log : S → Log M κ
  invoked : S → κ → Prop
  returned : S → κ → ρ → Prop
  fits : ρ → ι → ο → Prop

namespace View

variable (v : View S M κ ρ)

/-- An operation took effect between two moments. -/
def TakesEffect (s t : S) (k : κ) (res : ρ) : Prop :=
  ∃ pre e post, (v.log t).entries = pre ++ e :: post ∧ (v.log s).entries.length ≤ pre.length ∧
    e.origin = some k ∧ v.fits res e.request e.response

/-- In every run the log only grows, each operation is in it once at most, and one that is called
after `s` and has returned by `t` took effect in between. -/
def Atomic (step : S → α → Option S) (C : S → α → Prop) (init : S) : Prop :=
  ∀ s t, Reachable step C init s → Reachable step C s t →
    (v.log s).entries <+: (v.log t).entries ∧ (v.log t).origins.Nodup ∧
      ∀ k res, v.returned t k res → ¬ v.invoked s k → v.TakesEffect s t k res

/-- An operation that is called after another one has returned takes effect behind it. -/
def InOrder (step : S → α → Option S) (C : S → α → Prop) (init : S) : Prop :=
  ∀ s t u, Reachable step C init s → Reachable step C s t → Reachable step C t u →
    ∀ k l res res', v.returned t k res → ¬ v.invoked s k → v.returned u l res' →
      ¬ v.invoked t l → ∃ pre e mid f post,
        (v.log u).entries = pre ++ e :: (mid ++ f :: post) ∧
          e.origin = some k ∧ v.fits res e.request e.response ∧
          f.origin = some l ∧ v.fits res' f.request f.response

structure Linearizable (step : S → α → Option S) (C : S → α → Prop) (init : S) : Prop where
  atomic : v.Atomic step C init
  inOrder : v.InOrder step C init

/-- The log accounts for the operations. -/
structure Accounts (s : S) : Prop where
  once : (v.log s).origins.Nodup
  called : ∀ k ∈ (v.log s).origins, v.invoked s k
  answered : ∀ k res, v.returned s k res → ∃ e ∈ (v.log s).entries, e.origin = some k ∧
    v.fits res e.request e.response

variable {v} {step : S → α → Option S} {C : S → α → Prop} {init : S}

/-- What is in the log now and was not called before came to it since. -/
theorem takesEffect_of_accounts {s t : S} (hs : v.Accounts s) (ht : v.Accounts t)
    (hgrow : (v.log s).entries <+: (v.log t).entries) {k : κ} {res : ρ}
    (hreturned : v.returned t k res) (hfresh : ¬ v.invoked s k) : v.TakesEffect s t k res := by
  obtain ⟨e, he, hk, hfits⟩ := ht.answered k res hreturned
  obtain ⟨new, hnew⟩ := hgrow
  rw [← hnew] at he
  have hmem : e ∈ new := by
    refine (List.mem_append.mp he).resolve_left fun hold => hfresh ?_
    exact hs.called k (Log.mem_origins hold hk)
  obtain ⟨pre, post, rfl⟩ := List.append_of_mem hmem
  refine ⟨(v.log s).entries ++ pre, e, post, by simp [← hnew], ?_, hk, hfits⟩
  rw [List.length_append]
  exact Nat.le_add_right _ _

/-- Operations that do not overlap take effect in the order in which they were called. -/
theorem Atomic.inOrder (h : v.Atomic step C init) : v.InOrder step C init := by
  intro s t u hs hst htu k l res res' hk hk' hl hl'
  have ht : Reachable step C init t := hs.trans hst
  obtain ⟨pre, e, post, he, -, hek, hefits⟩ := (h s t hs hst).2.2 k res hk hk'
  obtain ⟨hgrow, -, heffect⟩ := h t u ht htu
  obtain ⟨pre', f, post', hf, hlen, hfl, hffits⟩ := heffect l res' hl hl'
  -- the second entry lies behind all that was in the log at the first return
  have hprefix : (v.log t).entries <+: pre' := by
    refine List.prefix_of_prefix_length_le hgrow ?_ hlen
    rw [hf]
    exact List.prefix_append _ _
  obtain ⟨mid, rfl⟩ := hprefix
  exact ⟨pre, e, post ++ mid, f, post', by simp [hf, he], hek, hefits, hfl, hffits⟩

/-- A system is linearizable if an invariant accounts for the operations in every state, and the
log grows in every step. -/
theorem linearizable_of_invariant (I : S → Prop) (hinit : I init)
    (hstep : ∀ s a t, I s → C s a → step s a = some t →
      I t ∧ (v.log s).entries <+: (v.log t).entries)
    (haccounts : ∀ s, I s → v.Accounts s) : v.Linearizable step C init := by
  have hatomic : v.Atomic step C init := by
    intro s t hs ht
    have hinv : I s := hs.invariant hinit fun s a t hI hC h => (hstep s a t hI hC h).1
    have hboth : I t ∧ (v.log s).entries <+: (v.log t).entries := by
      refine ht.invariant (I := fun t => I t ∧ (v.log s).entries <+: (v.log t).entries)
        ⟨hinv, List.prefix_refl _⟩ fun u a t hu hC h => ?_
      obtain ⟨hI, hgrow⟩ := hstep u a t hu.1 hC h
      exact ⟨hI, hu.2.trans hgrow⟩
    exact ⟨hboth.2, (haccounts t hboth.1).once, fun k res hreturned hfresh =>
      takesEffect_of_accounts (haccounts s hinv) (haccounts t hboth.1) hboth.2 hreturned hfresh⟩
  exact ⟨hatomic, hatomic.inOrder⟩

/-- The operations that have returned are no more than the ones that took effect. -/
theorem Accounts.length_le {s : S} (h : v.Accounts s) {ks : List κ} (hnodup : ks.Nodup)
    (hreturned : ∀ k ∈ ks, ∃ res, v.returned s k res) (p : κ → Bool)
    (hp : ∀ k ∈ ks, p k = true) : ks.length ≤ (v.log s).origins.countP p := by
  have hsub : ks ⊆ (v.log s).origins.filter p := by
    intro k hk
    obtain ⟨res, hres⟩ := hreturned k hk
    obtain ⟨e, he, horigin, -⟩ := h.answered k res hres
    exact List.mem_filter.mpr ⟨Log.mem_origins he horigin, hp k hk⟩
  rw [List.countP_eq_length_filter]
  exact (List.subperm_of_subset hnodup hsub).length_le

end View

end Linear

end DittoClient
