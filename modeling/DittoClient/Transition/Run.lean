import Mathlib.Data.List.Basic

/-!
# Runs of a guarded step function

A system is a partial step function `step : σ → α → Option σ`. `Run step C s ls t`
says that the actions `ls`, taken in this order from `s`, lead to `t`, and that
each of them met the condition `C` in the state it was taken in. The
unconditioned run is the one with `C := fun _ _ => True`.

An invariant is proved once for one step and then holds along every run
(`Run.invariant`); `exec` runs a list of actions and checks the condition on the
way, so a concrete run is obtained by evaluation.
-/

namespace DittoClient

namespace Transition

/-- The actions `ls`, each meeting `C` where it is taken, lead from `s` to `t`. -/
inductive Run {σ α : Type*} (step : σ → α → Option σ) (C : σ → α → Prop) :
    σ → List α → σ → Prop
  | nil (s : σ) : Run step C s [] s
  | snoc {s t u : σ} {ls : List α} {a : α} :
      Run step C s ls t → C t a → step t a = some u → Run step C s (ls ++ [a]) u

namespace Run

variable {σ α : Type*} {step : σ → α → Option σ} {C D : σ → α → Prop}

/-- A run of one action. -/
theorem single {s t : σ} {a : α} (hc : C s a) (h : step s a = some t) :
    Run step C s [a] t :=
  snoc (nil s) hc h

theorem append {s t u : σ} {ls ls' : List α} (h : Run step C s ls t)
    (h' : Run step C t ls' u) : Run step C s (ls ++ ls') u := by
  induction h' with
  | nil => simpa using h
  | snoc _ hc hs ih =>
      rw [← List.append_assoc]
      exact snoc ih hc hs

/-- A run under a condition is a run under every weaker one. -/
theorem mono {s t : σ} {ls : List α} (hCD : ∀ s a, C s a → D s a)
    (h : Run step C s ls t) : Run step D s ls t := by
  induction h with
  | nil => exact nil _
  | snoc _ hc hs ih => exact snoc ih (hCD _ _ hc) hs

/-- A condition that the actions of a run meet in every state may be added to it. -/
theorem of_forall_mem {s t : σ} {ls : List α} (h : Run step C s ls t)
    (hD : ∀ a ∈ ls, ∀ s, D s a) : Run step D s ls t := by
  induction h with
  | nil => exact nil _
  | snoc _ _ hs ih =>
      exact snoc (ih fun a ha => hD a (by simp [ha])) (hD _ (by simp) _) hs

/-- What holds at the start and is kept by every step that meets the condition
holds at the end of the run. -/
theorem invariant {I : σ → Prop} {s t : σ} {ls : List α} (h : Run step C s ls t)
    (h₀ : I s) (hstep : ∀ s a t, I s → C s a → step s a = some t → I t) : I t := by
  induction h with
  | nil => exact h₀
  | snoc _ hc hs ih => exact hstep _ _ _ ih hc hs

end Run

/-- The states a run under `C` reaches from `s`. -/
def Reachable {σ α : Type*} (step : σ → α → Option σ) (C : σ → α → Prop) (s t : σ) :
    Prop :=
  ∃ ls, Run step C s ls t

theorem Reachable.trans {σ α : Type*} {step : σ → α → Option σ} {C : σ → α → Prop}
    {s t u : σ} (h : Reachable step C s t) (h' : Reachable step C t u) :
    Reachable step C s u := by
  obtain ⟨ls, hls⟩ := h
  obtain ⟨ls', hls'⟩ := h'
  exact ⟨ls ++ ls', hls.append hls'⟩

/-- The inductive-invariant rule for reachable states. -/
theorem Reachable.invariant {σ α : Type*} {step : σ → α → Option σ}
    {C : σ → α → Prop} {I : σ → Prop} {s t : σ} (h : Reachable step C s t) (h₀ : I s)
    (hstep : ∀ s a t, I s → C s a → step s a = some t → I t) : I t := by
  obtain ⟨ls, hr⟩ := h
  exact hr.invariant h₀ hstep

/-- Take the actions in order, checking the condition before each of them. -/
def exec {σ α : Type*} (step : σ → α → Option σ) (C : σ → α → Prop)
    [∀ s a, Decidable (C s a)] : σ → List α → Option σ
  | s, [] => some s
  | s, a :: ls => if C s a then (step s a).bind fun t => exec step C t ls else none

/-- What `exec` computes is a run. -/
theorem run_of_exec {σ α : Type*} {step : σ → α → Option σ} {C : σ → α → Prop}
    [∀ s a, Decidable (C s a)] {s t : σ} {ls : List α}
    (h : exec step C s ls = some t) : Run step C s ls t := by
  induction ls generalizing s with
  | nil =>
      simp only [exec, Option.some.injEq] at h
      subst h
      exact Run.nil _
  | cons a ls ih =>
      simp only [exec] at h
      split at h
      · next hc =>
          obtain ⟨m, hm, hrest⟩ := Option.bind_eq_some_iff.mp h
          exact (Run.single hc hm).append (ih hrest)
      · cases h

end Transition

end DittoClient
