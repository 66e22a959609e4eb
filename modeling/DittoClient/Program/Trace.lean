import DittoClient.Program.Ensures
import Mathlib.Data.List.Basic

/-!
# The events of a program

What a program does to its state may be told as a list of events, each of which is a step
from one state to the next. `TracedAt step m Q E s` says that the state `t` in which `m`
ends when it is run from `s` is reached by a path of events `es`, with `Q a es t` when it
returns `a` and `E e es t` when it throws `e`. As for `Ensures` there is one rule for each way
of building a program; the events of a composite program are those of its parts, one after
the other, and what the first part did is known where the next one begins. `Traced` is the
form for every state and for what the events alone say.
-/

namespace DittoClient

namespace Program

variable {ε σ ι α β : Type} {step : ι → σ → σ → Prop}

/-- The events `es` lead, one after the other, from `s` to `t`. -/
inductive Path (step : ι → σ → σ → Prop) : σ → List ι → σ → Prop
  | nil (s : σ) : Path step s [] s
  | cons {s t u : σ} {e : ι} {es : List ι} :
      step e s t → Path step t es u → Path step s (e :: es) u

namespace Path

variable {s t u : σ} {e : ι} {es fs : List ι}

theorem single (h : step e s t) : Path step s [e] t :=
  cons h (nil t)

theorem append (h : Path step s es t) (h' : Path step t fs u) : Path step s (es ++ fs) u := by
  induction h with
  | nil s => exact h'
  | cons hstep _ ih => exact cons hstep (ih h')

/-- A path may be cut anywhere. -/
theorem of_append (h : Path step s (es ++ fs) u) :
    ∃ t, Path step s es t ∧ Path step t fs u := by
  induction es generalizing s with
  | nil => exact ⟨s, nil s, h⟩
  | cons e es ih =>
      cases h with
      | cons hstep hrest =>
          obtain ⟨t, hes, hfs⟩ := ih hrest
          exact ⟨t, cons hstep hes, hfs⟩

end Path

/-- Run from `s`, the program goes through events with `Q` and returns, or through events
with `E` and throws. The state it ends in is told as well. -/
def TracedAt (step : ι → σ → σ → Prop) (m : EStateM ε σ α) (Q : α → List ι → σ → Prop)
    (E : ε → List ι → σ → Prop) (s : σ) : Prop :=
  match m s with
  | .ok a t => ∃ es, Path step s es t ∧ Q a es t
  | .error e t => ∃ es, Path step s es t ∧ E e es t

/-- Wherever the program is run, it goes through events with `Q` and returns, or through
events with `E` and throws. -/
def Traced (step : ι → σ → σ → Prop) (m : EStateM ε σ α) (Q : α → List ι → Prop)
    (E : ε → List ι → Prop) : Prop :=
  ∀ s, TracedAt step m (fun a es _ => Q a es) (fun e es _ => E e es) s

section At

variable {Q Q' : α → List ι → σ → Prop} {E E' : ε → List ι → σ → Prop} {m n : EStateM ε σ α}
  {s t : σ}

theorem TracedAt.of_ok (h : TracedAt step m Q E s) {a : α} (hm : m s = .ok a t) :
    ∃ es, Path step s es t ∧ Q a es t := by
  rwa [TracedAt, hm] at h

theorem TracedAt.of_error (h : TracedAt step m Q E s) {e : ε} (hm : m s = .error e t) :
    ∃ es, Path step s es t ∧ E e es t := by
  rwa [TracedAt, hm] at h

/-- The two ends of a program that is run from `s`. -/
theorem TracedAt.intro (hQ : ∀ a t, m s = .ok a t → ∃ es, Path step s es t ∧ Q a es t)
    (hE : ∀ e t, m s = .error e t → ∃ es, Path step s es t ∧ E e es t) :
    TracedAt step m Q E s := by
  rw [TracedAt]
  cases hm : m s with
  | ok a t => exact hQ a t hm
  | error e t => exact hE e t hm

/-- The consequence rule: what the program did and where it went may be used. -/
theorem TracedAt.mono (h : TracedAt step m Q E s)
    (hQ : ∀ a es t, m s = .ok a t → Path step s es t → Q a es t → Q' a es t)
    (hE : ∀ e es t, m s = .error e t → Path step s es t → E e es t → E' e es t) :
    TracedAt step m Q' E' s := by
  refine TracedAt.intro (fun a t hm => ?_) fun e t hm => ?_
  · obtain ⟨es, hpath, hq⟩ := h.of_ok hm
    exact ⟨es, hpath, hQ a es t hm hpath hq⟩
  · obtain ⟨es, hpath, he⟩ := h.of_error hm
    exact ⟨es, hpath, hE e es t hm hpath he⟩

theorem tracedAt_pure (a : α) (h : Q a [] s) :
    TracedAt step (pure a : EStateM ε σ α) Q E s :=
  ⟨[], Path.nil s, h⟩

theorem tracedAt_throw (e : ε) (h : E e [] s) :
    TracedAt step (throw e : EStateM ε σ α) Q E s :=
  ⟨[], Path.nil s, h⟩

/-- What is traced after a path continues it. -/
theorem TracedAt.after {es : List ι} (hpath : Path step s es t)
    (h : TracedAt step m (fun a fs u => Q a (es ++ fs) u) (fun e fs u => E e (es ++ fs) u) t) :
    match m t with
    | .ok a u => ∃ fs, Path step s fs u ∧ Q a fs u
    | .error e u => ∃ fs, Path step s fs u ∧ E e fs u := by
  cases hm : m t with
  | ok a u =>
      obtain ⟨fs, hrest, hq⟩ := h.of_ok hm
      exact ⟨es ++ fs, hpath.append hrest, hq⟩
  | error e u =>
      obtain ⟨fs, hrest, he⟩ := h.of_error hm
      exact ⟨es ++ fs, hpath.append hrest, he⟩

/-- The sequencing rule: the events of the rest follow those of the first part. -/
theorem TracedAt.bind {R : α → List ι → σ → Prop} {f : α → EStateM ε σ β}
    {Q : β → List ι → σ → Prop} (hm : TracedAt step m R E s)
    (hf : ∀ a es t, m s = .ok a t → Path step s es t → R a es t →
      TracedAt step (f a) (fun b fs u => Q b (es ++ fs) u) (fun e fs u => E e (es ++ fs) u) t) :
    TracedAt step (m >>= f) Q E s := by
  change match EStateM.bind m f s with
    | .ok a t => ∃ es, Path step s es t ∧ Q a es t
    | .error e t => ∃ es, Path step s es t ∧ E e es t
  unfold EStateM.bind
  cases hms : m s with
  | error e t => exact hm.of_error hms
  | ok a t =>
      obtain ⟨es, hpath, hr⟩ := hm.of_ok hms
      exact (hf a es t hms hpath hr).after hpath

/-- The rule for a handler: its events follow those of the failed body. -/
theorem TracedAt.tryCatch {R : ε → List ι → σ → Prop} {handle : ε → EStateM ε σ α}
    (hm : TracedAt step m Q R s)
    (hh : ∀ e es t, m s = .error e t → Path step s es t → R e es t →
      TracedAt step (handle e) (fun a fs u => Q a (es ++ fs) u)
        (fun e' fs u => E e' (es ++ fs) u) t) :
    TracedAt step (tryCatch m handle) Q E s := by
  change match EStateM.tryCatch m handle s with
    | .ok a t => ∃ es, Path step s es t ∧ Q a es t
    | .error e t => ∃ es, Path step s es t ∧ E e es t
  unfold EStateM.tryCatch
  simp only
  cases hms : m s with
  | ok a t => exact hm.of_ok hms
  | error e t =>
      obtain ⟨es, hpath, hr⟩ := hm.of_error hms
      exact (hh e es t hms hpath hr).after hpath

theorem TracedAt.ite {c : Prop} [Decidable c] (ht : c → TracedAt step m Q E s)
    (hf : ¬ c → TracedAt step n Q E s) : TracedAt step (if c then m else n) Q E s := by
  split
  · next h => exact ht h
  · next h => exact hf h

end At

variable {Q Q' : α → List ι → Prop} {E E' : ε → List ι → Prop} {m n : EStateM ε σ α}

theorem Traced.of_ok (h : Traced step m Q E) {s t : σ} {a : α} (hm : m s = .ok a t) :
    ∃ es, Path step s es t ∧ Q a es :=
  (h s).of_ok hm

theorem Traced.of_error (h : Traced step m Q E) {s t : σ} {e : ε} (hm : m s = .error e t) :
    ∃ es, Path step s es t ∧ E e es :=
  (h s).of_error hm

/-- The consequence rule. -/
theorem Traced.mono (h : Traced step m Q E) (hQ : ∀ a es, Q a es → Q' a es)
    (hE : ∀ e es, E e es → E' e es) : Traced step m Q' E' :=
  fun s => (h s).mono (fun a es _ _ _ => hQ a es) fun e es _ _ _ => hE e es

theorem traced_pure (a : α) (h : Q a []) : Traced step (pure a : EStateM ε σ α) Q E :=
  fun _ => tracedAt_pure a h

theorem traced_throw (e : ε) (h : E e []) : Traced step (throw e : EStateM ε σ α) Q E :=
  fun _ => tracedAt_throw e h

/-- The sequencing rule: the events of the rest follow those of the first part. -/
theorem Traced.bind {R : α → List ι → Prop} {f : α → EStateM ε σ β} {Q : β → List ι → Prop}
    (hm : Traced step m R E)
    (hf : ∀ a es, R a es →
      Traced step (f a) (fun b fs => Q b (es ++ fs)) fun e fs => E e (es ++ fs)) :
    Traced step (m >>= f) Q E :=
  fun s => (hm s).bind fun a es t _ _ hr => hf a es hr t

/-- The rule for a handler: its events follow those of the failed body. -/
theorem Traced.tryCatch {R : ε → List ι → Prop} {handle : ε → EStateM ε σ α}
    (hm : Traced step m Q R)
    (hh : ∀ e es, R e es →
      Traced step (handle e) (fun a fs => Q a (es ++ fs)) fun e' fs => E e' (es ++ fs)) :
    Traced step (tryCatch m handle) Q E :=
  fun s => (hm s).tryCatch fun e es t _ _ hr => hh e es hr t

theorem Traced.ite {c : Prop} [Decidable c] (ht : c → Traced step m Q E)
    (hf : ¬ c → Traced step n Q E) : Traced step (if c then m else n) Q E :=
  fun s => TracedAt.ite (fun h => ht h s) fun h => hf h s

/-- All events of the program satisfy `p`, whether it returns or throws. -/
def Within (step : ι → σ → σ → Prop) (p : ι → Prop) (m : EStateM ε σ α) : Prop :=
  Traced step m (fun _ es => ∀ e ∈ es, p e) fun _ es => ∀ e ∈ es, p e

namespace Within

variable {p : ι → Prop}

theorem pure (a : α) : Within step p (Pure.pure a : EStateM ε σ α) :=
  traced_pure a (by simp)

theorem throw (e : ε) : Within step p (MonadExcept.throw e : EStateM ε σ α) :=
  traced_throw e (by simp)

theorem bind {f : α → EStateM ε σ β} (hm : Within step p m) (hf : ∀ a, Within step p (f a)) :
    Within step p (m >>= f) :=
  Traced.bind hm fun a _ hes => (hf a).mono
    (fun _ _ hfs => List.forall_mem_append.mpr ⟨hes, hfs⟩)
    fun _ _ hfs => List.forall_mem_append.mpr ⟨hes, hfs⟩

theorem tryCatch {handle : ε → EStateM ε σ α} (hm : Within step p m)
    (hh : ∀ e, Within step p (handle e)) :
    Within step p (MonadExcept.tryCatch m handle) :=
  Traced.tryCatch hm fun e _ hes => (hh e).mono
    (fun _ _ hfs => List.forall_mem_append.mpr ⟨hes, hfs⟩)
    fun _ _ hfs => List.forall_mem_append.mpr ⟨hes, hfs⟩

theorem ite {c : Prop} [Decidable c] (hm : Within step p m) (hn : Within step p n) :
    Within step p (if c then m else n) :=
  Traced.ite (fun _ => hm) fun _ => hn

end Within

end Program

end DittoClient
