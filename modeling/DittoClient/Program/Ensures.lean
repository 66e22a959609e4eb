import Mathlib.Logic.Basic

/-!
# Pre- and postconditions of programs that may fail

A program is an `EStateM` action: it transforms a state and either returns a value or
throws, and the state it leaves behind is kept in both cases. `Ensures P m Q E` says
that from a state satisfying `P` the program `m` leaves a state satisfying `Q a` when it
returns `a`, and one satisfying `E e` when it throws `e`. There is one rule for each way
of building a program; a specification of a composite program is assembled from those of
its parts.
-/

namespace DittoClient

namespace Program

variable {ε σ α β : Type}

/-- From `P`, the program returns with `Q` or throws with `E`. -/
def Ensures (P : σ → Prop) (m : EStateM ε σ α) (Q : α → σ → Prop) (E : ε → σ → Prop) :
    Prop :=
  ∀ s, P s → match m s with
    | .ok a t => Q a t
    | .error e t => E e t

variable {P P' : σ → Prop} {Q Q' : α → σ → Prop} {E E' : ε → σ → Prop}
  {m n : EStateM ε σ α}

theorem Ensures.of_ok (h : Ensures P m Q E) {s t : σ} {a : α} (hs : P s)
    (hm : m s = .ok a t) : Q a t := by
  have hp := h s hs
  rwa [hm] at hp

theorem Ensures.of_error (h : Ensures P m Q E) {s t : σ} {e : ε} (hs : P s)
    (hm : m s = .error e t) : E e t := by
  have hp := h s hs
  rwa [hm] at hp

/-- The consequence rule. -/
theorem Ensures.mono (h : Ensures P m Q E) (hP : ∀ s, P' s → P s)
    (hQ : ∀ a s, Q a s → Q' a s) (hE : ∀ e s, E e s → E' e s) : Ensures P' m Q' E' := by
  intro s hs
  have hp := h s (hP s hs)
  cases hm : m s with
  | ok a t => exact hQ a t (by rwa [hm] at hp)
  | error e t => exact hE e t (by rwa [hm] at hp)

theorem Ensures.strengthen_pre (h : Ensures P m Q E) (hP : ∀ s, P' s → P s) :
    Ensures P' m Q E :=
  h.mono hP (fun _ _ hq => hq) fun _ _ he => he

theorem Ensures.weaken_post (h : Ensures P m Q E) (hQ : ∀ a s, Q a s → Q' a s)
    (hE : ∀ e s, E e s → E' e s) : Ensures P m Q' E' :=
  h.mono (fun _ hs => hs) hQ hE

/-- Two specifications of one program hold together. -/
theorem Ensures.and (h : Ensures P m Q E) (h' : Ensures P' m Q' E') :
    Ensures (fun s => P s ∧ P' s) m (fun a s => Q a s ∧ Q' a s)
      (fun e s => E e s ∧ E' e s) := by
  rintro s ⟨hs, hs'⟩
  have hp := h s hs
  have hp' := h' s hs'
  cases hm : m s with
  | ok a t => exact ⟨by rwa [hm] at hp, by rwa [hm] at hp'⟩
  | error e t => exact ⟨by rwa [hm] at hp, by rwa [hm] at hp'⟩

theorem ensures_pure (a : α) (h : ∀ s, P s → Q a s) :
    Ensures P (pure a : EStateM ε σ α) Q E :=
  h

theorem ensures_throw (e : ε) (h : ∀ s, P s → E e s) :
    Ensures P (throw e : EStateM ε σ α) Q E :=
  h

/-- The sequencing rule: what the first part returns is the precondition of the rest. -/
theorem Ensures.bind {R : α → σ → Prop} {f : α → EStateM ε σ β} {Q : β → σ → Prop}
    (hm : Ensures P m R E) (hf : ∀ a, Ensures (R a) (f a) Q E) :
    Ensures P (m >>= f) Q E := by
  intro s hs
  have hp := hm s hs
  change match EStateM.bind m f s with
    | .ok a t => Q a t
    | .error e t => E e t
  unfold EStateM.bind
  cases hms : m s with
  | ok a t =>
      rw [hms] at hp
      exact hf a t hp
  | error e t =>
      rw [hms] at hp
      exact hp

/-- The rule for a handler: it starts from what the failed body left. -/
theorem Ensures.tryCatch {R : ε → σ → Prop} {handle : ε → EStateM ε σ α}
    (hm : Ensures P m Q R) (hh : ∀ e, Ensures (R e) (handle e) Q E) :
    Ensures P (tryCatch m handle) Q E := by
  intro s hs
  have hp := hm s hs
  change match EStateM.tryCatch m handle s with
    | .ok a t => Q a t
    | .error e t => E e t
  unfold EStateM.tryCatch
  simp only
  cases hms : m s with
  | ok a t =>
      rw [hms] at hp
      exact hp
  | error e t =>
      rw [hms] at hp
      exact hh e t hp

theorem Ensures.ite {c : Prop} [Decidable c] (ht : c → Ensures P m Q E)
    (hf : ¬ c → Ensures P n Q E) : Ensures P (if c then m else n) Q E := by
  split
  · next h => exact ht h
  · next h => exact hf h

/-- A program ensures what it does. -/
theorem ensures_run (m : EStateM ε σ α) (s : σ) :
    Ensures (· = s) m (fun a t => m s = .ok a t) fun e t => m s = .error e t := by
  rintro s rfl
  cases m s with
  | ok a t => rfl
  | error e t => rfl

/-- A pure fact in the precondition is available in the proof. -/
theorem Ensures.of_fact {p : Prop} (h : p → Ensures P m Q E) :
    Ensures (fun s => p ∧ P s) m Q E := by
  rintro s ⟨hp, hs⟩
  exact h hp s hs

end Program

end DittoClient
