import Mathlib.Data.List.Nodup
import Mathlib.Data.List.Perm.Subperm

/-!
# Logs of a sequential service

A `Machine` is a service that takes one request after the other. What it has served is a list
of entries in this order, and in a `Log` each response is the one the machine gives after the
entries in front of it. An entry may name the operation that the request was made by.
-/

namespace DittoClient

namespace Linear

/-- A service that takes one request after the other. -/
structure Machine (σ ι ο : Type*) where
  init : σ
  handle : σ → ι → σ × ο

/-- A request that was served, and the operation it was made by, if that is known. -/
structure Entry (κ ι ο : Type*) where
  origin : Option κ
  request : ι
  response : ο

variable {σ ι ο κ : Type*}

namespace Machine

variable (M : Machine σ ι ο)

/-- The state behind some entries. -/
def after (es : List (Entry κ ι ο)) : σ :=
  es.foldl (fun s e => (M.handle s e.request).1) M.init

/-- Each response is the one that the machine gives after the entries in front of it. -/
def Explains (es : List (Entry κ ι ο)) : Prop :=
  ∀ pre e post, es = pre ++ e :: post → e.response = (M.handle (M.after pre) e.request).2

variable {M}

theorem explains_nil : M.Explains ([] : List (Entry κ ι ο)) := by
  intro pre e post h
  cases pre <;> cases h

/-- The machine serves one more request. -/
theorem Explains.snoc {es : List (Entry κ ι ο)} (h : M.Explains es) (k : Option κ) (i : ι) :
    M.Explains (es ++ [⟨k, i, (M.handle (M.after es) i).2⟩]) := by
  intro pre e post heq
  rcases List.eq_nil_or_concat post with rfl | ⟨post, last, rfl⟩
  · obtain ⟨rfl, hlast⟩ := List.append_inj' heq rfl
    rw [← (List.cons.inj hlast).1]
  · have hsplit : es = pre ++ e :: post ∧ [⟨k, i, (M.handle (M.after es) i).2⟩] = [last] := by
      refine List.append_inj' ?_ rfl
      rw [heq]
      simp
    exact h pre e post hsplit.1

/-- Entries that leave the machine as it is may be left out. -/
theorem after_filter {es : List (Entry κ ι ο)} {p : Entry κ ι ο → Bool}
    (hp : ∀ e ∈ es, p e = false → ∀ s, (M.handle s e.request).1 = s) :
    M.after (es.filter p) = M.after es := by
  have hfold : ∀ s, (es.filter p).foldl (fun s e => (M.handle s e.request).1) s =
      es.foldl (fun s e => (M.handle s e.request).1) s := by
    induction es with
    | nil => exact fun s => rfl
    | cons e es ih =>
        intro s
        have hrest := ih fun x hx => hp x (List.mem_cons_of_mem _ hx)
        cases he : p e with
        | true => rw [List.filter_cons_of_pos he, List.foldl_cons, List.foldl_cons, hrest]
        | false =>
            rw [List.filter_cons_of_neg (Bool.eq_false_iff.mp he), List.foldl_cons,
              hp e List.mem_cons_self he, hrest]
  exact hfold M.init

theorem Explains.filter {es : List (Entry κ ι ο)} (h : M.Explains es) {p : Entry κ ι ο → Bool}
    (hp : ∀ e ∈ es, p e = false → ∀ s, (M.handle s e.request).1 = s) :
    M.Explains (es.filter p) := by
  intro pre e post heq
  obtain ⟨before, rest, rfl, rfl, hrest⟩ := List.filter_eq_append_iff.mp heq
  obtain ⟨skipped, after, rfl, hskipped, -, -⟩ := List.filter_eq_cons_iff.mp hrest
  have hfilter : (before ++ skipped).filter p = before.filter p := by
    rw [List.filter_append, List.filter_eq_nil_iff.mpr hskipped, List.append_nil]
  rw [h (before ++ skipped) e after (by simp), ← hfilter, after_filter]
  intro x hx
  refine hp x ?_
  rw [← List.append_assoc]
  exact List.mem_append_left _ hx

end Machine

/-- What a machine has served. -/
structure Log (M : Machine σ ι ο) (κ : Type*) where
  entries : List (Entry κ ι ο)
  explained : M.Explains entries

namespace Log

variable {M : Machine σ ι ο}

/-- Before the first request. -/
def empty : Log M κ :=
  ⟨[], Machine.explains_nil⟩

/-- The next request is served. -/
def record (l : Log M κ) (k : Option κ) (i : ι) : Log M κ :=
  ⟨l.entries ++ [⟨k, i, (M.handle (M.after l.entries) i).2⟩], l.explained.snoc k i⟩

/-- The operations whose requests were served. -/
def origins (l : Log M κ) : List κ :=
  l.entries.filterMap Entry.origin

@[simp] theorem entries_empty : (empty : Log M κ).entries = [] := rfl

@[simp] theorem origins_empty : (empty : Log M κ).origins = [] := rfl

theorem origins_record (l : Log M κ) (k : Option κ) (i : ι) :
    (l.record k i).origins = l.origins ++ k.toList := by
  cases k <;> simp [origins, record, List.filterMap_append]

theorem prefix_record (l : Log M κ) (k : Option κ) (i : ι) :
    l.entries <+: (l.record k i).entries :=
  List.prefix_append _ _

theorem mem_origins {l : Log M κ} {e : Entry κ ι ο} {k : κ} (he : e ∈ l.entries)
    (hk : e.origin = some k) : k ∈ l.origins :=
  List.mem_filterMap.mpr ⟨e, he, hk⟩

/-- The responses in a log are those of the machine in some state. -/
theorem exists_response {l : Log M κ} {e : Entry κ ι ο} (he : e ∈ l.entries) :
    ∃ s, e.response = (M.handle s e.request).2 := by
  obtain ⟨pre, post, heq⟩ := List.append_of_mem he
  exact ⟨_, l.explained pre e post heq⟩

/-- The operations that took effect, each of them once, are no more than those in a list that holds
all of them. -/
theorem countP_origins_le {l : Log M κ} (h : l.origins.Nodup) (p : κ → Bool) {ks : List κ}
    (hks : ∀ k ∈ l.origins, p k = true → k ∈ ks) : l.origins.countP p ≤ ks.length := by
  rw [List.countP_eq_length_filter]
  refine (List.subperm_of_subset (h.filter p) fun k hk => ?_).length_le
  exact hks k (List.mem_filter.mp hk).1 (List.mem_filter.mp hk).2

end Log

end Linear

end DittoClient
