import DittoClient.Protobuf.Parse

/-!
# Folding over the fields of a message

A decoder keeps one value for each field of its message and overwrites it whenever the field
occurs. `lastOf get b fs` is what is left in the end of the value that `get` takes out of
the fields: what the last of them holds, or `b` if there is none. A fold that keeps several
values comes apart into one such fold for each of them (`foldFields_keep`).
-/

namespace DittoClient

namespace Protobuf

variable {α β : Type}

/-- The number in the varint fields with a number, as it is read. -/
def varintAt (k : ℕ) (read : ℕ → Except DecodeError β) :
    Field → Option (Except DecodeError β)
  | ⟨l, .varint n⟩ => if l = k then some (read n) else none
  | _ => none

/-- The content of the length-delimited fields with a number, as it is read. -/
def bytesAt (k : ℕ) (read : List UInt8 → Except DecodeError β) :
    Field → Option (Except DecodeError β)
  | ⟨l, .bytes bs⟩ => if l = k then some (read bs) else none
  | _ => none

/-- Overwrite a value by what a field holds. -/
def put (get : Field → Option (Except DecodeError β)) (f : Field) (b : β) :
    Except DecodeError β :=
  (get f).getD (.ok b)

/-- Keep two values. -/
def keep (take : Field → α → Except DecodeError α) (take' : Field → β → Except DecodeError β)
    (f : Field) (x : α × β) : Except DecodeError (α × β) := do
  let a ← take f x.1
  let b ← take' f x.2
  .ok (a, b)

/-- The value of the last of the fields that have one. -/
def lastOf (get : Field → Option (Except DecodeError β)) (b : β) (fs : List Field) :
    Except DecodeError β :=
  Rules.foldFields (put get) fs b

section Last

variable (get : Field → Option (Except DecodeError β)) (b : β) (f : Field) (fs : List Field)

@[simp] theorem lastOf_nil : lastOf get b [] = .ok b := rfl

theorem lastOf_cons : lastOf get b (f :: fs) = put get f b >>= fun b => lastOf get b fs :=
  Rules.foldFields_cons f fs b

variable {get b f fs}

/-- What is left depends only on the values that the fields hold. -/
theorem lastOf_congr {fs' : List Field} (h : fs.filterMap get = fs'.filterMap get) :
    lastOf get b fs = lastOf get b fs' := by
  have hfold : ∀ (fs : List Field) (b : β), lastOf get b fs =
      (fs.filterMap get).foldlM (fun _ x => x) b := by
    intro fs
    induction fs with
    | nil => exact fun b => rfl
    | cons f fs ih =>
        intro b
        rw [lastOf_cons, put, List.filterMap_cons]
        cases hf : get f with
        | none => exact ih b
        | some x =>
            simp only [Option.getD_some, List.foldlM_cons]
            cases x with
            | error e => rfl
            | ok b' => exact ih b'
  rw [hfold, hfold, h]

/-- One field holds the value. -/
theorem lastOf_of_one {x : Except DecodeError β} (h : fs.filterMap get = [x]) :
    lastOf get b fs = x := by
  obtain ⟨f, hf⟩ : ∃ f, get f = some x := by
    obtain ⟨f, -, hf⟩ := List.mem_filterMap.mp (h ▸ List.mem_singleton_self x)
    exact ⟨f, hf⟩
  have hone : fs.filterMap get = [f].filterMap get := by simp [h, hf]
  rw [lastOf_congr hone, lastOf_cons, put, hf]
  cases x <;> rfl

/-- No field holds the value. -/
theorem lastOf_of_none (h : fs.filterMap get = []) : lastOf get b fs = .ok b := by
  have hnil : fs.filterMap get = [].filterMap get := h
  rw [lastOf_congr hnil, lastOf_nil]

/-- What is left in the end was there in the beginning, or is the value of the last field
that has one. -/
theorem lastOf_eq_ok {c : β} (h : lastOf get b fs = .ok c) :
    (fs.filterMap get = [] ∧ c = b) ∨ (fs.filterMap get).getLast? = some (.ok c) := by
  induction fs generalizing b with
  | nil =>
      cases h
      exact Or.inl ⟨rfl, rfl⟩
  | cons f fs ih =>
      rw [lastOf_cons, put] at h
      rw [List.filterMap_cons]
      cases hf : get f with
      | none =>
          rw [hf] at h
          exact ih h
      | some x =>
          rw [hf] at h
          obtain ⟨b', rfl, h⟩ := Rules.bind_eq_ok.mp h
          simp only
          rcases ih h with ⟨hnil, rfl⟩ | hlast
          · exact Or.inr (by simp [hnil])
          · refine Or.inr ?_
            rw [List.getLast?_cons, hlast]
            rfl

end Last

/-- A value that is there in the end, but was not in the beginning, is one that a field
holds. -/
theorem lastOf_mem {γ : Type} {get : Field → Option (Except DecodeError (Option γ))}
    {fs : List Field} {c : γ} (h : lastOf get none fs = .ok (some c)) :
    ∃ f ∈ fs, get f = some (.ok (some c)) := by
  rcases lastOf_eq_ok h with ⟨_, hnone⟩ | hlast
  · cases hnone
  · exact List.mem_filterMap.mp (List.mem_of_getLast? hlast)

section Store

variable {γ δ : Type} {take : Field → α → Except DecodeError α}
  {take' : Field → β → Except DecodeError β} {f : Field} {a : α} {b : β}
  {x : Except DecodeError γ}

/-- A field that has the value stores it. -/
theorem put_store {get : Field → Option (Except DecodeError β)} {x : Except DecodeError β}
    (h : get f = some x) : put get f b = x >>= fun b => .ok b := by
  rw [put, h]
  cases x <;> rfl

/-- A field of the first value leaves the second. -/
theorem keep_store_left {store : γ → α} (h : take f a = x >>= fun c => .ok (store c))
    (h' : take' f b = .ok b) :
    keep take take' f (a, b) = x >>= fun c => .ok (store c, b) := by
  rw [keep, h]
  cases x with
  | error e => rfl
  | ok c =>
      change take' f b >>= _ = _
      rw [h']
      rfl

/-- A field of the second value leaves the first. -/
theorem keep_store_right {store : γ → β} (h : take f a = .ok a)
    (h' : take' f b = x >>= fun c => .ok (store c)) :
    keep take take' f (a, b) = x >>= fun c => .ok (a, store c) := by
  rw [keep, h]
  change take' f b >>= _ = _
  rw [h']
  cases x <;> rfl

/-- What is read of a field is stored by the step of the field. -/
theorem read_store (m : Except DecodeError (δ × Reader)) {read : δ → Except DecodeError γ}
    {store : γ → α} {step : δ → Except DecodeError α}
    (h : ∀ d, step d = read d >>= fun c => .ok (store c)) :
    (m >>= fun x => read x.1 >>= fun c => .ok (store c, x.2)) =
      m >>= fun x => step x.1 >>= fun a => .ok (a, x.2) := by
  cases m with
  | error e => rfl
  | ok x =>
      change read x.1 >>= _ = step x.1 >>= _
      rw [h]
      cases read x.1 <;> rfl

end Store

/-- A fold that keeps two values comes apart. -/
theorem foldFields_keep {take : Field → α → Except DecodeError α}
    {take' : Field → β → Except DecodeError β} {fs : List Field} {a a' : α} {b b' : β} :
    Rules.foldFields (keep take take') fs (a, b) = .ok (a', b') ↔
      Rules.foldFields take fs a = .ok a' ∧ Rules.foldFields take' fs b = .ok b' := by
  induction fs generalizing a b with
  | nil =>
      simp only [Rules.foldFields, List.foldlM_nil]
      refine ⟨fun h => ?_, fun ⟨h, h'⟩ => ?_⟩
      · cases h
        exact ⟨rfl, rfl⟩
      · cases h
        cases h'
        rfl
  | cons f fs ih =>
      simp only [Rules.foldFields_cons, Rules.bind_eq_ok, keep]
      constructor
      · rintro ⟨x, ⟨a₁, ha, b₁, hb, hx⟩, hfold⟩
        cases hx
        obtain ⟨ha', hb'⟩ := ih.mp hfold
        exact ⟨⟨a₁, ha, ha'⟩, b₁, hb, hb'⟩
      · rintro ⟨⟨a₁, ha, ha'⟩, b₁, hb, hb'⟩
        exact ⟨(a₁, b₁), ⟨a₁, ha, b₁, hb, rfl⟩, ih.mpr ⟨ha', hb'⟩⟩

/-- What is made of two values is made of what is left of each. -/
theorem foldFields_keep_bind {γ : Type} {take : Field → α → Except DecodeError α}
    {take' : Field → β → Except DecodeError β} {fs : List Field} {a : α} {b : β}
    {g : α × β → Except DecodeError γ} {c : γ} :
    (Rules.foldFields (keep take take') fs (a, b) >>= g) = .ok c ↔
      (Rules.foldFields take fs a >>= fun a =>
        Rules.foldFields take' fs b >>= fun b => g (a, b)) = .ok c := by
  simp only [Rules.bind_eq_ok]
  constructor
  · rintro ⟨⟨a', b'⟩, hfold, hg⟩
    obtain ⟨ha, hb⟩ := foldFields_keep.mp hfold
    exact ⟨a', ha, b', hb, hg⟩
  · rintro ⟨a', ha, b', hb, hg⟩
    exact ⟨(a', b'), foldFields_keep.mpr ⟨ha, hb⟩, hg⟩

end Protobuf

end DittoClient
