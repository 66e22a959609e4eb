import DittoClient.Protobuf.Complete
import DittoClient.Protobuf.Faults
import DittoClient.Protobuf.Schema

/-!
# Field numbers that are narrowed

A reader may take a field number for another one, for instance because it keeps only some of
its bits. It then reads the same fields with other numbers. For a decoder this makes a
difference only where a field is aliased: where it gets a number that the decoder looks for and
that is not its own.
-/

namespace DittoClient

namespace Protobuf

/-- A field with another number. -/
def Field.renumber (φ : ℕ → ℕ) (f : Field) : Field :=
  ⟨φ f.number, f.content⟩

/-- A field with a number that is taken for that of another field, one that is looked for. -/
def Field.Aliased (φ : ℕ → ℕ) (Sought : Field → Prop) (f : Field) : Prop :=
  φ f.number ≠ f.number ∧ Sought (f.renumber φ)

/-- The format `H` reads the fields of `G` with other numbers. -/
structure Format.Renumbers (G H : Format) (φ : ℕ → ℕ) : Prop where
  varint : ∀ bs n, H.Varint bs n ↔ G.Varint bs n
  number : ∀ t, H.number t = (G.number t).map φ
  whole : G.cut = false ∧ H.cut = false

variable {G H : Format} {φ : ℕ → ℕ} {bs xs : List UInt8} {f g : Field} {fs gs : List Field}

section Renumbers

variable (h : G.Renumbers H φ)

include h

theorem Format.Renumbers.tag {ts : List UInt8} {k w : ℕ} :
    H.Tag ts k w ↔ ∃ l, G.Tag ts l w ∧ k = φ l := by
  constructor
  · rintro ⟨t, ht, hk, hw⟩
    rw [h.number, Option.map_eq_some_iff] at hk
    obtain ⟨l, hl, rfl⟩ := hk
    exact ⟨l, ⟨t, (h.varint ts t).mp ht, hl, hw⟩, rfl⟩
  · rintro ⟨l, ⟨t, ht, hl, hw⟩, rfl⟩
    exact ⟨t, (h.varint ts t).mpr ht, by rw [h.number, hl]; rfl, hw⟩

theorem Format.Renumbers.content {w : ℕ} {c : Content} : IsContent H w xs c ↔ IsContent G w xs c := by
  constructor
  · intro hc
    cases hc with
    | varint hv => exact .varint ((h.varint _ _).mp hv)
    | fixed64 hlen => exact .fixed64 hlen
    | bytes hl => exact .bytes ((h.varint _ _).mp hl)
    | fixed32 hlen => exact .fixed32 hlen
  · intro hc
    cases hc with
    | varint hv => exact .varint ((h.varint _ _).mpr hv)
    | fixed64 hlen => exact .fixed64 hlen
    | bytes hl => exact .bytes ((h.varint _ _).mpr hl)
    | fixed32 hlen => exact .fixed32 hlen

theorem Format.Renumbers.field : IsField H xs f ↔ ∃ g, IsField G xs g ∧ f = g.renumber φ := by
  constructor
  · intro hf
    cases hf with
    | mk ht hc =>
        obtain ⟨l, hl, rfl⟩ := h.tag.mp ht
        exact ⟨⟨l, _⟩, .mk hl (h.content.mp hc), rfl⟩
  · rintro ⟨g, hg, rfl⟩
    cases hg with
    | mk ht hc => exact .mk (h.tag.mpr ⟨_, ht, rfl⟩) (h.content.mpr hc)

/-- The messages of the two formats are the same, up to the numbers of their fields. -/
theorem Format.Renumbers.message :
    IsMessage H bs fs ↔ ∃ gs, IsMessage G bs gs ∧ fs = gs.map (Field.renumber φ) := by
  constructor
  · intro hm
    induction hm with
    | nil => exact ⟨[], .nil, rfl⟩
    | cons hf _ ih =>
        obtain ⟨g, hg, rfl⟩ := h.field.mp hf
        obtain ⟨gs, hgs, rfl⟩ := ih
        exact ⟨g :: gs, .cons hg hgs, rfl⟩
    | cut hcut _ _ _ =>
        rw [h.whole.2] at hcut
        cases hcut
  · rintro ⟨gs, hm, rfl⟩
    induction hm with
    | nil => exact .nil
    | cons hg _ ih => exact .cons (h.field.mpr ⟨_, hg, rfl⟩) ih
    | cut hcut _ _ _ =>
        rw [h.whole.1] at hcut
        cases hcut

end Renumbers

section Aliased

variable {schema : List (ℕ × ℕ)}

/-- No field of a message is aliased. -/
def Unaliased (G : Format) (φ : ℕ → ℕ) (schema : List (ℕ × ℕ)) (bs : List UInt8) : Prop :=
  ∀ gs, IsMessage G bs gs → ∀ g ∈ gs, ¬ g.Aliased φ fun f => f.key ∈ schema

theorem Field.renumber_eq_self (hnum : φ g.number = g.number) : g.renumber φ = g := by
  rw [Field.renumber, hnum]

/-- A field that is not aliased is the field itself, or is not looked for. -/
theorem Field.renumber_eq_or (hschema : ∀ key ∈ schema, φ key.1 = key.1)
    (hg : ¬ g.Aliased φ fun f => f.key ∈ schema) :
    g.renumber φ = g ∨ (g.renumber φ).key ∉ schema ∧ g.key ∉ schema := by
  by_cases hnum : φ g.number = g.number
  · exact Or.inl (renumber_eq_self hnum)
  · refine Or.inr ⟨fun hkey => hg ⟨hnum, hkey⟩, fun hkey => hnum ?_⟩
    exact hschema g.key hkey

/-- The value of a field that is looked for is the same. -/
theorem lastOf_renumber {β : Type} {get : Field → Option (Except DecodeError β)} {b : β}
    {key : ℕ × ℕ} (hkey : key ∈ schema) (hget : ∀ f : Field, f.key ≠ key → get f = none)
    (hschema : ∀ key ∈ schema, φ key.1 = key.1)
    (hgs : ∀ g ∈ gs, ¬ g.Aliased φ fun f => f.key ∈ schema) :
    lastOf get b (gs.map (Field.renumber φ)) = lastOf get b gs := by
  have hsame : ∀ g ∈ gs, get (g.renumber φ) = get g := by
    intro g hg
    rcases Field.renumber_eq_or hschema (hgs g hg) with heq | ⟨hnot, hnot'⟩
    · rw [heq]
    · have hne : ∀ {f : Field}, f.key ∉ schema → f.key ≠ key := by
        rintro f hf rfl
        exact hf hkey
      rw [hget _ (hne hnot), hget _ (hne hnot')]
  refine lastOf_congr ?_
  rw [List.filterMap_map]
  exact List.filterMap_congr hsame

/-- An aliased field stands at the front of a byte string. -/
def FrontAliased (G : Format) (φ : ℕ → ℕ) (Sought : Field → Prop) (bs : List UInt8) : Prop :=
  ∃ xs ys g, IsField G xs g ∧ bs = xs ++ ys ∧ g.Aliased φ Sought

/-- Complete fields that are passed over lead to no aliased field. -/
def LeadsUnaliased (G : Format) (φ : ℕ → ℕ) (Known : ℕ → Prop) (bs : List UInt8) : Prop :=
  ¬ Meets G (fun g => (g.renumber φ).Unknown Known)
    (fun _ bs => FrontAliased G φ (fun f => ¬ f.Unknown Known) bs) 0 bs

/-- The first known field is the same, if no aliased field stands before it. -/
theorem Format.Renumbers.finds (h : G.Renumbers H φ) {Known : ℕ → Prop}
    (hknown : ∀ k, Known k → φ k = k) {k : ℕ} {inner : List UInt8}
    (hlead : LeadsUnaliased G φ Known bs) :
    Finds H Known bs k inner ↔ Finds G Known bs k inner := by
  have hrest : ∀ {off : ℕ} {xs ys : List UInt8} {g : Field}, IsField G xs g →
      (g.renumber φ).Unknown Known →
      ¬ Meets G (fun g => (g.renumber φ).Unknown Known)
        (fun _ bs => FrontAliased G φ (fun f => ¬ f.Unknown Known) bs) off (xs ++ ys) →
      ¬ Meets G (fun g => (g.renumber φ).Unknown Known)
        (fun _ bs => FrontAliased G φ (fun f => ¬ f.Unknown Known) bs) (off + xs.length) ys :=
    fun hg hskip hnot hm => hnot (.later hg hskip hm)
  have hown : ∀ {off : ℕ} {xs ys : List UInt8} {g : Field}, IsField G xs g →
      ¬ Meets G (fun g => (g.renumber φ).Unknown Known)
        (fun _ bs => FrontAliased G φ (fun f => ¬ f.Unknown Known) bs) off (xs ++ ys) →
      φ g.number ≠ g.number → (g.renumber φ).Unknown Known := by
    intro off xs ys g hg hnot hnum
    by_contra hseen
    exact hnot (.here ⟨xs, ys, g, hg, rfl, hnum, hseen⟩)
  unfold LeadsUnaliased at hlead
  generalize 0 = off at hlead
  constructor
  · intro hfinds
    induction hfinds generalizing off with
    | @here xs ys inner k hf hk =>
        obtain ⟨g, hg, heq⟩ := h.field.mp hf
        by_cases hnum : φ g.number = g.number
        · rw [Field.renumber_eq_self hnum] at heq
          exact .here (heq ▸ hg) hk
        · exact absurd hk (hown hg hlead hnum k inner heq.symm)
    | @later xs ys inner k f hf hskip _ ih =>
        obtain ⟨g, hg, rfl⟩ := h.field.mp hf
        refine .later hg ?_ (ih _ (hrest hg hskip hlead))
        rintro l bs rfl hl
        have hself : Field.renumber φ ⟨l, .bytes bs⟩ = ⟨l, .bytes bs⟩ :=
          Field.renumber_eq_self (hknown l hl)
        rw [hself] at hskip
        exact hskip l bs rfl hl
  · intro hfinds
    induction hfinds generalizing off with
    | @here xs ys inner k hg hk =>
        have hself : Field.renumber φ ⟨k, .bytes inner⟩ = ⟨k, .bytes inner⟩ :=
          Field.renumber_eq_self (hknown k hk)
        exact .here (h.field.mpr ⟨_, hg, hself.symm⟩) hk
    | @later xs ys inner k g hg hskip _ ih =>
        have hskip' : (g.renumber φ).Unknown Known := by
          by_cases hnum : φ g.number = g.number
          · rwa [Field.renumber_eq_self hnum]
          · exact hown hg hlead hnum
        exact .later (h.field.mpr ⟨g, hg, rfl⟩) hskip' (ih _ (hrest hg hskip' hlead))

end Aliased

section Values

variable {β : Type} {get : Field → Option (Except DecodeError β)} {b c : β}

/-- A value that is left was read from all fields that have one. -/
theorem lastOf_reads (h : lastOf get b fs = .ok c) {x : Except DecodeError β} (hf : f ∈ fs)
    (hx : get f = some x) : ∃ v, x = .ok v := by
  induction fs generalizing b with
  | nil => cases hf
  | cons g fs ih =>
      rw [lastOf_cons] at h
      obtain ⟨b', hput, h⟩ := Rules.bind_eq_ok.mp h
      rcases List.mem_cons.mp hf with rfl | hf
      · rw [put, hx] at hput
        exact ⟨b', hput⟩
      · exact ih h hf

/-- The same value is left if the byte strings of the fields are read the same. -/
theorem lastOf_bytesAt_imp {k : ℕ} {read read' : List UInt8 → Except DecodeError β}
    (hread : ∀ bs, ⟨k, .bytes bs⟩ ∈ fs → ∀ v, read bs = .ok v → read' bs = .ok v)
    (h : lastOf (bytesAt k read) b fs = .ok c) : lastOf (bytesAt k read') b fs = .ok c := by
  induction fs generalizing b with
  | nil => exact h
  | cons f fs ih =>
      rw [lastOf_cons] at h
      obtain ⟨b', hput, h⟩ := Rules.bind_eq_ok.mp h
      have hrest := ih (fun bs hbs => hread bs (List.mem_cons_of_mem _ hbs)) h
      rw [lastOf_cons]
      refine Rules.bind_eq_ok.mpr ⟨b', ?_, hrest⟩
      obtain ⟨l, content⟩ := f
      cases content with
      | bytes bs =>
          by_cases hl : l = k
          · subst hl
            have hbs : read bs = .ok b' := by simpa [put, bytesAt] using hput
            have hbs' := hread bs (List.mem_cons_self ..) b' hbs
            simpa [put, bytesAt] using hbs'
          · simpa [put, bytesAt, hl] using hput
      | varint n => exact hput
      | fixed64 bs => exact hput
      | fixed32 bs => exact hput

end Values

end Protobuf

end DittoClient
