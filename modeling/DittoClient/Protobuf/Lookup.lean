import DittoClient.Protobuf.Canonical

/-!
# Looking up a field

`Holds F k c bs` says that a reader of the format `F` finds the content `c` under the number `k`
in the message `bs`. What is found is unique, and in a canonical message the slots are found.
-/

namespace DittoClient

namespace Protobuf

/-- The fields with a number. -/
def fieldsAt (k : ℕ) (fs : List Field) : List Field :=
  fs.filter fun f => decide (f.number = k)

/-- The message `bs` has one field with the number `k`, and its content is `c`. -/
def Holds (F : Format) (k : ℕ) (c : Content) (bs : List UInt8) : Prop :=
  ∃ fs, IsMessage F bs fs ∧ fieldsAt k fs = [⟨k, c⟩]

/-- The message `bs` has no field with the number `k`. -/
def Lacks (F : Format) (k : ℕ) (bs : List UInt8) : Prop :=
  ∃ fs, IsMessage F bs fs ∧ fieldsAt k fs = []

section Holds

variable {F : Format} {k : ℕ} {c c' : Content} {bs : List UInt8}

/-- What a reader finds is unique. -/
theorem Holds.unique (h : Holds F k c bs) (h' : Holds F k c' bs) : c = c' := by
  obtain ⟨fs, hfs, hc⟩ := h
  obtain ⟨fs', hfs', hc'⟩ := h'
  obtain rfl := hfs.unique hfs'
  exact (Field.mk.inj (List.singleton_inj.mp (hc.symm.trans hc'))).2

theorem Holds.not_lacks (h : Holds F k c bs) : ¬ Lacks F k bs := by
  rintro ⟨fs', hfs', hnil⟩
  obtain ⟨fs, hfs, hc⟩ := h
  obtain rfl := hfs.unique hfs'
  rw [hc] at hnil
  cases hnil

/-- The number of a field is a word of the format. -/
theorem Holds.word {n : ℕ} (h : Holds F k (.varint n) bs) : ∃ m, n = F.word m := by
  obtain ⟨fs, hfs, hn⟩ := h
  have hmem : (⟨k, .varint n⟩ : Field) ∈ fs :=
    (List.mem_filter.mp (hn ▸ List.mem_singleton_self _)).1
  clear hn
  induction hfs with
  | nil => cases hmem
  | cons hf _ ih =>
      rcases List.mem_cons.mp hmem with rfl | hmem
      · cases hf with
        | mk _ hc =>
            cases hc with
            | varint hv =>
                obtain ⟨m, -, -, hm⟩ := hv
                exact ⟨m, hm⟩
      · exact ih hmem
  | cut _ _ _ _ => cases hmem

variable {slots : List Slot} {s : Slot}

/-- The numbers of slots. -/
def numbers (slots : List Slot) : List ℕ :=
  slots.map fun s => s.field.number

theorem fieldsAt_of_not_mem (h : k ∉ numbers slots) : fieldsAt k (written slots) = [] := by
  refine List.filter_eq_nil_iff.mpr fun f hf hk => h ?_
  obtain ⟨s, hs, rfl⟩ := List.mem_map.mp hf
  exact List.mem_map.mpr ⟨s, (List.mem_filter.mp hs).1, of_decide_eq_true hk⟩

/-- Under the number of a slot stands the slot, if no other slot has the number. -/
theorem fieldsAt_of_mem (hnodup : (numbers slots).Nodup) (hs : s ∈ slots) :
    fieldsAt s.field.number (written slots) = written [s] := by
  have hself : fieldsAt s.field.number (written [s]) = written [s] := by
    rw [written_cons]
    split
    · rfl
    · exact List.filter_cons_of_pos (decide_eq_true rfl)
  have hcons : ∀ (k : ℕ) (t : Slot) (slots : List Slot), fieldsAt k (written (t :: slots)) =
      fieldsAt k (written [t]) ++ fieldsAt k (written slots) := by
    intro k t slots
    rw [fieldsAt, written, ← List.singleton_append, List.filter_append, List.map_append,
      List.filter_append]
    rfl
  induction slots with
  | nil => cases hs
  | cons t slots ih =>
      obtain ⟨hnot, hnodup⟩ := List.nodup_cons.mp hnodup
      rw [hcons]
      rcases List.mem_cons.mp hs with rfl | hs
      · rw [hself, fieldsAt_of_not_mem hnot, List.append_nil]
      · have hne : s.field.number ∉ numbers [t] := by
          intro hmem
          rw [numbers, List.map_singleton, List.mem_singleton] at hmem
          exact hnot (List.mem_map.mpr ⟨s, hs, hmem⟩)
        rw [fieldsAt_of_not_mem hne, ih hnodup hs, List.nil_append]

/-- A canonical message has the fields of its slots. -/
theorem Format.Standard.holds (hF : F.Standard) (hsmall : ∀ s ∈ slots, s.Small)
    (hlen : (encodeMessage slots).length < 2 ^ 64) (h : fieldsAt k (written slots) = [⟨k, c⟩]) :
    Holds F k c (encodeMessage slots) :=
  ⟨_, hF.message_of_small hsmall hlen, h⟩

theorem Format.Standard.lacks (hF : F.Standard) (hsmall : ∀ s ∈ slots, s.Small)
    (hlen : (encodeMessage slots).length < 2 ^ 64) (h : fieldsAt k (written slots) = []) :
    Lacks F k (encodeMessage slots) :=
  ⟨_, hF.message_of_small hsmall hlen, h⟩

/-- The same for a message of one field. -/
theorem Format.Standard.holds_message (hF : F.Standard) (hk : k < 2 ^ 28)
    (hlen : (encodeMessage [.message k bs]).length < 2 ^ 64) :
    Holds F k (.bytes bs) (encodeMessage [.message k bs]) := by
  refine hF.holds (List.forall_mem_singleton.mpr ⟨hk, Or.inl ⟨bs, rfl⟩⟩) hlen ?_
  simp [written, fieldsAt, Slot.message]

end Holds

end Protobuf

end DittoClient
