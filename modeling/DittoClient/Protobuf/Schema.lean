import DittoClient.Protobuf.Fold
import DittoClient.Protobuf.Varint
import Mathlib.Data.List.Nodup

/-!
# Messages that follow a schema

A slot is a field that a message has to hold, together with whether the field has its
default value and may be left out. `Represents schema slots fs` says that the fields `fs`
hold the slots in any order, with defaults left out or written, among any fields that the
schema does not know. A decoder finds the value of each slot in them, and the canonical
encoding of the slots consists of such fields.
-/

namespace DittoClient

namespace Protobuf

/-- The wire type of a content. -/
def Content.wire : Content → ℕ
  | .varint _ => 0
  | .fixed64 _ => 1
  | .bytes _ => 2
  | .fixed32 _ => 5

/-- The number and the wire type of a field. -/
def Field.key (f : Field) : ℕ × ℕ :=
  (f.number, f.content.wire)

/-- A field of a message, and whether it has its default value. -/
structure Slot where
  field : Field
  default : Bool
  deriving DecidableEq, Repr

namespace Slot

def key (s : Slot) : ℕ × ℕ :=
  s.field.key

/-- A number. -/
def uint (k n : ℕ) : Slot :=
  ⟨⟨k, .varint n⟩, decide (n = 0)⟩

/-- A byte string. -/
def bytes (k : ℕ) (bs : List UInt8) : Slot :=
  ⟨⟨k, .bytes bs⟩, decide (bs = [])⟩

/-- A message, which is there also when it is empty. -/
def message (k : ℕ) (bs : List UInt8) : Slot :=
  ⟨⟨k, .bytes bs⟩, false⟩

end Slot

/-- The fields `fs` are those of some of the slots, among them all that have not their
default value, and others that are not in the schema, in any order. -/
def Represents (schema : List (ℕ × ℕ)) (slots : List Slot) (fs : List Field) : Prop :=
  ∃ (present : List Slot) (unknown : List Field), present.Sublist slots ∧
    (∀ s ∈ slots, s.default = false → s ∈ present) ∧
    (∀ f ∈ unknown, f.key ∉ schema) ∧ fs.Perm (present.map Slot.field ++ unknown)

section Represents

variable {schema : List (ℕ × ℕ)} {slots : List Slot} {fs : List Field} {β : Type}
  {get : Field → Option (Except DecodeError β)} {key : ℕ × ℕ} {b : β}

/-- The fields with a key of the schema are those of the slots that are there. -/
theorem Represents.filterMap_perm (h : Represents schema slots fs) (hkey : key ∈ schema)
    (hget : ∀ f : Field, f.key ≠ key → get f = none) :
    ∃ present : List Slot, present.Sublist slots ∧
      (∀ s ∈ slots, s.default = false → s ∈ present) ∧
      (fs.filterMap get).Perm (present.filterMap fun s => get s.field) := by
  obtain ⟨present, unknown, hsub, hall, hunknown, hperm⟩ := h
  refine ⟨present, hsub, hall, ?_⟩
  have hnone : unknown.filterMap get = [] := by
    refine List.filterMap_eq_nil_iff.mpr fun f hf => hget f fun heq => ?_
    exact hunknown f hf (heq ▸ hkey)
  have hmap := hperm.filterMap get
  rwa [List.filterMap_append, hnone, List.append_nil, List.filterMap_map] at hmap

/-- The fields of all slots in any order, among unknown fields. -/
theorem Represents.of_perm {unknown : List Field} (hunknown : ∀ f ∈ unknown, f.key ∉ schema)
    (hperm : fs.Perm (slots.map Slot.field ++ unknown)) : Represents schema slots fs :=
  ⟨slots, unknown, List.Sublist.refl _, fun _ hs _ => hs, hunknown, hperm⟩

/-- A slot that has not its default value is there. -/
theorem Represents.mem (h : Represents schema slots fs) {s : Slot} (hs : s ∈ slots)
    (hdefault : s.default = false) : s.field ∈ fs := by
  obtain ⟨present, unknown, -, hall, -, hperm⟩ := h
  exact hperm.mem_iff.mpr
    (List.mem_append_left _ (List.mem_map_of_mem (hall s hs hdefault)))

/-- The value of a slot is found. -/
theorem Represents.lastOf_eq (h : Represents schema slots fs) (hkey : key ∈ schema)
    (hget : ∀ f : Field, f.key ≠ key → get f = none) (hnodup : (slots.map Slot.key).Nodup)
    {s : Slot} (hs : s ∈ slots) (hslot : s.key = key) {x : Except DecodeError β}
    (hx : get s.field = some x) (hdefault : s.default = true → x = .ok b) :
    lastOf get b fs = x := by
  obtain ⟨present, hsub, hall, hperm⟩ := h.filterMap_perm hkey hget
  have hone : ∀ (l : List Slot), (l.map Slot.key).Nodup →
      (s ∈ l → l.filterMap (fun s => get s.field) = [x]) ∧
        ((∀ t ∈ l, t.key ≠ key) → l.filterMap (fun s => get s.field) = []) := by
    intro l hl
    induction l with
    | nil => exact ⟨fun h => (by cases h), fun _ => rfl⟩
    | cons t l ih =>
        have hskip : t.key ≠ key → (t :: l).filterMap (fun s => get s.field) =
            l.filterMap fun s => get s.field := fun hne =>
          List.filterMap_cons_none (hget t.field hne)
        rw [List.map_cons, List.nodup_cons] at hl
        obtain ⟨hfound, hmissing⟩ := ih hl.2
        refine ⟨fun hmem => ?_, fun hne => ?_⟩
        · rcases List.mem_cons.mp hmem with rfl | hmem
          · have htake : (s :: l).filterMap (fun s => get s.field) =
                x :: l.filterMap fun s => get s.field := List.filterMap_cons_some hx
            rw [htake, hmissing]
            intro t ht heq
            exact hl.1 (hslot.trans heq.symm ▸ List.mem_map_of_mem ht)
          · have hne : t.key ≠ key := fun heq =>
              hl.1 (heq.trans hslot.symm ▸ List.mem_map_of_mem hmem)
            rw [hskip hne, hfound hmem]
        · rw [hskip (hne t (List.mem_cons_self ..))]
          exact hmissing fun t ht => hne t (List.mem_cons_of_mem _ ht)
  have hpresent : (present.map Slot.key).Nodup := hnodup.sublist (hsub.map Slot.key)
  by_cases hmem : s ∈ present
  · rw [(hone present hpresent).1 hmem] at hperm
    exact lastOf_of_one (List.perm_singleton.mp hperm)
  · have hmissing : ∀ t ∈ present, t.key ≠ key := by
      intro t ht heq
      have hts : t = s := List.inj_on_of_nodup_map hnodup (hsub.subset ht) hs (heq.trans hslot.symm)
      exact hmem (hts ▸ ht)
    rw [(hone present hpresent).2 hmissing] at hperm
    have hd : s.default = true := by
      by_contra hfalse
      exact hmem (hall s hs (Bool.eq_false_of_not_eq_true hfalse))
    rw [lastOf_of_none (List.perm_nil.mp hperm), hdefault hd]

/-- A field of the schema that is in no slot is not found. -/
theorem Represents.lastOf_none (h : Represents schema slots fs) (hkey : key ∈ schema)
    (hget : ∀ f : Field, f.key ≠ key → get f = none) (hne : ∀ s ∈ slots, s.key ≠ key) :
    lastOf get b fs = .ok b := by
  obtain ⟨present, hsub, -, hperm⟩ := h.filterMap_perm hkey hget
  have hnil : present.filterMap (fun s => get s.field) = [] :=
    List.filterMap_eq_nil_iff.mpr fun s hs => hget s.field (hne s (hsub.subset hs))
  rw [hnil] at hperm
  exact lastOf_of_none (List.perm_nil.mp hperm)

theorem varintAt_of_key_ne {k : ℕ} {read : ℕ → Except DecodeError β} {f : Field}
    (h : f.key ≠ (k, 0)) : varintAt k read f = none := by
  obtain ⟨l, c⟩ := f
  cases c with
  | varint n => exact if_neg fun heq => h (by rw [heq]; rfl)
  | _ => rfl

theorem bytesAt_of_key_ne {k : ℕ} {read : List UInt8 → Except DecodeError β} {f : Field}
    (h : f.key ≠ (k, 2)) : bytesAt k read f = none := by
  obtain ⟨l, c⟩ := f
  cases c with
  | bytes bs => exact if_neg fun heq => h (by rw [heq]; rfl)
  | _ => rfl

end Represents

end Protobuf

end DittoClient
