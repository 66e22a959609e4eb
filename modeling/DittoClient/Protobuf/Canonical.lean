import DittoClient.Protobuf.Schema
import DittoClient.Protobuf.Writer

/-!
# Canonical encodings

The canonical encoding of the slots of a message leaves out the defaults and writes the other
slots in order. A format that takes 64-bit numbers and small tags for what they are reads it
as these slots (`Format.Standard.message`). What a byte string is read as is unique
(`IsMessage.unique`, `Finds.unique`).
-/

namespace DittoClient

namespace Protobuf

/-- A format that takes canonical numbers and tags for what they are. -/
structure Format.Standard (F : Format) : Prop where
  limit : 10 ≤ F.limit
  word : ∀ n < 2 ^ 64, F.word n = n
  number : ∀ k w, k < 2 ^ 28 → w < 8 → F.number (k * 8 + w) = some k

/-- The canonical encoding of a field. -/
def encodeField : Field → List UInt8
  | ⟨k, .varint n⟩ => varintField k n
  | ⟨k, .fixed64 bs⟩ => encodeTag k 1 ++ bs
  | ⟨k, .bytes bs⟩ => ldField k bs
  | ⟨k, .fixed32 bs⟩ => encodeTag k 5 ++ bs

/-- A content that can be written. -/
def Content.Fits : Content → Prop
  | .varint n => n < 2 ^ 64
  | .fixed64 bs => bs.length = 8
  | .bytes bs => bs.length < 2 ^ 64
  | .fixed32 bs => bs.length = 4

/-- A field that can be written. -/
def Field.Fits (f : Field) : Prop :=
  f.number < 2 ^ 28 ∧ f.content.Fits

instance : DecidablePred Content.Fits
  | .varint n => inferInstanceAs (Decidable (n < 2 ^ 64))
  | .fixed64 bs => inferInstanceAs (Decidable (bs.length = 8))
  | .bytes bs => inferInstanceAs (Decidable (bs.length < 2 ^ 64))
  | .fixed32 bs => inferInstanceAs (Decidable (bs.length = 4))

instance (f : Field) : Decidable f.Fits :=
  inferInstanceAs (Decidable (_ ∧ _))

/-- The canonical encoding of a slot. -/
def Slot.encode (s : Slot) : List UInt8 :=
  if s.default then [] else encodeField s.field

def encodeMessage (slots : List Slot) : List UInt8 :=
  slots.flatMap Slot.encode

/-- The fields that the canonical encoding of slots writes. -/
def written (slots : List Slot) : List Field :=
  (slots.filter fun s => !s.default).map Slot.field

@[simp] theorem encodeMessage_cons (s : Slot) (slots : List Slot) :
    encodeMessage (s :: slots) = s.encode ++ encodeMessage slots :=
  List.flatMap_cons

theorem written_cons (s : Slot) (slots : List Slot) :
    written (s :: slots) = if s.default then written slots else s.field :: written slots := by
  cases hd : s.default <;> simp [written, hd]

/-- The canonical encoding represents its slots. -/
theorem represents_written (schema : List (ℕ × ℕ)) (slots : List Slot) :
    Represents schema slots (written slots) := by
  refine ⟨slots.filter fun s => !s.default, [], List.filter_sublist, fun s hs hd => ?_,
    fun f hf => (by cases hf), ?_⟩
  · exact List.mem_filter.mpr ⟨hs, by simp [hd]⟩
  · rw [List.append_nil]
    exact List.Perm.refl _

section Standard

variable {F : Format}

theorem Format.Standard.varint (h : F.Standard) {n : ℕ} (hn : n < 2 ^ 64) :
    F.Varint (encodeVarint n) n :=
  ⟨n, encodeVarint_isVarint n, (length_encodeVarint_le hn).trans h.limit, (h.word n hn).symm⟩

theorem Format.Standard.tag (h : F.Standard) {k w : ℕ} (hk : k < 2 ^ 28) (hw : w < 8) :
    F.Tag (encodeTag k w) k w :=
  ⟨k * 8 + w, h.varint (by omega), h.number k w hk hw, by omega⟩

theorem Format.Standard.field (h : F.Standard) {f : Field} (hf : f.Fits) :
    IsField F (encodeField f) f := by
  obtain ⟨k, c⟩ := f
  obtain ⟨hk, hc⟩ := hf
  cases c with
  | varint n => exact .mk (h.tag hk (by decide)) (.varint (h.varint hc))
  | fixed64 bs => exact .mk (h.tag hk (by decide)) (.fixed64 hc)
  | bytes bs => exact .mk (h.tag hk (by decide)) (.bytes (h.varint hc))
  | fixed32 bs => exact .mk (h.tag hk (by decide)) (.fixed32 hc)

/-- Fields one after the other are a message. -/
theorem Format.Standard.fields (h : F.Standard) {fs : List Field} (hfits : ∀ f ∈ fs, f.Fits) :
    IsMessage F (fs.flatMap encodeField) fs := by
  induction fs with
  | nil => exact .nil
  | cons f fs ih =>
      rw [List.flatMap_cons]
      exact .cons (h.field (hfits f (List.mem_cons_self ..)))
        (ih fun g hg => hfits g (List.mem_cons_of_mem _ hg))

/-- The canonical encoding of slots is a message with the fields that it writes. -/
theorem Format.Standard.message (h : F.Standard) {slots : List Slot}
    (hfits : ∀ s ∈ slots, s.default = false → s.field.Fits) :
    IsMessage F (encodeMessage slots) (written slots) := by
  induction slots with
  | nil => exact .nil
  | cons s slots ih =>
      have hrest := ih fun t ht => hfits t (List.mem_cons_of_mem _ ht)
      rw [encodeMessage_cons, written_cons, Slot.encode]
      cases hd : s.default with
      | true => exact hrest
      | false =>
          have hfield := h.field (hfits s (List.mem_cons_self ..) hd)
          exact .cons hfield hrest

/-- The content of a slot that is there is no longer than the message. -/
theorem length_le_encodeMessage {slots : List Slot} {s : Slot} (hs : s ∈ slots)
    (hdefault : s.default = false) {k : ℕ} {bs : List UInt8} (hfield : s.field = ⟨k, .bytes bs⟩) :
    bs.length ≤ (encodeMessage slots).length := by
  induction slots with
  | nil => cases hs
  | cons t slots ih =>
      rw [encodeMessage_cons, List.length_append]
      rcases List.mem_cons.mp hs with rfl | hs
      · have hle : bs.length ≤ s.encode.length := by
          rw [Slot.encode, hdefault, hfield]
          simp only [Bool.false_eq_true, if_false, encodeField, ldField, List.length_append]
          omega
        exact Nat.le_add_right_of_le hle
      · exact Nat.le_add_left_of_le (ih hs)

/-- The parts of a slot that are written as numbers fit. -/
def Slot.Small (s : Slot) : Prop :=
  s.field.number < 2 ^ 28 ∧ ((∃ bs, s.field.content = .bytes bs) ∨ s.field.content.Fits)

/-- The same for slots of a message of 64-bit length. -/
theorem Format.Standard.message_of_small (h : F.Standard) {slots : List Slot}
    (hsmall : ∀ s ∈ slots, s.Small) (hlen : (encodeMessage slots).length < 2 ^ 64) :
    IsMessage F (encodeMessage slots) (written slots) := by
  refine h.message fun s hs hd => ⟨(hsmall s hs).1, ?_⟩
  rcases (hsmall s hs).2 with ⟨bs, hbs⟩ | hfits
  · rw [hbs]
    exact (length_le_encodeMessage hs hd (congrArg (Field.mk s.field.number) hbs)).trans_lt hlen
  · exact hfits

end Standard

section Unique

variable {F : Format} {xs ys : List UInt8} {fs fs' : List Field}

/-- No complete field begins where a fixed-width field is cut short. -/
theorem IsField.not_cut {ts bs : List UInt8} {k w width : ℕ} {f : Field} (hf : IsField F xs f)
    (ht : F.Tag ts k w) (hwidth : fixedWidth w = some width) (hlen : bs.length < width) :
    xs ++ ys ≠ ts ++ bs := by
  intro heq
  cases hf with
  | mk ht' hc =>
      rw [List.append_assoc] at heq
      obtain ⟨rfl, rfl, rfl, heq⟩ := ht'.append_inj ht heq
      have hle := congrArg List.length heq
      rw [List.length_append] at hle
      cases hc with
      | varint _ => cases hwidth
      | fixed64 h8 =>
          cases hwidth
          omega
      | bytes _ => cases hwidth
      | fixed32 h4 =>
          cases hwidth
          omega

/-- The fields of a byte string are unique. -/
theorem IsMessage.unique (h : IsMessage F xs fs) (h' : IsMessage F xs fs') : fs = fs' := by
  induction h generalizing fs' with
  | nil => exact (isMessage_nil_iff.mp h').symm
  | @cons xs ys f fs hf _ ih =>
      generalize hzs : xs ++ ys = zs at h'
      cases h' with
      | nil =>
          have hpos := hf.length_pos
          rw [(List.append_eq_nil_iff.mp hzs).1] at hpos
          cases hpos
      | cons hf' hrest =>
          obtain ⟨rfl, rfl, rfl⟩ := hf.append_inj hf' hzs
          rw [ih hrest]
      | cut _ ht hwidth hlen => exact absurd hzs (hf.not_cut ht hwidth hlen)
  | @cut ts bs k w width _ ht hwidth hlen =>
      generalize hzs : ts ++ bs = zs at h'
      cases h' with
      | nil => rfl
      | cons hf' _ => exact absurd hzs.symm (hf'.not_cut ht hwidth hlen)
      | cut _ _ _ _ => rfl

/-- The first known field of a byte string is unique. -/
theorem Finds.unique {Known : ℕ → Prop} {k k' : ℕ} {inner inner' : List UInt8}
    (h : Finds F Known xs k inner) (h' : Finds F Known xs k' inner') :
    k = k' ∧ inner = inner' := by
  induction h with
  | @here xs ys inner k hf hk =>
      generalize hzs : xs ++ ys = zs at h'
      cases h' with
      | here hf' _ =>
          obtain ⟨-, heq, -⟩ := hf.append_inj hf' hzs
          cases heq
          exact ⟨rfl, rfl⟩
      | later hf' hskip _ =>
          obtain ⟨-, rfl, -⟩ := hf.append_inj hf' hzs
          exact absurd hk (hskip k inner rfl)
  | @later xs ys inner k f hf hskip _ ih =>
      generalize hzs : xs ++ ys = zs at h'
      cases h' with
      | here hf' hk' =>
          obtain ⟨-, rfl, -⟩ := hf.append_inj hf' hzs
          exact absurd hk' (hskip _ _ rfl)
      | later hf' _ h' =>
          obtain ⟨-, -, rfl⟩ := hf.append_inj hf' hzs
          exact ih h'

/-- The first known field of a message is found. -/
theorem IsMessage.finds {Known : ℕ → Prop} {k : ℕ} {inner : List UInt8} {before after : List Field}
    (h : IsMessage F xs (before ++ ⟨k, .bytes inner⟩ :: after))
    (hbefore : ∀ f ∈ before, f.Unknown Known) (hk : Known k) : Finds F Known xs k inner := by
  induction before generalizing xs with
  | nil =>
      cases h with
      | cons hf _ => exact .here hf hk
  | cons f before ih =>
      cases h with
      | cons hf hrest =>
          exact .later hf (hbefore f (List.mem_cons_self ..))
            (ih hrest fun g hg => hbefore g (List.mem_cons_of_mem _ hg))

end Unique

end Protobuf

end DittoClient
