import DittoClient.Protobuf.Varint

/-!
# Messages as lists of fields

What the bytes of a message mean, field by field. A `Format` says how a reader takes the
numbers in them; `IsMessage F bs fs` says that `bs` is a sequence of complete fields, and
that these are `fs`. The fields of a byte string are unique, and a message that was put
together from encoded fields consists of these fields.

`Meets F Passed Bad off bs` says where reading comes to: `bs` begins with complete fields,
behind which, at an offset counted from `off`, stands something with the property `Bad`.
-/

namespace DittoClient

namespace Protobuf

/-- The content of a field, by its wire type. -/
inductive Content
  | varint (n : ℕ)
  | fixed64 (bs : List UInt8)
  | bytes (bs : List UInt8)
  | fixed32 (bs : List UInt8)
  deriving DecidableEq, Repr

structure Field where
  number : ℕ
  content : Content
  deriving DecidableEq, Repr

/-- How the fields of a message are read. -/
structure Format where
  /-- The most bytes that a varint may have. -/
  limit : ℕ
  /-- What the number of a varint is taken for. -/
  word : ℕ → ℕ
  /-- The field number in a tag, if the tag is read at all. -/
  number : ℕ → Option ℕ
  /-- Whether the last fixed-width field may be cut short. -/
  cut : Bool

namespace Format

/-- A varint that is read as `n`. -/
def Varint (F : Format) (bs : List UInt8) (n : ℕ) : Prop :=
  ∃ m, IsVarint bs m ∧ bs.length ≤ F.limit ∧ n = F.word m

/-- A tag with a field number and a wire type. -/
def Tag (F : Format) (bs : List UInt8) (number wire : ℕ) : Prop :=
  ∃ t, F.Varint bs t ∧ F.number t = some number ∧ wire = t % 8

variable {F : Format} {bs cs xs ys : List UInt8} {k l m n : ℕ}

theorem Varint.append_inj (h : F.Varint bs m) (h' : F.Varint cs n) (heq : bs ++ xs = cs ++ ys) :
    bs = cs ∧ m = n ∧ xs = ys := by
  obtain ⟨m', hm, -, rfl⟩ := h
  obtain ⟨n', hn, -, rfl⟩ := h'
  obtain ⟨rfl, rfl, rfl⟩ := hm.append_inj hn heq
  exact ⟨rfl, rfl, rfl⟩

theorem Varint.length_pos (h : F.Varint bs n) : 0 < bs.length := by
  obtain ⟨m, hm, -⟩ := h
  exact hm.length_pos

theorem Tag.append_inj (h : F.Tag bs k m) (h' : F.Tag cs l n) (heq : bs ++ xs = cs ++ ys) :
    bs = cs ∧ k = l ∧ m = n ∧ xs = ys := by
  obtain ⟨t, ht, hk, rfl⟩ := h
  obtain ⟨t', ht', hl, rfl⟩ := h'
  obtain ⟨rfl, rfl, rfl⟩ := ht.append_inj ht' heq
  rw [hk, Option.some.injEq] at hl
  exact ⟨rfl, hl, rfl, rfl⟩

theorem Tag.length_pos (h : F.Tag bs k m) : 0 < bs.length := by
  obtain ⟨t, ht, -⟩ := h
  exact ht.length_pos

end Format

/-- The bytes of the content of a field with a wire type. -/
inductive IsContent (F : Format) : ℕ → List UInt8 → Content → Prop
  | varint {bs : List UInt8} {n : ℕ} (h : F.Varint bs n) : IsContent F 0 bs (.varint n)
  | fixed64 {bs : List UInt8} (hlen : bs.length = 8) : IsContent F 1 bs (.fixed64 bs)
  | bytes {ls bs : List UInt8} (h : F.Varint ls bs.length) : IsContent F 2 (ls ++ bs) (.bytes bs)
  | fixed32 {bs : List UInt8} (hlen : bs.length = 4) : IsContent F 5 bs (.fixed32 bs)

/-- The bytes of one complete field. -/
inductive IsField (F : Format) : List UInt8 → Field → Prop
  | mk {ts bs : List UInt8} {k wire : ℕ} {c : Content} (ht : F.Tag ts k wire)
      (hc : IsContent F wire bs c) : IsField F (ts ++ bs) ⟨k, c⟩

/-- The number of bytes of a fixed-width field. -/
def fixedWidth : ℕ → Option ℕ
  | 1 => some 8
  | 5 => some 4
  | _ => none

/-- A sequence of complete fields. -/
inductive IsMessage (F : Format) : List UInt8 → List Field → Prop
  | nil : IsMessage F [] []
  | cons {xs ys : List UInt8} {f : Field} {fs : List Field} (hf : IsField F xs f)
      (h : IsMessage F ys fs) : IsMessage F (xs ++ ys) (f :: fs)
  | cut {ts bs : List UInt8} {k wire width : ℕ} (hcut : F.cut = true) (ht : F.Tag ts k wire)
      (hwidth : fixedWidth wire = some width) (hlen : bs.length < width) :
      IsMessage F (ts ++ bs) []

/-- Reading from the offset `off` on, past complete fields that are passed, comes to
something bad. -/
inductive Meets (F : Format) (Passed : Field → Prop) (Bad : ℕ → List UInt8 → Prop) :
    ℕ → List UInt8 → Prop
  | here {off : ℕ} {bs : List UInt8} (h : Bad off bs) : Meets F Passed Bad off bs
  | later {off : ℕ} {xs ys : List UInt8} {f : Field} (hf : IsField F xs f) (hp : Passed f)
      (h : Meets F Passed Bad (off + xs.length) ys) : Meets F Passed Bad off (xs ++ ys)

/-- A field that is no length-delimited one with a known number. -/
def Field.Unknown (Known : ℕ → Prop) (f : Field) : Prop :=
  ∀ k bs, f = ⟨k, .bytes bs⟩ → ¬ Known k

/-- The first length-delimited field with a known number, which complete fields lead to. -/
inductive Finds (F : Format) (Known : ℕ → Prop) : List UInt8 → ℕ → List UInt8 → Prop
  | here {xs ys inner : List UInt8} {k : ℕ} (hf : IsField F xs ⟨k, .bytes inner⟩)
      (hk : Known k) : Finds F Known (xs ++ ys) k inner
  | later {xs ys inner : List UInt8} {k : ℕ} {f : Field} (hf : IsField F xs f)
      (hskip : f.Unknown Known) (h : Finds F Known ys k inner) :
      Finds F Known (xs ++ ys) k inner

variable {F : Format} {xs ys xs' ys' : List UInt8} {f f' : Field} {fs fs' : List Field}

theorem IsField.length_pos (h : IsField F xs f) : 0 < xs.length := by
  cases h with
  | mk ht _ => simpa using Or.inl ht.length_pos

/-- The content at the front of a byte string is unique. -/
theorem IsContent.append_inj {wire : ℕ} {c c' : Content} (h : IsContent F wire xs c)
    (h' : IsContent F wire xs' c') (heq : xs ++ ys = xs' ++ ys') :
    xs = xs' ∧ c = c' ∧ ys = ys' := by
  cases h with
  | varint hv =>
      cases h' with
      | varint hv' =>
          obtain ⟨rfl, rfl, rfl⟩ := hv.append_inj hv' heq
          exact ⟨rfl, rfl, rfl⟩
  | fixed64 hlen =>
      cases h' with
      | fixed64 hlen' =>
          obtain ⟨rfl, rfl⟩ := List.append_inj heq (hlen.trans hlen'.symm)
          exact ⟨rfl, rfl, rfl⟩
  | bytes hl =>
      cases h' with
      | bytes hl' =>
          rw [List.append_assoc, List.append_assoc] at heq
          obtain ⟨rfl, hlen, heq⟩ := hl.append_inj hl' heq
          obtain ⟨rfl, rfl⟩ := List.append_inj heq hlen
          exact ⟨rfl, rfl, rfl⟩
  | fixed32 hlen =>
      cases h' with
      | fixed32 hlen' =>
          obtain ⟨rfl, rfl⟩ := List.append_inj heq (hlen.trans hlen'.symm)
          exact ⟨rfl, rfl, rfl⟩

/-- The field at the front of a byte string is unique. -/
theorem IsField.append_inj (h : IsField F xs f) (h' : IsField F xs' f')
    (heq : xs ++ ys = xs' ++ ys') : xs = xs' ∧ f = f' ∧ ys = ys' := by
  cases h with
  | mk ht hc =>
      cases h' with
      | mk ht' hc' =>
          rw [List.append_assoc, List.append_assoc] at heq
          obtain ⟨rfl, rfl, rfl, heq⟩ := ht.append_inj ht' heq
          obtain ⟨rfl, rfl, rfl⟩ := hc.append_inj hc' heq
          exact ⟨rfl, rfl, rfl⟩

theorem Finds.ne_nil {Known : ℕ → Prop} {k : ℕ} {bs inner : List UInt8}
    (h : Finds F Known bs k inner) : bs ≠ [] := by
  cases h with
  | here hf _ =>
      have hpos := hf.length_pos
      exact List.append_ne_nil_of_left_ne_nil (List.ne_nil_of_length_pos hpos) _
  | later hf _ _ =>
      have hpos := hf.length_pos
      exact List.append_ne_nil_of_left_ne_nil (List.ne_nil_of_length_pos hpos) _

theorem isMessage_nil_iff : IsMessage F [] fs ↔ fs = [] := by
  constructor
  · intro h
    generalize hbs : ([] : List UInt8) = bs at h
    cases h with
    | nil => rfl
    | cons hf _ =>
        have hpos := hf.length_pos
        rw [(List.append_eq_nil_iff.mp hbs.symm).1] at hpos
        cases hpos
    | cut _ _ _ _ => rfl
  · rintro rfl
    exact .nil

/-- What a field holds is no longer than the field. -/
theorem IsField.length_le {k : ℕ} {bs : List UInt8} (h : IsField F xs ⟨k, .bytes bs⟩) :
    bs.length ≤ xs.length := by
  cases h with
  | mk _ hc =>
      cases hc with
      | bytes _ =>
          simp only [List.length_append]
          omega

theorem IsMessage.length_le (h : IsMessage F xs fs) {k : ℕ} {bs : List UInt8}
    (hmem : ⟨k, .bytes bs⟩ ∈ fs) : bs.length ≤ xs.length := by
  induction h with
  | nil => cases hmem
  | @cons xs ys f fs hf _ ih =>
      rw [List.length_append]
      rcases List.mem_cons.mp hmem with rfl | hmem
      · exact Nat.le_add_right_of_le hf.length_le
      · exact Nat.le_add_left_of_le (ih hmem)
  | cut _ _ _ _ => cases hmem

theorem Finds.length_le {Known : ℕ → Prop} {k : ℕ} {inner : List UInt8}
    (h : Finds F Known xs k inner) : inner.length ≤ xs.length := by
  induction h with
  | here hf _ =>
      rw [List.length_append]
      exact Nat.le_add_right_of_le hf.length_le
  | later _ _ _ ih =>
      rw [List.length_append]
      exact Nat.le_add_left_of_le ih

/-- Two messages one after the other, the first of which is not cut short. -/
theorem IsMessage.append (h : IsMessage F xs fs) (h' : IsMessage F ys fs')
    (hcut : F.cut = false) : IsMessage F (xs ++ ys) (fs ++ fs') := by
  induction h with
  | nil => exact h'
  | cons hf _ ih =>
      rw [List.append_assoc]
      exact .cons hf ih
  | cut htrue _ _ _ =>
      rw [hcut] at htrue
      cases htrue

theorem IsMessage.single (h : IsField F xs f) : IsMessage F xs [f] := by
  have hone := IsMessage.cons h .nil
  rwa [List.append_nil] at hone

end Protobuf

end DittoClient
