import DittoClient.Octets.Utf8RoundTrip
import DittoClient.Protobuf.Canonical
import DittoClient.Wire.Breaks
import DittoClient.Wire.Encoder

/-!
# What the server sends

A response as the server means it, and its encodings. The fields of an envelope and of the
message of a variant may stand in any order, with default values left out or written, and
fields that a message does not know may stand anywhere; the canonical encoding is one of
these. A decoder makes of each encoding of a response what its number types make of the
response (`Dialect.decodeResponse_encodes`).
-/

namespace DittoClient

namespace Wire

open DittoClient.Octets
open DittoClient.Protobuf
open DittoClient.Protobuf.Rules

/-- A response as the server means it. An error has the index of its code. -/
inductive ServerResponse
  | value (key : String) (value : List UInt8) (version : UInt64)
  | ok (version : UInt64)
  | deleted
  | notFound
  | pong
  | authOk
  | error (code : UInt64) (message : String)
  | watching
  | unwatched
  | watchEvent (key : String) (value : Option (List UInt8)) (version : UInt64)
  | patternDeleted (deleted : UInt64)
  | patternTtlUpdated (updated : UInt64)
  | setNx (created : Bool) (version : UInt64)
  | counter (value : Int64) (version : UInt64)
  deriving DecidableEq

/-- The numbers and wire types of the fields of an envelope that a client looks at. -/
def envelopeSchema : List (ℕ × ℕ) :=
  [(1, 0), (3, 2)]

/-- The numbers and wire types of the fields of a variant. -/
def variantSchema : ℕ → List (ℕ × ℕ)
  | 1 => [(1, 2), (2, 2), (3, 0)]
  | 2 => [(1, 0)]
  | 7 => [(1, 0), (2, 2)]
  | 10 => [(1, 2), (2, 2), (3, 0)]
  | 11 => [(1, 0)]
  | 12 => [(1, 0)]
  | 13 => [(1, 0), (2, 0)]
  | 14 => [(1, 0), (2, 0)]
  | _ => []

/-- The fields of a byte string that may be absent. -/
def optionalSchema : List (ℕ × ℕ) :=
  [(1, 2)]

/-- A text. -/
def textSlot (k : ℕ) (s : String) : Slot :=
  .bytes k (utf8Bytes s)

namespace ServerResponse

/-- The field number of the variant. -/
def variant : ServerResponse → ℕ
  | .value _ _ _ => 1
  | .ok _ => 2
  | .deleted => 3
  | .notFound => 4
  | .pong => 5
  | .authOk => 6
  | .error _ _ => 7
  | .watching => 8
  | .unwatched => 9
  | .watchEvent _ _ _ => 10
  | .patternDeleted _ => 11
  | .patternTtlUpdated _ => 12
  | .setNx _ _ => 13
  | .counter _ _ => 14

/-- The value of a watch event, if it has one. -/
def optional : ServerResponse → Option (List UInt8)
  | .watchEvent _ bs _ => bs
  | _ => none

/-- The fields of the message of the variant, of which the value of a watch event is encoded
as `opt`. -/
def slots (opt : List UInt8) : ServerResponse → List Slot
  | .value key bs version => [textSlot 1 key, .bytes 2 bs, .uint 3 version.toNat]
  | .ok version => [.uint 1 version.toNat]
  | .error code message => [.uint 1 code.toNat, textSlot 2 message]
  | .watchEvent key none version => [textSlot 1 key, .uint 3 version.toNat]
  | .watchEvent key (some _) version => [textSlot 1 key, .message 2 opt, .uint 3 version.toNat]
  | .patternDeleted count => [.uint 1 count.toNat]
  | .patternTtlUpdated count => [.uint 1 count.toNat]
  | .setNx created version => [.uint 1 created.toNat, .uint 2 version.toNat]
  | .counter n version => [.uint 1 n.toUInt64.toNat, .uint 2 version.toNat]
  | _ => []

/-- No two fields of a message have the same number. -/
theorem slots_nodup (opt : List UInt8) (x : ServerResponse) :
    ((x.slots opt).map Slot.key).Nodup := by
  have hthree : [(1, 2), (2, 2), (3, 0)].Nodup := by decide
  have htwo : [(1, 2), (3, 0)].Nodup := by decide
  have herror : [(1, 0), (2, 2)].Nodup := by decide
  have hnumbers : [(1, 0), (2, 0)].Nodup := by decide
  have hone : [(1, 0)].Nodup := by decide
  cases x with
  | value _ _ _ => exact hthree
  | error _ _ => exact herror
  | watchEvent _ bs _ =>
      cases bs with
      | none => exact htwo
      | some _ => exact hthree
  | setNx _ _ => exact hnumbers
  | counter _ _ => exact hnumbers
  | ok _ => exact hone
  | patternDeleted _ => exact hone
  | patternTtlUpdated _ => exact hone
  | _ => exact List.nodup_nil

theorem variant_known (x : ServerResponse) : Variant x.variant := by
  cases x with
  | _ => simp [Variant, variant]

theorem optional_mem (x : ServerResponse) {value : List UInt8} (h : x.optional = some value)
    (opt : List UInt8) : Slot.message 2 opt ∈ x.slots opt := by
  cases x with
  | watchEvent key bs version =>
      cases bs with
      | none => cases h
      | some _ => exact List.mem_cons_of_mem _ (List.mem_cons_self ..)
  | _ => cases h

/-- The canonical encoding of the value of a watch event. -/
def encodeOptional (x : ServerResponse) : List UInt8 :=
  encodeMessage (x.optional.toList.map (Slot.bytes 1))

/-- The canonical encoding of a response in an envelope of version 1. -/
def encode (x : ServerResponse) : List UInt8 :=
  encodeMessage [.uint 1 1,
    .message 3 (encodeMessage [.message x.variant (encodeMessage (x.slots x.encodeOptional))])]

end ServerResponse

/-- A byte string that holds slots. -/
def EncodesMessage (F : Format) (schema : List (ℕ × ℕ)) (slots : List Slot) (bs : List UInt8) :
    Prop :=
  ∃ fs, IsMessage F bs fs ∧ Represents schema slots fs

/-- A byte string that holds one variant. -/
def EncodesVariant (F : Format) (k : ℕ) (inner bs : List UInt8) : Prop :=
  ∃ before after, IsMessage F bs (before ++ ⟨k, .bytes inner⟩ :: after) ∧
    ∀ f ∈ before ++ after, f.Unknown Variant

/-- A byte string that holds a response in an envelope. -/
def Encodes (F : Format) (x : ServerResponse) (bs : List UInt8) : Prop :=
  ∃ p inner opt, EncodesMessage F envelopeSchema [.uint 1 1, .message 3 p] bs ∧
    EncodesVariant F x.variant inner p ∧
    EncodesMessage F (variantSchema x.variant) (x.slots opt) inner ∧
    ∀ value, x.optional = some value → EncodesMessage F optionalSchema [.bytes 1 value] opt

namespace Dialect

variable {d : Dialect} {F : Format} {size : ℕ}

/-- A dialect that reads texts and defaults as what they are. -/
structure Plain (d : Dialect) : Prop where
  text : ∀ s, d.text (utf8Bytes s) = .ok s
  number : d.number 0 = .ok 0
  supported : d.number 1 = .ok 1
  index : d.index 0 = .ok 0
  wide : d.wide 0 = 0
  int64 : d.int64 0 = 0

/-- What the number types of a dialect make of a response. -/
def meaning (d : Dialect) : ServerResponse → Except DecodeError ClientResponse
  | .value key bs version => do
    let version ← d.number version.toNat
    .ok (.value key bs version)
  | .ok version => do
    let version ← d.number version.toNat
    .ok (.ok version)
  | .deleted => .ok .deleted
  | .notFound => .ok .notFound
  | .pong => .ok .pong
  | .authOk => .ok .authOk
  | .error code message => do
    let code ← d.index code.toNat
    .ok (.error (d.codeName code) message)
  | .watching => .ok .watching
  | .unwatched => .ok .unwatched
  | .watchEvent key bs version => do
    let version ← d.number version.toNat
    .ok (.watchEvent key bs version)
  | .patternDeleted count => do
    let count ← d.number count.toNat
    .ok (.patternDeleted count)
  | .patternTtlUpdated count => do
    let count ← d.number count.toNat
    .ok (.patternTtlUpdated count)
  | .setNx created version => .ok (.setNx created (d.wide version.toNat))
  | .counter n version =>
      .ok (.counter (d.int64 n.toUInt64.toNat) (d.wide version.toNat))

section Slots

variable {schema : List (ℕ × ℕ)} {slots : List Slot} {fs : List Field} {k : ℕ}

/-- The number of a slot is found. -/
theorem lastOf_uint {β : Type} {read : ℕ → Except DecodeError β} {b : β} {n : ℕ}
    (h : Represents schema slots fs) (hkey : (k, 0) ∈ schema)
    (hnodup : (slots.map Slot.key).Nodup) (hs : Slot.uint k n ∈ slots) (hzero : read 0 = .ok b) :
    lastOf (varintAt k read) b fs = read n := by
  refine h.lastOf_eq hkey (fun f => varintAt_of_key_ne) hnodup hs rfl (if_pos rfl) fun hd => ?_
  have hn : n = 0 := of_decide_eq_true hd
  rw [hn, hzero]

/-- The byte string of a slot is found. -/
theorem lastOf_bytes {β : Type} {read : List UInt8 → Except DecodeError β} {b : β}
    {bs : List UInt8} (h : Represents schema slots fs) (hkey : (k, 2) ∈ schema)
    (hnodup : (slots.map Slot.key).Nodup) (hs : Slot.bytes k bs ∈ slots)
    (hnil : read [] = .ok b) : lastOf (bytesAt k read) b fs = read bs := by
  refine h.lastOf_eq hkey (fun f => bytesAt_of_key_ne) hnodup hs rfl (if_pos rfl) fun hd => ?_
  have hbs : bs = [] := of_decide_eq_true hd
  rw [hbs, hnil]

/-- The message of a slot is found. -/
theorem lastOf_message {β : Type} {read : List UInt8 → Except DecodeError β} {b : β}
    {bs : List UInt8} (h : Represents schema slots fs) (hkey : (k, 2) ∈ schema)
    (hnodup : (slots.map Slot.key).Nodup) (hs : Slot.message k bs ∈ slots) :
    lastOf (bytesAt k read) b fs = read bs :=
  h.lastOf_eq hkey (fun f => bytesAt_of_key_ne) hnodup hs rfl (if_pos rfl) fun hd => (by cases hd)

/-- The text of a slot is found. -/
theorem Plain.lastOf_text (hd : d.Plain) {s : String} (h : Represents schema slots fs)
    (hkey : (k, 2) ∈ schema) (hnodup : (slots.map Slot.key).Nodup) (hs : textSlot k s ∈ slots) :
    lastOf (bytesAt k d.text) "" fs = .ok s :=
  (lastOf_bytes h hkey hnodup hs (hd.text "")).trans (hd.text s)

end Slots

/-- The fields of a variant make up what the number types make of the response. -/
theorem Plain.variantOf_eq (hd : d.Plain) (h : d.Follows F size) {x : ServerResponse}
    {opt : List UInt8} {fs : List Field}
    (hopt : ∀ value, x.optional = some value → opt.length ≤ size)
    (hfs : Represents (variantSchema x.variant) (x.slots opt) fs)
    (hvalue : ∀ value, x.optional = some value →
      EncodesMessage F optionalSchema [.bytes 1 value] opt)
    (hbare : bareVariant x.variant = none) : d.variantOf x.variant fs = d.meaning x := by
  have hnodup := x.slots_nodup opt
  cases x with
  | value key bs version =>
      change Represents [(1, 2), (2, 2), (3, 0)]
        [textSlot 1 key, .bytes 2 bs, .uint 3 version.toNat] fs at hfs
      have hkey := hd.lastOf_text hfs (by decide) hnodup (List.mem_cons_self ..)
      have hbs : lastOf (bytesAt 2 .ok) [] fs = .ok bs :=
        lastOf_bytes hfs (by decide) hnodup (by simp) rfl
      have hversion := lastOf_uint (n := version.toNat) (k := 3) hfs (by decide) hnodup (by simp) hd.number
      simp only [variantOf, ServerResponse.variant, hkey, hbs, hversion]
      rfl
  | ok version =>
      change Represents [(1, 0)] [.uint 1 version.toNat] fs at hfs
      have hversion := lastOf_uint (n := version.toNat) (k := 1) hfs (by decide) hnodup (by simp) hd.number
      simp only [variantOf, ServerResponse.variant, hversion]
      rfl
  | error code message =>
      change Represents [(1, 0), (2, 2)] [.uint 1 code.toNat, textSlot 2 message] fs at hfs
      have hcode := lastOf_uint (n := code.toNat) (k := 1) hfs (by decide) hnodup (by simp) hd.index
      have hmessage := hd.lastOf_text (k := 2) (s := message) hfs (by decide) hnodup (by simp)
      simp only [variantOf, ServerResponse.variant, hcode, hmessage]
      rfl
  | watchEvent key bs version =>
      cases bs with
      | none =>
          change Represents [(1, 2), (2, 2), (3, 0)]
            [textSlot 1 key, .uint 3 version.toNat] fs at hfs
          have hkey := hd.lastOf_text hfs (by decide) hnodup (List.mem_cons_self ..)
          have hbs : lastOf (bytesAt 2 fun bs => (d.decodeOptionalBytes bs).map some) none fs =
              .ok none := by
            refine hfs.lastOf_none (by decide) (fun f => bytesAt_of_key_ne (k := 2)) ?_
            simp [textSlot, Slot.key, Field.key, Slot.bytes, Slot.uint]
          have hversion := lastOf_uint (n := version.toNat) (k := 3) hfs (by decide) hnodup
            (by simp) hd.number
          simp only [variantOf, ServerResponse.variant, hkey, hbs, hversion]
          rfl
      | some value =>
          change Represents [(1, 2), (2, 2), (3, 0)]
            [textSlot 1 key, .message 2 opt, .uint 3 version.toNat] fs at hfs
          obtain ⟨ofs, hofs, hvalue⟩ := hvalue value rfl
          have hle := hopt value rfl
          have hkey := hd.lastOf_text hfs (by decide) hnodup (List.mem_cons_self ..)
          have hopt : d.decodeOptionalBytes opt = .ok value := by
            refine (fields_optionalBytes h hle value).mpr ⟨ofs, hofs, ?_⟩
            exact lastOf_bytes hvalue (by decide) (List.nodup_singleton _)
              (List.mem_singleton_self _) rfl
          have hbs : lastOf (bytesAt 2 fun bs => (d.decodeOptionalBytes bs).map some) none fs =
              (d.decodeOptionalBytes opt).map some :=
            lastOf_message hfs (by decide) hnodup (by simp)
          rw [hopt] at hbs
          have hversion := lastOf_uint (n := version.toNat) (k := 3) hfs (by decide) hnodup
            (by simp) hd.number
          simp only [variantOf, ServerResponse.variant, hkey, hbs, hversion]
          rfl
  | patternDeleted count =>
      change Represents [(1, 0)] [.uint 1 count.toNat] fs at hfs
      have hcount := lastOf_uint (n := count.toNat) (k := 1) hfs (by decide) hnodup (by simp) hd.number
      simp only [variantOf, ServerResponse.variant, hcount]
      rfl
  | patternTtlUpdated count =>
      change Represents [(1, 0)] [.uint 1 count.toNat] fs at hfs
      have hcount := lastOf_uint (n := count.toNat) (k := 1) hfs (by decide) hnodup (by simp) hd.number
      simp only [variantOf, ServerResponse.variant, hcount]
      rfl
  | setNx created version =>
      change Represents [(1, 0), (2, 0)] [.uint 1 created.toNat, .uint 2 version.toNat] fs at hfs
      have hcreated : lastOf (varintAt 1 fun n => .ok (decide (n ≠ 0))) false fs =
          .ok (decide (created.toNat ≠ 0)) := lastOf_uint hfs (by decide) hnodup (by simp) rfl
      have hversion : lastOf (varintAt 2 fun n => .ok (d.wide n)) 0 fs =
          .ok (d.wide version.toNat) :=
        lastOf_uint hfs (by decide) hnodup (by simp) (congrArg Except.ok hd.wide)
      have hbool : decide (created.toNat ≠ 0) = created := by cases created <;> rfl
      rw [hbool] at hcreated
      simp only [variantOf, ServerResponse.variant, hcreated, hversion]
      rfl
  | counter n version =>
      change Represents [(1, 0), (2, 0)] [.uint 1 n.toUInt64.toNat, .uint 2 version.toNat] fs
        at hfs
      have hn : lastOf (varintAt 1 fun n => .ok (d.int64 n)) 0 fs =
          .ok (d.int64 n.toUInt64.toNat) :=
        lastOf_uint hfs (by decide) hnodup (by simp) (congrArg Except.ok hd.int64)
      have hversion : lastOf (varintAt 2 fun n => .ok (d.wide n)) 0 fs =
          .ok (d.wide version.toNat) :=
        lastOf_uint hfs (by decide) hnodup (by simp) (congrArg Except.ok hd.wide)
      simp only [variantOf, ServerResponse.variant, hn, hversion]
      rfl
  | _ => cases hbare

theorem bareVariant_meaning {x : ServerResponse} {r : ClientResponse}
    (hbare : bareVariant x.variant = some r) : d.meaning x = .ok r := by
  cases x with
  | deleted => exact congrArg Except.ok (Option.some.inj hbare)
  | notFound => exact congrArg Except.ok (Option.some.inj hbare)
  | pong => exact congrArg Except.ok (Option.some.inj hbare)
  | authOk => exact congrArg Except.ok (Option.some.inj hbare)
  | watching => exact congrArg Except.ok (Option.some.inj hbare)
  | unwatched => exact congrArg Except.ok (Option.some.inj hbare)
  | _ => cases hbare

theorem variantOf_bare {k : ℕ} {r₀ : ClientResponse} (hbare : bareVariant k = some r₀)
    (fs : List Field) : d.variantOf k fs = .error (.malformed d.absent) := by
  unfold bareVariant at hbare
  split at hbare
  · rfl
  · rfl
  · rfl
  · rfl
  · rfl
  · rfl
  · cases hbare

/-- The envelope of an encoding opens to a payload in which the variant is found. -/
theorem Plain.opens_encodes (hd : d.Plain) {x : ServerResponse} {bs p inner : List UInt8}
    (henvelope : EncodesMessage F envelopeSchema [.uint 1 1, .message 3 p] bs)
    (hvariant : EncodesVariant F x.variant inner p) :
    d.Opens F bs p ∧ Finds F Variant p x.variant inner := by
  obtain ⟨efs, hefs, henvelope⟩ := henvelope
  obtain ⟨before, after, hrfs, hunknown⟩ := hvariant
  have hnodup : ([Slot.uint 1 1, Slot.message 3 p].map Slot.key).Nodup :=
    (by decide : [(1, 0), (3, 2)].Nodup)
  have hversion : lastOf (varintAt 1 d.number) 0 efs = .ok 1 :=
    (lastOf_uint henvelope (by decide) hnodup (by simp) hd.number).trans hd.supported
  have hpayload : lastOf (bytesAt 3 fun bs => .ok (some bs)) none efs = .ok (some p) :=
    lastOf_message henvelope (by decide) hnodup (by simp)
  exact ⟨⟨efs, 1, hefs, hversion, Or.inr rfl, hpayload⟩,
    hrfs.finds (fun f hf => hunknown f (List.mem_append_left _ hf)) x.variant_known⟩

/-- The decoder of the variant decides. -/
theorem Opens.decodeResponse (h : d.Follows F size) {bs p inner : List UInt8} {k : ℕ}
    (hsize : bs.length ≤ size) (hopens : d.Opens F bs p) (hfinds : Finds F Variant p k inner)
    {x : Except DecodeError ClientResponse} (hx : d.decodeVariant k inner = some x) :
    d.decodeResponse bs = x := by
  have hp := hopens.length_le.trans hsize
  obtain ⟨fs, v, hm, hv, hsupported, ho⟩ := hopens
  have henvelope := (h.fields_eq_ok takes_envelope hsize (0, none) (v, some p)).mpr
    ⟨fs, hm, foldFields_keep.mpr ⟨hv, ho⟩⟩
  change d.fields _ bs (0, none) >>= d.response = x
  refine (congrArg (· >>= d.response) henvelope).trans ?_
  change d.response (v, some p) = x
  rw [response, if_neg ((supported_iff v).mpr hsupported)]
  exact h.oneof_of_finds decodeVariant_isSome hp hfinds hx

/-- A decoder makes of the encodings of a response what its number types make of it. -/
theorem decodeResponse_encodes (h : d.Follows F size) (hd : d.Plain) {x : ServerResponse}
    {bs : List UInt8} (hsize : bs.length ≤ size) (he : Encodes F x bs) (r : ClientResponse) :
    d.decodeResponse bs = .ok r ↔ d.meaning x = .ok r := by
  obtain ⟨p, inner, opt, henvelope, hvariant, ⟨ifs, hifs, hslots⟩, hvalue⟩ := he
  obtain ⟨hopens, hfinds⟩ := hd.opens_encodes henvelope hvariant
  have hinner := (hfinds.length_le.trans hopens.length_le).trans hsize
  obtain ⟨y, hy⟩ := Option.isSome_iff_exists.mp
    ((decodeVariant_isSome (d := d) x.variant inner).mpr x.variant_known)
  have hholds := decodeVariant_eq_ok h hinner x.variant r
  rw [hy, Option.some.injEq] at hholds
  rw [hopens.decodeResponse h hsize hfinds hy, hholds]
  cases hbare : bareVariant x.variant with
  | some r₀ =>
      have hnone : ¬ ∃ fs, IsMessage F inner fs ∧ d.variantOf x.variant fs = .ok r :=
        fun ⟨fs, _, hr⟩ => by
          rw [variantOf_bare hbare] at hr
          cases hr
      rw [Holds, or_iff_left hnone, hbare, bareVariant_meaning hbare]
      simp
  | none =>
      have hopt : ∀ value, x.optional = some value → opt.length ≤ size := fun value hsome =>
        (hifs.length_le (hslots.mem (x.optional_mem hsome opt) rfl)).trans hinner
      have hmeaning := hd.variantOf_eq h hopt hslots hvalue hbare
      rw [Holds, hbare, ← hmeaning]
      refine ⟨fun hr => ?_, fun hr => Or.inr ⟨ifs, hifs, hr⟩⟩
      rcases hr with hr | ⟨fs, hfs, hr⟩
      · cases hr
      · rwa [hfs.unique hifs] at hr

/-- A quiet decoder does not break at an encoding of an error. -/
theorem Quiet.not_broken_error (hq : d.Quiet) (h : d.Follows F size) (hd : d.Plain)
    {code : UInt64} {message : String} {bs : List UInt8} (hsize : bs.length ≤ size)
    (he : Encodes F (.error code message) bs) : ¬ Broken (d.decodeResponse bs) := by
  obtain ⟨p, inner, opt, henvelope, hvariant, ⟨ifs, hifs, -⟩, -⟩ := he
  obtain ⟨hopens, hfinds⟩ := hd.opens_encodes henvelope hvariant
  have hinner := (hfinds.length_le.trans hopens.length_le).trans hsize
  rw [hopens.decodeResponse h hsize hfinds (x := d.decodeErrorResponse inner) rfl]
  intro hbroken
  rcases broken_bind.mp hbroken with hfields | ⟨_, -, hok⟩
  · have hfold := h.fields_of_message takes_error hinner hifs (0, "")
    exact not_broken_foldFields hq.takeError ifs _ ((congrArg Broken hfold).mp hfields)
  · exact not_broken_ok _ hok

end Dialect

section Canonical

variable {F : Format}

theorem small_textSlot {k : ℕ} (hk : k < 2 ^ 28) (s : String) : (textSlot k s).Small :=
  ⟨hk, Or.inl ⟨_, rfl⟩⟩

theorem small_bytes {k : ℕ} (hk : k < 2 ^ 28) (bs : List UInt8) : (Slot.bytes k bs).Small :=
  ⟨hk, Or.inl ⟨_, rfl⟩⟩

theorem small_message {k : ℕ} (hk : k < 2 ^ 28) (bs : List UInt8) : (Slot.message k bs).Small :=
  ⟨hk, Or.inl ⟨_, rfl⟩⟩

theorem small_uint {k n : ℕ} (hk : k < 2 ^ 28) (hn : n < 2 ^ 64) : (Slot.uint k n).Small :=
  ⟨hk, Or.inr hn⟩

theorem small_slots (opt : List UInt8) (x : ServerResponse) : ∀ s ∈ x.slots opt, s.Small := by
  have huint : ∀ {k : ℕ} (n : UInt64), k < 2 ^ 28 → (Slot.uint k n.toNat).Small :=
    fun n hk => small_uint hk n.toNat_lt
  have hone : ∀ n : UInt64, ∀ s ∈ [Slot.uint 1 n.toNat], s.Small := fun n =>
    List.forall_mem_singleton.mpr (huint n (by decide))
  cases x with
  | value key bs version =>
      exact List.forall_mem_cons.mpr ⟨small_textSlot (by decide) key, List.forall_mem_cons.mpr
        ⟨small_bytes (by decide) bs, List.forall_mem_singleton.mpr (huint version (by decide))⟩⟩
  | ok version => exact hone version
  | error code message =>
      exact List.forall_mem_cons.mpr ⟨huint code (by decide),
        List.forall_mem_singleton.mpr (small_textSlot (by decide) message)⟩
  | watchEvent key bs version =>
      cases bs with
      | none =>
          exact List.forall_mem_cons.mpr ⟨small_textSlot (by decide) key,
            List.forall_mem_singleton.mpr (huint version (by decide))⟩
      | some _ =>
          exact List.forall_mem_cons.mpr ⟨small_textSlot (by decide) key,
            List.forall_mem_cons.mpr ⟨small_message (by decide) opt,
              List.forall_mem_singleton.mpr (huint version (by decide))⟩⟩
  | patternDeleted count => exact hone count
  | patternTtlUpdated count => exact hone count
  | setNx created version =>
      have hbool : created.toNat < 2 ^ 64 := by cases created <;> decide
      exact List.forall_mem_cons.mpr ⟨small_uint (by decide) hbool,
        List.forall_mem_singleton.mpr (huint version (by decide))⟩
  | counter n version =>
      exact List.forall_mem_cons.mpr ⟨huint n.toUInt64 (by decide),
        List.forall_mem_singleton.mpr (huint version (by decide))⟩
  | _ => exact fun s hs => (by cases hs)

/-- The canonical encoding of a response is an encoding of it. -/
theorem encodes_encode (h : F.Standard) (x : ServerResponse) (hlen : x.encode.length < 2 ^ 64) :
    Encodes F x x.encode := by
  have hmessage : ∀ {schema : List (ℕ × ℕ)} {slots : List Slot}, (∀ s ∈ slots, s.Small) →
      (encodeMessage slots).length < 2 ^ 64 →
      EncodesMessage F schema slots (encodeMessage slots) := fun hsmall hlen =>
    ⟨_, h.message_of_small hsmall hlen, represents_written _ _⟩
  have hone : ∀ {k : ℕ} {bs : List UInt8}, (encodeMessage [Slot.message k bs]).length < 2 ^ 64 →
      bs.length < 2 ^ 64 := fun hlt =>
    (length_le_encodeMessage (List.mem_singleton_self _) rfl rfl).trans_lt hlt
  have hp : (encodeMessage [.message x.variant (encodeMessage (x.slots x.encodeOptional))]).length <
      2 ^ 64 :=
    (length_le_encodeMessage (s := .message 3 _) (by simp) rfl rfl).trans_lt hlen
  have hinner := hone hp
  have hk : x.variant < 2 ^ 28 := x.variant_known.2.trans_lt (by decide)
  refine ⟨_, _, x.encodeOptional, hmessage ?_ hlen, ⟨[], [], ?_, fun f hf => (by cases hf)⟩,
    hmessage (small_slots _ x) hinner, fun value hvalue => ?_⟩
  · exact List.forall_mem_cons.mpr ⟨small_uint (by decide) (by decide),
      List.forall_mem_singleton.mpr (small_message (by decide) _)⟩
  · exact h.message_of_small (List.forall_mem_singleton.mpr (small_message hk _)) hp
  · have hopt : x.encodeOptional = encodeMessage [.bytes 1 value] := by
      rw [ServerResponse.encodeOptional, hvalue]
      rfl
    have hle := length_le_encodeMessage (x.optional_mem hvalue x.encodeOptional) rfl rfl
    rw [hopt] at hle ⊢
    rw [hopt] at hinner
    exact hmessage (List.forall_mem_singleton.mpr (small_bytes (by decide) value))
      (hle.trans_lt hinner)

end Canonical

end Wire

end DittoClient
