import DittoClient.Protobuf.Faults
import DittoClient.Wire.Fields

/-!
# What a response decoder accepts

An envelope opens to the payload of its last `client_response` if it is a message in a
supported version (`Dialect.Opens`). The first variant in this payload is decoded to the
response that its fields make up (`Dialect.Holds`). A decoder returns a response just when
the envelope opens to a payload in which it finds a variant that holds this response
(`Dialect.decodeResponse_eq_ok`), and it breaks just when complete fields lead to a fault on
one of these levels (`Dialect.decodeResponse_broken`).
-/

namespace DittoClient

namespace Wire

open DittoClient.Protobuf
open DittoClient.Protobuf.Rules

/-- The number of a variant of a response. -/
def Variant (k : ℕ) : Prop :=
  1 ≤ k ∧ k ≤ 14

instance (k : ℕ) : Decidable (Variant k) :=
  inferInstanceAs (Decidable (_ ∧ _))

/-- The variants whose messages are not looked at. -/
def bareVariant : ℕ → Option ClientResponse
  | 3 => some .deleted
  | 4 => some .notFound
  | 5 => some .pong
  | 6 => some .authOk
  | 8 => some .watching
  | 9 => some .unwatched
  | _ => none

namespace Dialect

variable (d : Dialect)

/-- The response that the fields of a variant make up. -/
def variantOf (k : ℕ) (fs : List Field) : Except DecodeError ClientResponse :=
  match k with
  | 1 => do
    let key ← lastOf (bytesAt 1 d.text) "" fs
    let value ← lastOf (bytesAt 2 .ok) [] fs
    let version ← lastOf (varintAt 3 d.number) 0 fs
    .ok (.value key value version)
  | 2 => do
    let version ← lastOf (varintAt 1 d.number) 0 fs
    .ok (.ok version)
  | 7 => do
    let code ← lastOf (varintAt 1 d.index) 0 fs
    let message ← lastOf (bytesAt 2 d.text) "" fs
    .ok (.error (d.codeName code) message)
  | 10 => do
    let key ← lastOf (bytesAt 1 d.text) "" fs
    let value ← lastOf (bytesAt 2 fun bs => (d.decodeOptionalBytes bs).map some) none fs
    let version ← lastOf (varintAt 3 d.number) 0 fs
    .ok (.watchEvent key value version)
  | 11 => do
    let deleted ← lastOf (varintAt 1 d.number) 0 fs
    .ok (.patternDeleted deleted)
  | 12 => do
    let updated ← lastOf (varintAt 1 d.number) 0 fs
    .ok (.patternTtlUpdated updated)
  | 13 => do
    let created ← lastOf (varintAt 1 fun n => .ok (decide (n ≠ 0))) false fs
    let version ← lastOf (varintAt 2 fun n => .ok (d.wide n)) 0 fs
    .ok (.setNx created version)
  | 14 => do
    let value ← lastOf (varintAt 1 fun n => .ok (d.int64 n)) 0 fs
    let version ← lastOf (varintAt 2 fun n => .ok (d.wide n)) 0 fs
    .ok (.counter value version)
  | _ => .error (.malformed d.absent)

/-- The response that a variant with a number holds. -/
def Holds (F : Format) (k : ℕ) (inner : List UInt8) (r : ClientResponse) : Prop :=
  bareVariant k = some r ∨ ∃ fs, IsMessage F inner fs ∧ d.variantOf k fs = .ok r

/-- An envelope in a supported version, and the payload of its last `client_response`. -/
def Opens (F : Format) (bs p : List UInt8) : Prop :=
  ∃ fs v, IsMessage F bs fs ∧ lastOf (varintAt 1 d.number) 0 fs = .ok v ∧ (v = 0 ∨ v = 1) ∧
    lastOf (bytesAt 3 fun bs => .ok (some bs)) none fs = .ok (some p)

/-- What is made of the version and the payload of an envelope. -/
def response (x : ℤ × Option (List UInt8)) : Except DecodeError ClientResponse :=
  if x.1 ≠ 0 ∧ x.1 ≠ 1 then
    .error (.malformed s!"unsupported protocol version: {x.1}")
  else
    match x.2 with
    | none => .error (.malformed d.missing)
    | some response => d.oneof d.decodeVariant d.absent response

variable {d} {F : Format} {size : ℕ}

theorem decodeVariant_isSome (k : ℕ) (inner : List UInt8) :
    (d.decodeVariant k inner).isSome = true ↔ Variant k := by
  match k with
  | 0 => simp [decodeVariant, Variant]
  | 1 => simp [decodeVariant, Variant]
  | 2 => simp [decodeVariant, Variant]
  | 3 => simp [decodeVariant, Variant]
  | 4 => simp [decodeVariant, Variant]
  | 5 => simp [decodeVariant, Variant]
  | 6 => simp [decodeVariant, Variant]
  | 7 => simp [decodeVariant, Variant]
  | 8 => simp [decodeVariant, Variant]
  | 9 => simp [decodeVariant, Variant]
  | 10 => simp [decodeVariant, Variant]
  | 11 => simp [decodeVariant, Variant]
  | 12 => simp [decodeVariant, Variant]
  | 13 => simp [decodeVariant, Variant]
  | 14 => simp [decodeVariant, Variant]
  | k + 15 => simp [decodeVariant, Variant]

section Variants

variable {inner : List UInt8}

/-- A variant that is parsed returns what its fields make up. -/
theorem holds_of_fields {k : ℕ} {x : Except DecodeError ClientResponse}
    (hbare : bareVariant k = none) (r : ClientResponse)
    (hx : x = .ok r ↔ ∃ fs, IsMessage F inner fs ∧ d.variantOf k fs = .ok r) :
    some x = some (.ok r) ↔ d.Holds F k inner r := by
  rw [Option.some.injEq, hx, Holds, hbare]
  simp

/-- A variant that is not looked at. -/
theorem holds_of_bare {k : ℕ} {r₀ : ClientResponse} (hbare : bareVariant k = some r₀)
    (hnone : ∀ fs r, d.variantOf k fs ≠ .ok r) (r : ClientResponse) :
    some (.ok r₀ : Except DecodeError ClientResponse) = some (.ok r) ↔ d.Holds F k inner r := by
  rw [Holds, hbare, or_iff_left fun ⟨fs, _, h⟩ => hnone fs r h]
  simp

theorem map_eq_bind {α : Type} (x : Except DecodeError α) (g : α → ClientResponse) :
    x.map g = x >>= fun a => .ok (g a) := by
  cases x <;> rfl

theorem fields_map_count (h : d.Follows F size) (hsize : inner.length ≤ size)
    {g : ℤ → ClientResponse} {r : ClientResponse} :
    (d.decodeCount inner).map g = .ok r ↔ ∃ fs, IsMessage F inner fs ∧
      (lastOf (varintAt 1 d.number) 0 fs >>= fun n => .ok (g n)) = .ok r := by
  rw [map_eq_bind]
  exact h.fields_bind_eq_ok d.takeNumber takes_number hsize

/-- A variant is decoded to the response that it holds. -/
theorem decodeVariant_eq_ok (h : d.Follows F size) (hsize : inner.length ≤ size) (k : ℕ)
    (r : ClientResponse) :
    d.decodeVariant k inner = some (.ok r) ↔ d.Holds F k inner r := by
  match k with
  | 1 =>
      refine holds_of_fields rfl r ((fields_value h hsize r).trans ?_)
      refine exists_congr fun fs => and_congr_right fun _ => ?_
      rw [takeValue, foldFields_keep_bind, variantOf, bind_eq_ok, bind_eq_ok]
      exact exists_congr fun key => and_congr_right fun _ => foldFields_keep_bind
  | 2 => exact holds_of_fields rfl r (fields_ok h hsize r)
  | 7 =>
      refine holds_of_fields rfl r ((fields_error h hsize r).trans ?_)
      exact exists_congr fun fs => and_congr_right fun _ => foldFields_keep_bind
  | 10 =>
      refine holds_of_fields rfl r ((fields_watchEvent h hsize r).trans ?_)
      refine exists_congr fun fs => and_congr_right fun _ => ?_
      rw [takeWatchEvent, foldFields_keep_bind, variantOf, bind_eq_ok, bind_eq_ok]
      exact exists_congr fun key => and_congr_right fun _ => foldFields_keep_bind
  | 11 => exact holds_of_fields rfl r (fields_map_count h hsize)
  | 12 => exact holds_of_fields rfl r (fields_map_count h hsize)
  | 13 =>
      refine holds_of_fields rfl r ((fields_setNx h hsize r).trans ?_)
      exact exists_congr fun fs => and_congr_right fun _ => foldFields_keep_bind
  | 14 =>
      refine holds_of_fields rfl r ((fields_counter h hsize r).trans ?_)
      exact exists_congr fun fs => and_congr_right fun _ => foldFields_keep_bind
  | 3 => exact holds_of_bare rfl (fun fs r hr => by cases hr) r
  | 4 => exact holds_of_bare rfl (fun fs r hr => by cases hr) r
  | 5 => exact holds_of_bare rfl (fun fs r hr => by cases hr) r
  | 6 => exact holds_of_bare rfl (fun fs r hr => by cases hr) r
  | 8 => exact holds_of_bare rfl (fun fs r hr => by cases hr) r
  | 9 => exact holds_of_bare rfl (fun fs r hr => by cases hr) r
  | 0 => simp [decodeVariant, Holds, bareVariant, variantOf]
  | k + 15 => simp [decodeVariant, Holds, bareVariant, variantOf]

end Variants

variable {bs p : List UInt8}

theorem supported_iff (v : ℤ) : ¬ (v ≠ 0 ∧ v ≠ 1) ↔ v = 0 ∨ v = 1 := by
  omega

/-- The payload of an envelope is no longer than the envelope. -/
theorem Opens.length_le (h : d.Opens F bs p) : p.length ≤ bs.length := by
  obtain ⟨fs, v, hm, -, -, hp⟩ := h
  obtain ⟨⟨k, c⟩, hmem, hf⟩ := lastOf_mem hp
  unfold bytesAt at hf
  split at hf
  · next heq =>
      split at hf
      · cases hf
        cases heq
        exact hm.length_le hmem
      · cases hf
  · cases hf

/-- A payload is decoded to the response that the first variant in its envelope holds. -/
theorem decodeResponse_eq_ok (h : d.Follows F size) (hsize : bs.length ≤ size)
    (r : ClientResponse) :
    d.decodeResponse bs = .ok r ↔
      ∃ p k inner, d.Opens F bs p ∧ Finds F Variant p k inner ∧ d.Holds F k inner r := by
  have henvelope : d.decodeResponse bs = .ok r ↔ ∃ fs v o, IsMessage F bs fs ∧
      lastOf (varintAt 1 d.number) 0 fs = .ok v ∧
      lastOf (bytesAt 3 fun bs => .ok (some bs)) none fs = .ok o ∧
      d.response (v, o) = .ok r := by
    refine (h.fields_bind_eq_ok d.takeEnvelope takes_envelope hsize).trans ?_
    constructor
    · rintro ⟨fs, hm, hfold⟩
      obtain ⟨⟨v, o⟩, hx, hr⟩ := bind_eq_ok.mp hfold
      obtain ⟨hv, ho⟩ := foldFields_keep.mp hx
      exact ⟨fs, v, o, hm, hv, ho, hr⟩
    · rintro ⟨fs, v, o, hm, hv, ho, hr⟩
      exact ⟨fs, hm, bind_eq_ok.mpr ⟨(v, o), foldFields_keep.mpr ⟨hv, ho⟩, hr⟩⟩
  rw [henvelope]
  constructor
  · rintro ⟨fs, v, o, hm, hv, ho, hr⟩
    unfold response at hr
    split at hr
    · cases hr
    · next hsupported =>
        cases o with
        | none => cases hr
        | some p =>
            have hopens : d.Opens F bs p := ⟨fs, v, hm, hv, (supported_iff v).mp hsupported, ho⟩
            have hp := hopens.length_le.trans hsize
            obtain ⟨k, inner, hfinds, hx⟩ := (h.oneof_eq_ok decodeVariant_isSome hp r).mp hr
            have hinner := hfinds.length_le.trans hp
            exact ⟨p, k, inner, hopens, hfinds, (decodeVariant_eq_ok h hinner k r).mp hx⟩
  · rintro ⟨p, k, inner, hopens, hfinds, hholds⟩
    have hp := hopens.length_le.trans hsize
    have hinner := hfinds.length_le.trans hp
    obtain ⟨fs, v, hm, hv, hsupported, ho⟩ := hopens
    refine ⟨fs, v, some p, hm, hv, ho, ?_⟩
    rw [response, if_neg ((supported_iff v).mpr hsupported)]
    exact (h.oneof_eq_ok decodeVariant_isSome hp r).mpr
      ⟨k, inner, hfinds, (decodeVariant_eq_ok h hinner k r).mpr hholds⟩

section Breaks

variable {Long : List UInt8 → Prop} {Far : ℕ → ℕ → Prop} {k : ℕ} {inner : List UInt8}

/-- What breaks the decoder of a variant. -/
def VariantBreaks (d : Dialect) (F : Format) (Long : List UInt8 → Prop) (Far : ℕ → ℕ → Prop)
    (k : ℕ) (inner : List UInt8) : Prop :=
  match k with
  | 1 => Meets F (Passes d.takeValue) (Breaks F Long Far d.takeValue) 0 inner
  | 2 => Meets F (Passes d.takeNumber) (Breaks F Long Far d.takeNumber) 0 inner
  | 7 => Meets F (Passes d.takeError) (Breaks F Long Far d.takeError) 0 inner
  | 10 => Meets F (Passes d.takeWatchEvent) (Breaks F Long Far d.takeWatchEvent) 0 inner
  | 11 => Meets F (Passes d.takeNumber) (Breaks F Long Far d.takeNumber) 0 inner
  | 12 => Meets F (Passes d.takeNumber) (Breaks F Long Far d.takeNumber) 0 inner
  | 13 => Meets F (Passes d.takeSetNx) (Breaks F Long Far d.takeSetNx) 0 inner
  | 14 => Meets F (Passes d.takeCounter) (Breaks F Long Far d.takeCounter) 0 inner
  | _ => False

/-- A message breaks when its fields do, whatever is made of them. -/
theorem broken_some_fields {α : Type} {x : Except DecodeError α}
    {g : α → Except DecodeError ClientResponse} (hg : ∀ a, ¬ Broken (g a)) {p : Prop}
    (hx : Broken x ↔ p) : (∃ y, some (x >>= g) = some y ∧ Broken y) ↔ p := by
  rw [← hx]
  constructor
  · rintro ⟨y, hy, hbroken⟩
    cases hy
    rcases broken_bind.mp hbroken with h | ⟨a, -, h⟩
    · exact h
    · exact absurd h (hg a)
  · exact fun h => ⟨_, rfl, broken_bind.mpr (Or.inl h)⟩

theorem decodeVariant_broken (hb : d.FailsAt size Long Far) (h : d.Follows F size)
    (hsize : inner.length ≤ size) :
    (∃ x, d.decodeVariant k inner = some x ∧ Broken x) ↔
      d.VariantBreaks F Long Far k inner := by
  have hcount : ∀ {g : ℤ → ClientResponse}, (∃ x, some ((d.decodeCount inner).map g) = some x ∧
      Broken x) ↔ Meets F (Passes d.takeNumber) (Breaks F Long Far d.takeNumber) 0 inner := by
    intro g
    rw [map_eq_bind]
    exact broken_some_fields (fun _ => not_broken_ok _)
      (hb.fields_broken h takes_number steady_put hsize 0)
  have hbare : ∀ {r : ClientResponse}, (∃ x, some (.ok r : Except DecodeError ClientResponse) =
      some x ∧ Broken x) ↔ False := by
    intro r
    refine ⟨fun ⟨x, hx, hbroken⟩ => ?_, False.elim⟩
    cases hx
    exact not_broken_ok r hbroken
  match k with
  | 1 =>
      exact broken_some_fields (fun _ => not_broken_ok _)
        (hb.fields_broken h takes_value (steady_put.keep (steady_put.keep steady_put)) hsize _)
  | 2 =>
      exact broken_some_fields (fun _ => not_broken_ok _)
        (hb.fields_broken h takes_number steady_put hsize _)
  | 7 =>
      exact broken_some_fields (fun _ => not_broken_ok _)
        (hb.fields_broken h takes_error (steady_put.keep steady_put) hsize _)
  | 10 =>
      exact broken_some_fields (fun _ => not_broken_ok _)
        (hb.fields_broken h takes_watchEvent (steady_put.keep (steady_put.keep steady_put)) hsize _)
  | 11 => exact hcount
  | 12 => exact hcount
  | 13 =>
      exact broken_some_fields (fun _ => not_broken_ok _)
        (hb.fields_broken h takes_setNx (steady_put.keep steady_put) hsize _)
  | 14 =>
      exact broken_some_fields (fun _ => not_broken_ok _)
        (hb.fields_broken h takes_counter (steady_put.keep steady_put) hsize _)
  | 3 => exact hbare
  | 4 => exact hbare
  | 5 => exact hbare
  | 6 => exact hbare
  | 8 => exact hbare
  | 9 => exact hbare
  | 0 => simp [decodeVariant, VariantBreaks]
  | k + 15 => simp [decodeVariant, VariantBreaks]

/-- A decoder breaks just when complete fields that it takes lead to a fault, in the
envelope, in its payload before the first variant, or in the variant. -/
theorem decodeResponse_broken (hb : d.FailsAt size Long Far) (h : d.Follows F size)
    (hsize : bs.length ≤ size) :
    Broken (d.decodeResponse bs) ↔
      Meets F (Passes d.takeEnvelope) (Breaks F Long Far d.takeEnvelope) 0 bs ∨
      ∃ p, d.Opens F bs p ∧ (Meets F (Field.Unknown Variant) (Faults F Long Far) 0 p ∨
        ∃ k inner, Finds F Variant p k inner ∧ d.VariantBreaks F Long Far k inner) := by
  refine (broken_bind (f := d.response)).trans ?_
  refine or_congr (hb.fields_broken h takes_envelope (steady_put.keep steady_put) hsize _) ?_
  have hvariant : ∀ {p : List UInt8}, d.Opens F bs p → (Broken (d.oneof d.decodeVariant d.absent p) ↔
      Meets F (Field.Unknown Variant) (Faults F Long Far) 0 p ∨
        ∃ k inner, Finds F Variant p k inner ∧ d.VariantBreaks F Long Far k inner) := by
    intro p hopens
    have hp := hopens.length_le.trans hsize
    rw [hb.oneof_broken h decodeVariant_isSome hp]
    refine or_congr Iff.rfl (exists_congr fun k => exists_congr fun inner => ?_)
    constructor
    · rintro ⟨x, hfinds, hx⟩
      exact ⟨hfinds, (decodeVariant_broken hb h (hfinds.length_le.trans hp)).mp ⟨x, hx⟩⟩
    · rintro ⟨hfinds, hbreaks⟩
      obtain ⟨x, hx⟩ := (decodeVariant_broken hb h (hfinds.length_le.trans hp)).mpr hbreaks
      exact ⟨x, hfinds, hx⟩
  constructor
  · rintro ⟨⟨v, o⟩, hx, hbroken⟩
    obtain ⟨fs, hm, hfold⟩ := (h.fields_eq_ok takes_envelope hsize _ _).mp hx
    obtain ⟨hv, ho⟩ := foldFields_keep.mp hfold
    unfold response at hbroken
    split at hbroken
    · exact absurd hbroken (not_broken_malformed _)
    · next hsupported =>
        cases o with
        | none => exact absurd hbroken (not_broken_malformed _)
        | some p =>
            have hopens : d.Opens F bs p := ⟨fs, v, hm, hv, (supported_iff v).mp hsupported, ho⟩
            exact ⟨p, hopens, (hvariant hopens).mp hbroken⟩
  · rintro ⟨p, hopens, hp⟩
    have hbroken := (hvariant hopens).mpr hp
    obtain ⟨fs, v, hm, hv, hsupported, ho⟩ := hopens
    refine ⟨(v, some p), (h.fields_eq_ok takes_envelope hsize _ _).mpr
      ⟨fs, hm, foldFields_keep.mpr ⟨hv, ho⟩⟩, ?_⟩
    rw [response, if_neg ((supported_iff v).mpr hsupported)]
    exact hbroken

end Breaks

end Dialect

end Wire

end DittoClient
