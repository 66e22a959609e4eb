import DittoClient.Protobuf.Calls
import DittoClient.Protobuf.Renumber
import DittoClient.Wire.PythonDecoding

/-!
# The Rust decoder against a reference

The reference reads varints of at most ten bytes modulo `2 ^ 64` and field numbers of any size.
The Rust decoder keeps 32 bits of a tag, so that a field with a large number may be taken for
one that it looks for; without overflow checks it reads varints of eleven bytes as well, and
with them it panics there. Otherwise it returns what the reference does.
-/

namespace DittoClient

namespace Wire

open DittoClient.Protobuf
open DittoClient.Protobuf.Rules

/-- The numbers in a message, as the specification of the format has them. -/
def referenceFormat : Format where
  limit := 10
  word n := n % 2 ^ 64
  number t := some (t / 8)
  cut := false

/-- The reference decoder: it makes the same of numbers and texts as the Rust decoder. -/
def referenceDialect : Dialect :=
  { rustDialect true with
    accumulate := fun result shift bits =>
      if shift < 70 then .ok (result ||| (bits <<< shift) % 2 ^ 64)
      else .error (.malformed "varint too long")
    splitTag := fun t => .ok (t / 8, t % 8)
    fieldLength := checkedLength }

/-- The response that the reference assigns to a payload. -/
def Reference (bs : List UInt8) (r : ClientResponse) : Prop :=
  ∃ p k inner, referenceDialect.Opens referenceFormat bs p ∧
    Finds referenceFormat Variant p k inner ∧ referenceDialect.Holds referenceFormat k inner r

/-- The number that is left of a field number. -/
def narrow (n : ℕ) : ℕ :=
  n % 2 ^ 29

/-- The end of a field does not fit in a `usize`. -/
def RustFar (off n : ℕ) : Prop :=
  2 ^ 64 ≤ off + n

/-- The Rust decoder does not panic, and what it returns is what the reference assigns. -/
def RustSound (overflowChecks : Bool) (bs : List UInt8) : Prop :=
  ¬ Broken ((rustDialect overflowChecks).decodeResponse bs) ∧
    ∀ r, (rustDialect overflowChecks).decodeResponse bs = .ok r → Reference bs r

/-- No complete fields lead to a panic: an eleventh byte of a varint under overflow checks, or a
length-delimited field that ends beyond the address space. -/
def RustFaultless (overflowChecks : Bool) (bs : List UInt8) : Prop :=
  ¬ PayloadFaults (rustDialect overflowChecks) (rustFormat overflowChecks)
    (fun bs => overflowChecks = true ∧ Overlong bs) RustFar bs

/-- The levels of a payload that is read as a response: the envelope, its payload and the
message of the variant. -/
structure RustLevels (overflowChecks : Bool) (bs p : List UInt8) (k : ℕ) (inner : List UInt8) :
    Prop where
  opens : (rustDialect overflowChecks).Opens (rustFormat overflowChecks) bs p
  finds : Finds (rustFormat overflowChecks) Variant p k inner
  holds : ∃ r, (rustDialect overflowChecks).Holds (rustFormat overflowChecks) k inner r

/-- The value of a watch event. -/
def WatchedValue (overflowChecks : Bool) (k : ℕ) (inner opt : List UInt8) : Prop :=
  k = 10 ∧ ∃ fs, IsMessage (rustFormat overflowChecks) inner fs ∧ ⟨2, .bytes opt⟩ ∈ fs

/-- A payload that is read as a response has no varint of more than ten bytes. -/
def RustShort (overflowChecks : Bool) (bs : List UInt8) : Prop :=
  ∀ p k inner, RustLevels overflowChecks bs p k inner →
    ¬ Spoilt (rustFormat overflowChecks) 10 (fun _ => True) bs ∧
      ¬ Spoilt (rustFormat overflowChecks) 10 (Field.Unknown Variant) p ∧
      (bareVariant k = none → ¬ Spoilt (rustFormat overflowChecks) 10 (fun _ => True) inner ∧
        ∀ opt, WatchedValue overflowChecks k inner opt →
          ¬ Spoilt (rustFormat overflowChecks) 10 (fun _ => True) opt)

/-- A payload that is read as a response has no field that is taken for another one which the
decoder looks for. -/
def RustUnaliased (overflowChecks : Bool) (bs : List UInt8) : Prop :=
  ∀ p k inner, RustLevels overflowChecks bs p k inner →
    Unaliased referenceFormat narrow envelopeSchema bs ∧
      LeadsUnaliased referenceFormat narrow Variant p ∧
      (bareVariant k = none → Unaliased referenceFormat narrow (variantSchema k) inner ∧
        ∀ opt, WatchedValue overflowChecks k inner opt →
          Unaliased referenceFormat narrow optionalSchema opt)

section Follows

theorem reference_follows (size : ℕ) : referenceDialect.Follows referenceFormat size where
  limit := by decide
  word := word_of_ten (φ := fun n => n % 2 ^ 64) (fun x y => Nat.or_mod_two_pow)
    (fun result k bits hk _ => if_pos (show 7 * k < 70 by omega)) fun _ _ => ⟨_, rfl⟩
  tag t k w := by simp [referenceDialect, referenceFormat, eq_comm]
  length := fun s off n len _ => checkedLength_eq_ok s off n len
  cut := rfl

/-- The reference decoder returns what the reference assigns. -/
theorem reference_iff (bs : List UInt8) (r : ClientResponse) :
    referenceDialect.decodeResponse bs = .ok r ↔ Reference bs r :=
  Dialect.decodeResponse_eq_ok (reference_follows bs.length) le_rfl r

theorem wrapped_of_short {bs : List UInt8} {m : ℕ} (h : IsVarint bs m) (hlen : bs.length ≤ 10) :
    wrapped m = m % 2 ^ 64 := by
  have hlt : m < 2 ^ 70 := h.lt.trans_le <|
    (Nat.pow_le_pow_right (by norm_num) hlen).trans (by decide)
  have hhigh : m >>> 70 = 0 := by
    rw [Nat.shiftRight_eq_div_pow]
    exact Nat.div_eq_of_lt hlt
  rw [wrapped, hhigh, Nat.zero_shiftLeft, Nat.or_zero]

theorem rust_limit (overflowChecks : Bool) : 10 ≤ (rustFormat overflowChecks).limit := by
  cases overflowChecks <;> decide

/-- Up to ten bytes the Rust reader takes varints as the reference does. -/
theorem rust_renumbers (overflowChecks : Bool) :
    referenceFormat.Renumbers ((rustFormat overflowChecks).strict 10) narrow where
  varint bs n := by
    refine exists_congr fun m => and_congr_right fun hm => and_congr_right fun hlen => ?_
    cases overflowChecks with
    | true => exact Iff.rfl
    | false =>
        change n = wrapped m ↔ n = m % 2 ^ 64
        rw [wrapped_of_short hm hlen]
  number t := by
    refine congrArg some ?_
    unfold narrow
    omega
  whole := ⟨rfl, rfl⟩

theorem rust_total (overflowChecks : Bool) : (rustDialect overflowChecks).Total :=
  ⟨fun n => ⟨n, rfl⟩, fun n => ⟨n, rfl⟩, fun bs => ⟨Octets.utf8Lossy bs, rfl⟩⟩

end Follows

section Schemas

theorem narrow_envelopeSchema : ∀ key ∈ envelopeSchema, narrow key.1 = key.1 := by
  decide

theorem narrow_optionalSchema : ∀ key ∈ optionalSchema, narrow key.1 = key.1 := by
  decide

theorem narrow_variantSchema (k : ℕ) : ∀ key ∈ variantSchema k, narrow key.1 = key.1 := by
  unfold variantSchema
  split <;> decide

theorem narrow_variant (k : ℕ) (hk : Variant k) : narrow k = k :=
  Nat.mod_eq_of_lt (hk.2.trans_lt (by decide))

end Schemas

section Levels

variable {overflowChecks : Bool} {bs p inner opt : List UInt8} {k : ℕ} {gs : List Field}
  {r : ClientResponse}

/-- An envelope without aliases opens to the same payload. -/
theorem opens_iff (h : Unaliased referenceFormat narrow envelopeSchema bs) :
    (rustDialect overflowChecks).Opens ((rustFormat overflowChecks).strict 10) bs p ↔
      referenceDialect.Opens referenceFormat bs p := by
  have hversion : ∀ {gs : List Field}, IsMessage referenceFormat bs gs →
      lastOf (varintAt 1 referenceDialect.number) 0 (gs.map (Field.renumber narrow)) =
        lastOf (varintAt 1 referenceDialect.number) 0 gs := fun hm =>
    lastOf_renumber (show ((1, 0) : ℕ × ℕ) ∈ envelopeSchema by decide)
      (fun _ => varintAt_of_key_ne) narrow_envelopeSchema (h _ hm)
  have hpayload : ∀ {gs : List Field}, IsMessage referenceFormat bs gs →
      lastOf (bytesAt 3 fun bs => .ok (some bs)) none (gs.map (Field.renumber narrow)) =
        lastOf (bytesAt 3 fun bs => .ok (some bs)) none gs := fun hm =>
    lastOf_renumber (show ((3, 2) : ℕ × ℕ) ∈ envelopeSchema by decide)
      (fun _ => bytesAt_of_key_ne) narrow_envelopeSchema (h _ hm)
  constructor
  · rintro ⟨fs, v, hm, hv, hsupported, hp⟩
    obtain ⟨gs, hgs, rfl⟩ := (rust_renumbers overflowChecks).message.mp hm
    exact ⟨gs, v, hgs, (hversion hgs).symm.trans hv, hsupported, (hpayload hgs).symm.trans hp⟩
  · rintro ⟨gs, v, hgs, hv, hsupported, hp⟩
    exact ⟨_, v, (rust_renumbers overflowChecks).message.mpr ⟨gs, hgs, rfl⟩,
      (hversion hgs).trans hv, hsupported, (hpayload hgs).trans hp⟩

/-- A value without long varints and aliases is read the same. -/
theorem decodeOptionalBytes_reference (hlen : opt.length < 2 ^ 64)
    (hshort : ¬ Spoilt (rustFormat overflowChecks) 10 (fun _ => True) opt)
    (halias : Unaliased referenceFormat narrow optionalSchema opt) {v : List UInt8}
    (h : (rustDialect overflowChecks).decodeOptionalBytes opt = .ok v) :
    referenceDialect.decodeOptionalBytes opt = .ok v := by
  obtain ⟨fs, hm, hfold⟩ :=
    (Dialect.fields_optionalBytes (rust_follows overflowChecks) (by omega) v).mp h
  obtain ⟨gs, hgs, rfl⟩ := (rust_renumbers overflowChecks).message.mp
    ((hm.strict_iff (rust_limit overflowChecks)).mpr hshort)
  refine (Dialect.fields_optionalBytes (reference_follows opt.length) le_rfl v).mpr ⟨gs, hgs, ?_⟩
  exact (lastOf_renumber (show ((1, 2) : ℕ × ℕ) ∈ optionalSchema by decide)
    (fun _ => bytesAt_of_key_ne) narrow_optionalSchema (halias gs hgs)).symm.trans hfold

/-- The fields of a variant without aliases make up the same response; the value of a watch
event has to be read the same. -/
theorem variantOf_reference (halias : ∀ g ∈ gs, ¬ g.Aliased narrow fun f => f.key ∈ variantSchema k)
    (hopt : k = 10 → ∀ opt, ⟨2, .bytes opt⟩ ∈ gs → ∀ v,
      (rustDialect overflowChecks).decodeOptionalBytes opt = .ok v →
        referenceDialect.decodeOptionalBytes opt = .ok v)
    (h : (rustDialect overflowChecks).variantOf k (gs.map (Field.renumber narrow)) = .ok r) :
    referenceDialect.variantOf k gs = .ok r := by
  have hnumber : ∀ {β : Type} {l : ℕ} {read : ℕ → Except DecodeError β} {b : β},
      (l, 0) ∈ variantSchema k → lastOf (varintAt l read) b (gs.map (Field.renumber narrow)) =
        lastOf (varintAt l read) b gs := fun hkey =>
    lastOf_renumber hkey (fun _ => varintAt_of_key_ne) (narrow_variantSchema k) halias
  have hbytes : ∀ {β : Type} {l : ℕ} {read : List UInt8 → Except DecodeError β} {b : β},
      (l, 2) ∈ variantSchema k → lastOf (bytesAt l read) b (gs.map (Field.renumber narrow)) =
        lastOf (bytesAt l read) b gs := fun hkey =>
    lastOf_renumber hkey (fun _ => bytesAt_of_key_ne) (narrow_variantSchema k) halias
  match k with
  | 1 =>
      simp only [Dialect.variantOf] at h ⊢
      rwa [hbytes (by decide), hbytes (by decide), hnumber (by decide)] at h
  | 2 =>
      simp only [Dialect.variantOf] at h ⊢
      rwa [hnumber (by decide)] at h
  | 7 =>
      simp only [Dialect.variantOf] at h ⊢
      rwa [hnumber (by decide), hbytes (by decide)] at h
  | 10 =>
      simp only [Dialect.variantOf] at h ⊢
      rw [hbytes (by decide), hbytes (by decide), hnumber (by decide)] at h
      obtain ⟨key, hkey, h⟩ := bind_eq_ok.mp h
      obtain ⟨value, hvalue, h⟩ := bind_eq_ok.mp h
      refine bind_eq_ok.mpr ⟨key, hkey, bind_eq_ok.mpr ⟨value, ?_, h⟩⟩
      refine lastOf_bytesAt_imp (fun opt hmem x hx => ?_) hvalue
      cases hread : (rustDialect overflowChecks).decodeOptionalBytes opt with
      | error e =>
          rw [hread] at hx
          cases hx
      | ok v =>
          rw [hread] at hx
          rw [hopt rfl opt hmem v hread]
          exact hx
  | 11 =>
      simp only [Dialect.variantOf] at h ⊢
      rwa [hnumber (by decide)] at h
  | 12 =>
      simp only [Dialect.variantOf] at h ⊢
      rwa [hnumber (by decide)] at h
  | 13 =>
      simp only [Dialect.variantOf] at h ⊢
      rwa [hnumber (by decide), hnumber (by decide)] at h
  | 14 =>
      simp only [Dialect.variantOf] at h ⊢
      rwa [hnumber (by decide), hnumber (by decide)] at h
  | 0 => cases h
  | 3 => cases h
  | 4 => cases h
  | 5 => cases h
  | 6 => cases h
  | 8 => cases h
  | 9 => cases h
  | k + 15 => cases h

/-- A field that is a value of a watch event for the reference is one for the decoder. -/
theorem watchedValue_of_mem
    (hm : IsMessage ((rustFormat overflowChecks).strict 10) inner (gs.map (Field.renumber narrow)))
    (hopt : ⟨2, .bytes opt⟩ ∈ gs) : WatchedValue overflowChecks 10 inner opt :=
  ⟨rfl, _, hm.of_strict (rust_limit overflowChecks), List.mem_map_of_mem hopt⟩

/-- What is read without long varints and aliases is what the reference assigns. -/
theorem reference_of_short (hlen : bs.length < 2 ^ 63) (hshort : RustShort overflowChecks bs)
    (halias : RustUnaliased overflowChecks bs)
    (h : (rustDialect overflowChecks).decodeResponse bs = .ok r) : Reference bs r := by
  have hlimit := rust_limit overflowChecks
  obtain ⟨p, k, inner, hopens, hfinds, hholds⟩ :=
    (Dialect.decodeResponse_eq_ok (rust_follows overflowChecks) (by omega) r).mp h
  have hlevels : RustLevels overflowChecks bs p k inner := ⟨hopens, hfinds, r, hholds⟩
  obtain ⟨hbs, hp, hvariant⟩ := hshort p k inner hlevels
  obtain ⟨habs, hap, havariant⟩ := halias p k inner hlevels
  have hinner : inner.length < 2 ^ 64 :=
    ((hfinds.length_le.trans hopens.length_le).trans_lt hlen).trans (by decide)
  have hopens' : referenceDialect.Opens referenceFormat bs p := by
    obtain ⟨fs, v, hm, hv, hsupported, hpayload⟩ := hopens
    exact (opens_iff habs).mp ⟨fs, v, (hm.strict_iff hlimit).mpr hbs, hv, hsupported, hpayload⟩
  have hfinds' : Finds referenceFormat Variant p k inner :=
    ((rust_renumbers overflowChecks).finds narrow_variant hap).mp ((hfinds.strict_iff hlimit).mpr hp)
  refine ⟨p, k, inner, hopens', hfinds', ?_⟩
  rcases hholds with hbare | ⟨fs, hm, hr⟩
  · exact Or.inl hbare
  · have hnone : bareVariant k = none := by
      cases hbare : bareVariant k with
      | none => rfl
      | some r₀ =>
          rw [Dialect.variantOf_bare hbare] at hr
          cases hr
    obtain ⟨hwhole, hvalues⟩ := hvariant hnone
    obtain ⟨hawhole, havalues⟩ := havariant hnone
    have hstrict := (hm.strict_iff hlimit).mpr hwhole
    obtain ⟨gs, hgs, rfl⟩ := (rust_renumbers overflowChecks).message.mp hstrict
    refine Or.inr ⟨gs, hgs, variantOf_reference (hawhole gs hgs) ?_ hr⟩
    rintro rfl opt hopt v hv
    have hwatched := watchedValue_of_mem hstrict hopt
    have hoptlen : opt.length < 2 ^ 64 := (hgs.length_le hopt).trans_lt hinner
    exact decodeOptionalBytes_reference hoptlen (hvalues opt hwatched) (havalues opt hwatched) hv

/-- A message of the reference has no long varints. -/
theorem not_spoilt_of_reference {fs : List Field} (h : IsMessage referenceFormat bs fs) :
    ¬ Spoilt (rustFormat overflowChecks) 10 (fun _ => True) bs :=
  ((rust_renumbers overflowChecks).message.mpr ⟨fs, h, rfl⟩).not_meets (rust_limit overflowChecks)

/-- The values that the reference reads have no long varints. -/
theorem not_spoilt_value (halias : Unaliased referenceFormat narrow (variantSchema 10) inner)
    (hgs : IsMessage referenceFormat inner gs) (hr : referenceDialect.variantOf 10 gs = .ok r)
    (hopt : WatchedValue overflowChecks 10 inner opt) :
    ¬ Spoilt (rustFormat overflowChecks) 10 (fun _ => True) opt := by
  obtain ⟨-, fs, hm, hmem⟩ := hopt
  have hstrict := (rust_renumbers overflowChecks).message.mpr ⟨gs, hgs, rfl⟩
  obtain rfl := (hstrict.of_strict (rust_limit overflowChecks)).unique hm
  obtain ⟨g, hg, heq⟩ := List.mem_map.mp hmem
  have hsought : (g.renumber narrow).key ∈ variantSchema 10 := by
    rw [heq]
    change ((2, 2) : ℕ × ℕ) ∈ variantSchema 10
    decide
  have hnum : narrow g.number = g.number := by
    by_contra hne
    exact halias gs hgs g hg ⟨hne, hsought⟩
  rw [Field.renumber_eq_self hnum] at heq
  subst heq
  obtain ⟨key, -, hr⟩ := bind_eq_ok.mp hr
  obtain ⟨value, hvalue, -⟩ := bind_eq_ok.mp hr
  have hget : bytesAt 2 (fun bs => (referenceDialect.decodeOptionalBytes bs).map some)
      ⟨2, .bytes opt⟩ = some ((referenceDialect.decodeOptionalBytes opt).map some) := rfl
  obtain ⟨x, hx⟩ := lastOf_reads hvalue hg hget
  cases hread : referenceDialect.decodeOptionalBytes opt with
  | error e =>
      rw [hread] at hx
      cases hx
  | ok v =>
      obtain ⟨ofs, hofs, -⟩ :=
        (Dialect.fields_optionalBytes (reference_follows opt.length) le_rfl v).mp hread
      exact not_spoilt_of_reference hofs

/-- Where nothing is aliased, what is read as the reference does has no long varints. -/
theorem short_of_sound (hlen : bs.length < 2 ^ 63) (halias : RustUnaliased overflowChecks bs)
    (hsound : RustSound overflowChecks bs) : RustShort overflowChecks bs := by
  have hlimit := rust_limit overflowChecks
  rintro p k inner ⟨hopens, hfinds, r, hholds⟩
  obtain ⟨habs, hap, havariant⟩ := halias p k inner ⟨hopens, hfinds, r, hholds⟩
  have hdecode := (Dialect.decodeResponse_eq_ok (rust_follows overflowChecks) (by omega) r).mpr
    ⟨p, k, inner, hopens, hfinds, hholds⟩
  obtain ⟨p', k', inner', hopens', hfinds', hholds'⟩ := hsound.2 r hdecode
  have hbs : ¬ Spoilt (rustFormat overflowChecks) 10 (fun _ => True) bs := by
    obtain ⟨gs, v, hgs, -⟩ := hopens'
    exact not_spoilt_of_reference hgs
  obtain rfl := Opens.unique hopens (Opens.of_strict hlimit ((opens_iff habs).mpr hopens'))
  have hstrict := ((rust_renumbers overflowChecks).finds narrow_variant hap).mpr hfinds'
  obtain ⟨rfl, rfl⟩ := hfinds.unique (hstrict.of_strict hlimit)
  refine ⟨hbs, hstrict.not_meets hlimit, fun hnone => ?_⟩
  rcases hholds' with hbare | ⟨gs, hgs, hr⟩
  · rw [hnone] at hbare
    cases hbare
  · refine ⟨not_spoilt_of_reference hgs, fun opt hopt => ?_⟩
    obtain rfl := hopt.1
    exact not_spoilt_value (havariant hnone).1 hgs hr hopt

end Levels

theorem rust_not_broken_iff (overflowChecks : Bool) {bs : List UInt8} (hlen : bs.length < 2 ^ 63) :
    ¬ Broken ((rustDialect overflowChecks).decodeResponse bs) ↔ RustFaultless overflowChecks bs :=
  not_congr ((rust_total overflowChecks).decodeResponse_faults (rust_failsAt overflowChecks _)
    (rust_follows overflowChecks) (by omega))

/-- The Rust decoder is sound where nothing leads to a panic, varints are short and no field is
taken for another one. The first of these is necessary, and so is the second where the third
holds. The loops come to an end: with more fuel than there are bytes they return the same. -/
theorem rust_decoder_sound (overflowChecks : Bool) (bs : List UInt8) (hlen : bs.length < 2 ^ 63) :
    (RustFaultless overflowChecks bs → RustShort overflowChecks bs →
      RustUnaliased overflowChecks bs → RustSound overflowChecks bs) ∧
    (RustSound overflowChecks bs → RustFaultless overflowChecks bs ∧
      (RustUnaliased overflowChecks bs → RustShort overflowChecks bs)) ∧
    ∀ fuel, bs.length ≤ fuel →
      (∀ (α : Type) (handle : ℕ × ℕ → Reader → α → Option (Except DecodeError (α × Reader)))
        (take : Field → α → Except DecodeError α) (a : α),
        (rustDialect overflowChecks).Takes handle take →
        (rustDialect overflowChecks).fieldsLoop handle fuel ⟨bs, 0⟩ a =
          (rustDialect overflowChecks).fields handle bs a) ∧
      (rustDialect overflowChecks).oneofLoop (rustDialect overflowChecks).decodeVariant
          (rustDialect overflowChecks).absent fuel ⟨bs, 0⟩ =
        (rustDialect overflowChecks).oneof (rustDialect overflowChecks).decodeVariant
          (rustDialect overflowChecks).absent bs := by
  have hsize : bs.length ≤ 2 ^ 64 - 1 := by omega
  refine ⟨fun hfaultless hshort halias => ⟨?_, fun r => ?_⟩, fun hsound => ⟨?_, fun halias => ?_⟩,
    fun fuel hfuel => ⟨fun α handle take a ht => ?_, ?_⟩⟩
  · exact (rust_not_broken_iff overflowChecks hlen).mpr hfaultless
  · exact reference_of_short hlen hshort halias
  · exact (rust_not_broken_iff overflowChecks hlen).mp hsound.1
  · exact short_of_sound hlen halias hsound
  · exact (rust_follows overflowChecks).fieldsLoop_fuel ht hsize hfuel le_rfl a
  · exact (rust_follows overflowChecks).oneofLoop_fuel hsize hfuel le_rfl

theorem reference_standard : referenceFormat.Standard where
  limit := by decide
  word n hn := Nat.mod_eq_of_lt hn
  number k w _ hw := congrArg some (by omega)

/-- A payload with a `Pong` meets all three. -/
theorem rust_decoder_sound_pong : RustSound true [0x1A, 0x02, 0x2A, 0x00] := by
  have hlimit := rust_limit true
  have henvelope : IsMessage referenceFormat [0x1A, 0x02, 0x2A, 0x00] [⟨3, .bytes [0x2A, 0x00]⟩] :=
    .single (reference_standard.field (f := ⟨3, .bytes [0x2A, 0x00]⟩) (by decide))
  have hpong : IsField referenceFormat [0x2A, 0x00] ⟨5, .bytes []⟩ :=
    reference_standard.field (f := ⟨5, .bytes []⟩) (by decide)
  have halias : Unaliased referenceFormat narrow envelopeSchema [0x1A, 0x02, 0x2A, 0x00] := by
    intro gs hgs g hg haliased
    obtain rfl := henvelope.unique hgs
    rw [List.mem_singleton] at hg
    subst hg
    exact haliased.1 rfl
  have hleads : LeadsUnaliased referenceFormat narrow Variant [0x2A, 0x00] := by
    intro hmeets
    generalize hbs : ([0x2A, 0x00] : List UInt8) = bs at hmeets
    cases hmeets with
    | here hfront =>
        obtain ⟨xs, ys, g, hg, rfl, haliased⟩ := hfront
        obtain ⟨-, rfl, -⟩ := hpong.append_inj hg ((List.append_nil _).trans hbs)
        exact haliased.1 rfl
    | later hg hskip _ =>
        obtain ⟨-, rfl, -⟩ := hpong.append_inj hg ((List.append_nil _).trans hbs)
        exact hskip 5 [] rfl (by decide)
  have hfinds : Finds ((rustFormat true).strict 10) Variant [0x2A, 0x00] 5 [] :=
    ((rust_renumbers true).finds narrow_variant hleads).mpr
      (show Finds referenceFormat Variant ([0x2A, 0x00] ++ []) 5 [] from .here hpong (by decide))
  have hlevels : ∀ p k inner, RustLevels true [0x1A, 0x02, 0x2A, 0x00] p k inner →
      p = [0x2A, 0x00] ∧ k = 5 := by
    rintro p k inner ⟨hopens, hf, -⟩
    have hown : (rustDialect true).Opens (rustFormat true) [0x1A, 0x02, 0x2A, 0x00] [0x2A, 0x00] :=
      Opens.of_strict hlimit ((opens_iff halias).mpr ⟨_, 0, henvelope, rfl, Or.inl rfl, rfl⟩)
    obtain rfl := Opens.unique hown hopens
    exact ⟨rfl, (hf.unique (hfinds.of_strict hlimit)).1⟩
  refine (rust_decoder_sound true [0x1A, 0x02, 0x2A, 0x00] (by decide)).1 ?_ ?_ ?_
  · refine (rust_not_broken_iff true (by decide)).mp ?_
    rintro ⟨m, hm⟩
    cases hm
  · intro p k inner h
    obtain ⟨rfl, rfl⟩ := hlevels p k inner h
    exact ⟨not_spoilt_of_reference henvelope, hfinds.not_meets hlimit, fun hnone => (by cases hnone)⟩
  · intro p k inner h
    obtain ⟨rfl, rfl⟩ := hlevels p k inner h
    exact ⟨halias, hleads, fun hnone => (by cases hnone)⟩

/-- A length of 2⁶⁴ - 1 makes the decoder panic; without overflow checks a version of eleven bytes
is read, which the reference refuses; and a field with the number 2²⁹ + 1 is taken for the
version. -/
theorem rust_decoder_unsound :
    (∀ overflowChecks, Broken ((rustDialect overflowChecks).decodeResponse
      [0x1A, 0xFF, 0xFF, 0xFF, 0xFF, 0xFF, 0xFF, 0xFF, 0xFF, 0xFF, 0x01])) ∧
    ¬ RustSound false [0x1A, 0x0E, 0x12, 0x0C, 0x08,
      0x80, 0x80, 0x80, 0x80, 0x80, 0x80, 0x80, 0x80, 0x80, 0x80, 0x01] ∧
    ∀ overflowChecks, ¬ RustSound overflowChecks
      [0x1A, 0x08, 0x12, 0x06, 0x88, 0x80, 0x80, 0x80, 0x10, 0x05] := by
  refine ⟨fun overflowChecks => ⟨"slice index out of range", ?_⟩, fun h => ?_,
    fun overflowChecks h => ?_⟩
  · cases overflowChecks <;> rfl
  · have href := (reference_iff _ _).mpr (h.2 (.ok 64) rfl)
    cases href
  · have hok : (rustDialect overflowChecks).decodeResponse
        [0x1A, 0x08, 0x12, 0x06, 0x88, 0x80, 0x80, 0x80, 0x10, 0x05] = .ok (.ok 5) := by
      cases overflowChecks <;> rfl
    have href := (reference_iff _ _).mpr (h.2 (.ok 5) hok)
    cases href

end Wire

end DittoClient
