import DittoClient.Protobuf.Complete
import DittoClient.Wire.Agreement

/-!
# What the Python client decodes

The Python client reads every encoding of a response in complete fields as this response, with
the fields in any order, defaults left out or written, and unknown fields anywhere. It also
reads more: varints of eleven bytes, fixed-width fields that are cut short, and numbers of more
than 64 bits. What it takes is complete and in range just when it meets none of these.
-/

namespace DittoClient

namespace Wire

open DittoClient.Protobuf

/-- Complete fields, with varints of at most ten bytes. -/
def completeFormat : Format :=
  pythonFormat.strict 10

section Inverse

variable {F : Format} {limit : ℕ}

theorem EncodesMessage.of_strict {schema : List (ℕ × ℕ)} {slots : List Slot} {bs : List UInt8}
    (hlimit : limit ≤ F.limit) (h : EncodesMessage (F.strict limit) schema slots bs) :
    EncodesMessage F schema slots bs := by
  obtain ⟨fs, hm, hr⟩ := h
  exact ⟨fs, hm.of_strict hlimit, hr⟩

theorem Encodes.of_strict {x : ServerResponse} {bs : List UInt8} (hlimit : limit ≤ F.limit)
    (h : Encodes (F.strict limit) x bs) : Encodes F x bs := by
  obtain ⟨p, inner, opt, henvelope, ⟨before, after, hp, hunknown⟩, hinner, hvalue⟩ := h
  exact ⟨p, inner, opt, henvelope.of_strict hlimit,
    ⟨before, after, hp.of_strict hlimit, hunknown⟩, hinner.of_strict hlimit,
    fun value hsome => (hvalue value hsome).of_strict hlimit⟩

/-- An encoding of a response in complete fields is decoded to this response. -/
theorem python_decode_encodes (x : ServerResponse) (bs : List UInt8)
    (h : Encodes completeFormat x bs) : pythonDialect.decodeResponse bs = .ok x.response :=
  (Dialect.decodeResponse_encodes (python_follows _) python_plain le_rfl
    (h.of_strict (by decide)) _).mpr (python_meaning x)

/-- A watch event with an empty value, its fields and those of the envelope in another order, a
version of 0 written and an unknown field in the envelope. -/
theorem python_decode_encodes_watchEvent : pythonDialect.decodeResponse
    (List.flatMap encodeField [⟨3, .bytes (List.flatMap encodeField [⟨10, .bytes
      (List.flatMap encodeField [⟨3, .varint 0⟩, ⟨2, .bytes []⟩, ⟨1, .bytes [107]⟩])⟩])⟩,
      ⟨9, .fixed32 [1, 2, 3, 4]⟩, ⟨1, .varint 1⟩]) = .ok (.watchEvent "k" (some []) 0) := by
  have hstandard : completeFormat.Standard :=
    ⟨le_rfl, python_standard.word, python_standard.number⟩
  have hinner : EncodesMessage completeFormat (variantSchema 10)
      [textSlot 1 "k", .message 2 [], .uint 3 0]
      (List.flatMap encodeField [⟨3, .varint 0⟩, ⟨2, .bytes []⟩, ⟨1, .bytes [107]⟩]) :=
    ⟨_, hstandard.fields (by decide), .of_perm (List.forall_mem_nil _) (by decide)⟩
  have hvariant : EncodesVariant completeFormat 10
      (List.flatMap encodeField [⟨3, .varint 0⟩, ⟨2, .bytes []⟩, ⟨1, .bytes [107]⟩])
      (List.flatMap encodeField [⟨10, .bytes
        (List.flatMap encodeField [⟨3, .varint 0⟩, ⟨2, .bytes []⟩, ⟨1, .bytes [107]⟩])⟩]) :=
    ⟨[], [], hstandard.fields (by decide), List.forall_mem_nil _⟩
  refine python_decode_encodes (.watchEvent "k" (some []) 0) _ ⟨_, _, [],
    ⟨_, hstandard.fields (by decide), ?_⟩, hvariant, hinner, ?_⟩
  · have hunknown : ∀ f ∈ [(⟨9, .fixed32 [1, 2, 3, 4]⟩ : Field)], f.key ∉ envelopeSchema := by
      decide
    exact .of_perm hunknown (by decide)
  · intro value hsome
    cases hsome
    exact ⟨[], .nil, represents_written optionalSchema [.bytes 1 []]⟩

end Inverse

namespace ClientResponse

/-- A version or a count. -/
def IsUInt64 (n : ℤ) : Prop :=
  0 ≤ n ∧ n < 2 ^ 64

/-- The numbers of a response are in the ranges of their types. -/
def InRange : ClientResponse → Prop
  | .value _ _ version => IsUInt64 version
  | .ok version => IsUInt64 version
  | .watchEvent _ _ version => IsUInt64 version
  | .patternDeleted count => IsUInt64 count
  | .patternTtlUpdated count => IsUInt64 count
  | .setNx _ version => IsUInt64 version
  | .counter n version => (-2 ^ 63 ≤ n ∧ n < 2 ^ 63) ∧ IsUInt64 version
  | _ => True

end ClientResponse

/-- The fields of a variant that hold numbers of the response, and bounds on them. The value of
a counter wraps around once, so that it is in range up to a higher bound. -/
def numberBounds : ℕ → List (ℕ × ℕ)
  | 1 => [(3, 2 ^ 64)]
  | 2 => [(1, 2 ^ 64)]
  | 10 => [(3, 2 ^ 64)]
  | 11 => [(1, 2 ^ 64)]
  | 12 => [(1, 2 ^ 64)]
  | 13 => [(2, 2 ^ 64)]
  | 14 => [(1, 2 ^ 64 + 2 ^ 63), (2, 2 ^ 64)]
  | _ => []

/-- The last number in the varint fields with a number. -/
def lastNumber (k : ℕ) (fs : List Field) : Except DecodeError ℕ :=
  lastOf (varintAt k .ok) 0 fs

/-- The numbers of a variant are small enough. -/
def NumbersFit (k : ℕ) (fs : List Field) : Prop :=
  ∀ x ∈ numberBounds k, ∀ n, lastNumber x.1 fs = .ok n → n < x.2

section Numbers

variable {fs : List Field} {k : ℕ} {r : ClientResponse}

theorem lastNumber_eq_ok (k : ℕ) (fs : List Field) : ∃ n, lastNumber k fs = .ok n := by
  have hfold : ∀ (fs : List Field) (b : ℕ), ∃ n, lastOf (varintAt k .ok) b fs = .ok n := by
    intro fs
    induction fs with
    | nil => exact fun b => ⟨b, rfl⟩
    | cons f fs ih =>
        intro b
        rw [lastOf_cons, put]
        cases hf : varintAt k Except.ok f with
        | none => exact ih b
        | some x =>
            obtain ⟨l, c⟩ := f
            cases c with
            | varint n =>
                rw [varintAt] at hf
                split at hf
                · cases hf
                  exact ih n
                · cases hf
            | _ => cases hf
  exact hfold fs 0

/-- What is made of the last number. -/
theorem lastOf_varint_map (g : ℕ → ℤ) (h0 : g 0 = 0) {n : ℕ} (hn : lastNumber k fs = .ok n) :
    lastOf (varintAt k fun n => .ok (g n)) 0 fs = .ok (g n) := by
  have hfold : ∀ (fs : List Field) (b n : ℕ), lastOf (varintAt k .ok) b fs = .ok n →
      lastOf (varintAt k fun n => .ok (g n)) (g b) fs = .ok (g n) := by
    intro fs
    induction fs with
    | nil =>
        intro b n h
        cases h
        rfl
    | cons f fs ih =>
        intro b n h
        obtain ⟨l, c⟩ := f
        cases c with
        | varint m =>
            rw [lastOf_cons, put, varintAt] at h ⊢
            by_cases hl : l = k
            · rw [if_pos hl] at h ⊢
              exact ih m n h
            · rw [if_neg hl] at h ⊢
              exact ih b n h
        | _ => exact ih b n h
  have h := hfold fs 0 n hn
  rwa [h0] at h

theorem isUInt64_natCast (n : ℕ) : ClientResponse.IsUInt64 n ↔ n < 2 ^ 64 := by
  unfold ClientResponse.IsUInt64
  omega

theorem signed64_inRange (n : ℕ) :
    (-2 ^ 63 ≤ signed64 n ∧ signed64 n < 2 ^ 63) ↔ n < 2 ^ 64 + 2 ^ 63 := by
  unfold signed64
  split <;> omega

/-- A response is in range if and only if the numbers that it is made of are small enough. -/
theorem python_inRange_iff (h : pythonDialect.variantOf k fs = .ok r) :
    r.InRange ↔ NumbersFit k fs := by
  have hone : ∀ {k j n b : ℕ}, lastNumber j fs = .ok n → numberBounds k = [(j, b)] →
      (NumbersFit k fs ↔ n < b) := by
    intro k j n b hn hbounds
    rw [NumbersFit, hbounds, List.forall_mem_singleton]
    refine ⟨fun h => h n hn, fun h m hm => ?_⟩
    cases hn.symm.trans hm
    exact h
  have hnumber : ∀ {j : ℕ} {v : ℤ}, lastOf (varintAt j pythonDialect.number) 0 fs = .ok v →
      ∃ n, lastNumber j fs = .ok n ∧ v = n := by
    intro j v hv
    obtain ⟨n, hn⟩ := lastNumber_eq_ok j fs
    cases hv.symm.trans (lastOf_varint_map (fun n => (n : ℤ)) rfl hn)
    exact ⟨n, hn, rfl⟩
  have hfits : ∀ {k j : ℕ} {v : ℤ}, lastOf (varintAt j pythonDialect.number) 0 fs = .ok v →
      numberBounds k = [(j, 2 ^ 64)] → (ClientResponse.IsUInt64 v ↔ NumbersFit k fs) := by
    intro k j v hv hbounds
    obtain ⟨n, hn, rfl⟩ := hnumber hv
    rw [isUInt64_natCast, hone hn hbounds]
  unfold Dialect.variantOf at h
  split at h
  · obtain ⟨key, -, h⟩ := Rules.bind_eq_ok.mp h
    obtain ⟨value, -, h⟩ := Rules.bind_eq_ok.mp h
    obtain ⟨version, hv, h⟩ := Rules.bind_eq_ok.mp h
    cases h
    exact hfits hv rfl
  · obtain ⟨version, hv, h⟩ := Rules.bind_eq_ok.mp h
    cases h
    exact hfits hv rfl
  · obtain ⟨code, -, h⟩ := Rules.bind_eq_ok.mp h
    obtain ⟨message, -, h⟩ := Rules.bind_eq_ok.mp h
    cases h
    exact ⟨fun _ x hx => (by cases hx), fun _ => trivial⟩
  · obtain ⟨key, -, h⟩ := Rules.bind_eq_ok.mp h
    obtain ⟨value, -, h⟩ := Rules.bind_eq_ok.mp h
    obtain ⟨version, hv, h⟩ := Rules.bind_eq_ok.mp h
    cases h
    exact hfits hv rfl
  · obtain ⟨deleted, hv, h⟩ := Rules.bind_eq_ok.mp h
    cases h
    exact hfits hv rfl
  · obtain ⟨updated, hv, h⟩ := Rules.bind_eq_ok.mp h
    cases h
    exact hfits hv rfl
  · obtain ⟨created, -, h⟩ := Rules.bind_eq_ok.mp h
    obtain ⟨version, hv, h⟩ := Rules.bind_eq_ok.mp h
    cases h
    exact hfits hv rfl
  · obtain ⟨value, hvalue, h⟩ := Rules.bind_eq_ok.mp h
    obtain ⟨version, hv, h⟩ := Rules.bind_eq_ok.mp h
    cases h
    obtain ⟨m, hm⟩ := lastNumber_eq_ok 1 fs
    obtain ⟨n, hn, rfl⟩ := hnumber hv
    cases hvalue.symm.trans (lastOf_varint_map signed64 rfl hm)
    rw [ClientResponse.InRange, isUInt64_natCast, signed64_inRange, NumbersFit]
    refine ⟨fun ⟨hm', hn'⟩ => ?_, fun hfits => ⟨hfits (1, _) (by simp [numberBounds]) m hm,
      hfits (2, _) (by simp [numberBounds]) n hn⟩⟩
    refine List.forall_mem_cons.mpr ⟨fun i hi => ?_, List.forall_mem_singleton.mpr fun i hi => ?_⟩
    · cases hm.symm.trans hi
      exact hm'
    · cases hn.symm.trans hi
      exact hn'
  · cases h

theorem bareVariant_inRange (h : bareVariant k = some r) : r.InRange := by
  unfold bareVariant at h
  split at h
  · cases h; trivial
  · cases h; trivial
  · cases h; trivial
  · cases h; trivial
  · cases h; trivial
  · cases h; trivial
  · cases h

end Numbers

/-- A response that complete fields lead to, with numbers in range. -/
def CompleteInRange (bs : List UInt8) (r : ClientResponse) : Prop :=
  ∃ p k inner, pythonDialect.Opens completeFormat bs p ∧ Finds completeFormat Variant p k inner ∧
    pythonDialect.Holds completeFormat k inner r ∧ r.InRange

/-- A payload that is read as a response has no varint of more than ten bytes and no field cut
short, and its numbers are small enough. -/
def Undamaged (bs : List UInt8) : Prop :=
  ∀ p k inner r, pythonDialect.Opens pythonFormat bs p → Finds pythonFormat Variant p k inner →
    pythonDialect.Holds pythonFormat k inner r →
    ¬ Spoilt pythonFormat 10 (fun _ => True) bs ∧
      ¬ Spoilt pythonFormat 10 (Field.Unknown Variant) p ∧
      (bareVariant k = none → ¬ Spoilt pythonFormat 10 (fun _ => True) inner ∧
        ∀ fs, IsMessage pythonFormat inner fs → NumbersFit k fs)

section Complete

variable {F : Format} {limit : ℕ} {d : Dialect} {bs p p' : List UInt8}

theorem Opens.of_strict (hlimit : limit ≤ F.limit) (h : d.Opens (F.strict limit) bs p) :
    d.Opens F bs p := by
  obtain ⟨fs, v, hm, hv, hsupported, hp⟩ := h
  exact ⟨fs, v, hm.of_strict hlimit, hv, hsupported, hp⟩

/-- The payload of an envelope is unique. -/
theorem Opens.unique (h : d.Opens F bs p) (h' : d.Opens F bs p') : p = p' := by
  obtain ⟨fs, v, hm, -, -, hp⟩ := h
  obtain ⟨fs', v', hm', -, -, hp'⟩ := h'
  obtain rfl := hm.unique hm'
  cases hp.symm.trans hp'
  rfl

theorem python_quiet : pythonDialect.Quiet where
  number _ := not_broken_ok _
  index _ := not_broken_ok _
  text bs := by
    simp only [pythonDialect]
    split
    · exact not_broken_ok _
    · exact not_broken_malformed _

/-- The Python client reports every payload that it does not take. -/
theorem python_error {e : DecodeError} (h : pythonDialect.decodeResponse bs = .error e) :
    ∃ m, e = .malformed m := by
  cases e with
  | malformed m => exact ⟨m, rfl⟩
  | runtime m =>
      exact absurd ⟨m, h⟩ (python_quiet.not_broken (python_failsAt _) (python_follows _) le_rfl)

/-- The Python client takes only complete payloads with numbers in range, and reports all
others, just when the payload is undamaged. -/
theorem python_complete_iff (bs : List UInt8) :
    ((∀ r, pythonDialect.decodeResponse bs = .ok r → CompleteInRange bs r) ∧
      ∀ e, pythonDialect.decodeResponse bs = .error e → ∃ m, e = .malformed m) ↔
    Undamaged bs := by
  have hlimit : 10 ≤ pythonFormat.limit := by decide
  have hdecode : ∀ r, pythonDialect.decodeResponse bs = .ok r ↔ ∃ p k inner,
      pythonDialect.Opens pythonFormat bs p ∧ Finds pythonFormat Variant p k inner ∧
        pythonDialect.Holds pythonFormat k inner r :=
    Dialect.decodeResponse_eq_ok (python_follows bs.length) le_rfl
  constructor
  · rintro ⟨hcomplete, -⟩ p k inner r hopens hfinds hholds
    obtain ⟨p', k', inner', hopens', hfinds', hholds', hrange⟩ :=
      hcomplete r ((hdecode r).mpr ⟨p, k, inner, hopens, hfinds, hholds⟩)
    obtain rfl := Opens.unique hopens (Opens.of_strict hlimit hopens')
    obtain ⟨rfl, rfl⟩ := hfinds.unique (hfinds'.of_strict hlimit)
    obtain ⟨efs, v, hm, -⟩ := hopens'
    refine ⟨hm.not_meets hlimit, hfinds'.not_meets hlimit, fun hbare => ?_⟩
    rcases hholds' with hsome | ⟨fs, hfs, hvariant⟩
    · rw [hbare] at hsome
      cases hsome
    · refine ⟨hfs.not_meets hlimit, fun fs' hfs' => ?_⟩
      obtain rfl := (hfs.of_strict hlimit).unique hfs'
      exact (python_inRange_iff hvariant).mp hrange
  · intro h
    refine ⟨fun r hr => ?_, fun e he => python_error he⟩
    obtain ⟨p, k, inner, hopens, hfinds, hholds⟩ := (hdecode r).mp hr
    obtain ⟨henvelope, hpayload, hinner⟩ := h p k inner r hopens hfinds hholds
    have hfinds' := (hfinds.strict_iff hlimit).mpr hpayload
    obtain ⟨efs, v, hm, hv, hsupported, hp⟩ := hopens
    have hopens' : pythonDialect.Opens completeFormat bs p :=
      ⟨efs, v, (hm.strict_iff hlimit).mpr henvelope, hv, hsupported, hp⟩
    cases hbare : bareVariant k with
    | some r₀ =>
        rcases hholds with hsome | ⟨fs, -, hvariant⟩
        · exact ⟨p, k, inner, hopens', hfinds', Or.inl hsome, bareVariant_inRange hsome⟩
        · rw [Dialect.variantOf_bare hbare] at hvariant
          cases hvariant
    | none =>
        obtain ⟨hwhole, hnumbers⟩ := hinner hbare
        rcases hholds with hsome | ⟨fs, hfs, hvariant⟩
        · rw [hbare] at hsome
          cases hsome
        · have hrange := (python_inRange_iff hvariant).mpr (hnumbers fs hfs)
          exact ⟨p, k, inner, hopens', hfinds',
            Or.inr ⟨fs, (hfs.strict_iff hlimit).mpr hwhole, hvariant⟩, hrange⟩

/-- A `Pong` with a tag of a fixed-width field behind it, whose four bytes are missing. -/
theorem python_takes_cut_field :
    pythonDialect.decodeResponse [0x08, 0x01, 0x1A, 0x02, 0x2A, 0x00, 0x25] = .ok .pong ∧
      ¬ CompleteInRange [0x08, 0x01, 0x1A, 0x02, 0x2A, 0x00, 0x25] .pong := by
  have hversion : IsField pythonFormat (encodeField ⟨1, .varint 1⟩) ⟨1, .varint 1⟩ :=
    python_standard.field (by decide)
  have hresponse : IsField pythonFormat (encodeField ⟨3, .bytes [0x2A, 0x00]⟩)
      ⟨3, .bytes [0x2A, 0x00]⟩ := python_standard.field (by decide)
  have htag : pythonFormat.Tag (encodeTag 4 5) 4 5 := python_standard.tag (by decide) (by decide)
  have hcut : Damaged pythonFormat 10 (encodeTag 4 5 ++ []) := .cut htag rfl (by decide)
  have hspoilt : Spoilt pythonFormat 10 (fun _ => True) (encodeField ⟨1, .varint 1⟩ ++
      (encodeField ⟨3, .bytes [0x2A, 0x00]⟩ ++ (encodeTag 4 5 ++ []))) :=
    .later hversion trivial (.later hresponse trivial (.here hcut))
  refine ⟨by rfl, ?_⟩
  rintro ⟨p, k, inner, ⟨fs, v, hm, -⟩, -⟩
  exact hm.not_meets (by decide) hspoilt

end Complete

end Wire

end DittoClient
