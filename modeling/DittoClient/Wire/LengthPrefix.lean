import DittoClient.Wire.Numbers

/-!
# The length prefix of Go and Rust

Go and Rust cut the length of an envelope to 32 bits. The prefix of a frame is the number of
bytes behind it if and only if the envelope is shorter than 2^32 bytes, and their encoders do not
fail for a longer one. Since the length of an envelope is computed with 64-bit varints of the
lengths in it, which are exact only below 2^64, a crude bound (`Spans`) takes care of what is
longer.
-/

namespace DittoClient

namespace Wire

open DittoClient.Octets
open DittoClient.Protobuf
open DittoClient.Text

/-- The first four bytes of a frame, as a big-endian number, are the number of bytes that follow
them. -/
def PrefixExact (frame : List UInt8) : Prop :=
  4 ≤ frame.length ∧ ofBigEndian (frame.take 4) = (frame.drop 4).length

theorem take_framed (bs : List UInt8) : (framed bs).take 4 = bigEndian 4 bs.length :=
  List.take_left' (length_bigEndian 4 _)

theorem drop_framed (bs : List UInt8) : (framed bs).drop 4 = bs :=
  List.drop_left' (length_bigEndian 4 _)

theorem ofBigEndian_take_framed (bs : List UInt8) :
    ofBigEndian ((framed bs).take 4) = bs.length % 2 ^ 32 := by
  rw [take_framed, ofBigEndian_bigEndian]
  rfl

theorem prefixExact_framed_iff (bs : List UInt8) :
    PrefixExact (framed bs) ↔ bs.length < 2 ^ 32 := by
  have hlen : 4 ≤ (framed bs).length := by
    rw [framed, List.length_append, length_bigEndian]
    exact Nat.le_add_right 4 _
  rw [PrefixExact, and_iff_right hlen, ofBigEndian_take_framed, drop_framed]
  omega

/-- Bytes are written, and `n` is at most `c` times as many. -/
def Spans (c n : ℕ) (w : Written) : Prop :=
  ∃ bs, w = .ok bs ∧ n ≤ c * bs.length

section Spans

variable {c d m n k : ℕ} {w : Written} {ws : List Written} {payload : List UInt8}

theorem spans_nil : Spans c 0 (.ok []) :=
  ⟨[], rfl, Nat.zero_le _⟩

theorem Spans.mono (h : Spans c n w) (hc : c ≤ d) : Spans d n w := by
  obtain ⟨bs, hbs, hle⟩ := h
  exact ⟨bs, hbs, hle.trans (Nat.mul_le_mul_right _ hc)⟩

theorem Spans.join_cons (h : Spans c m w) (h' : Spans c n (join ws)) :
    Spans c (m + n) (join (w :: ws)) := by
  obtain ⟨bs, rfl, hbs⟩ := h
  obtain ⟨cs, hcs, hle⟩ := h'
  refine ⟨bs ++ cs, ?_, ?_⟩
  · rw [join, hcs]
    rfl
  · rw [List.length_append, Nat.mul_add]
    exact Nat.add_le_add hbs hle

theorem Spans.join_one (h : Spans c n w) : Spans c n (join [w]) := by
  have hnil : Spans c 0 (join []) := spans_nil
  exact h.join_cons hnil

theorem Spans.bind {f : List UInt8 → Written} (h : Spans c m w)
    (hf : ∀ bs, m ≤ c * bs.length → Spans d n (f bs)) : Spans d n (w >>= f) := by
  obtain ⟨bs, rfl, hbs⟩ := h
  exact hf bs hbs

theorem Writes.spans {bound : ℕ} {slots : List Slot} (h : Writes bound w slots)
    (hlt : (encodeMessage slots).length < bound) : Spans 1 (encodeMessage slots).length w :=
  ⟨_, h hlt, (Nat.one_mul _).ge⟩

theorem fieldSize_le (m : ℕ) : fieldSize m ≤ 2 + 2 * m := by
  have hlog := Nat.log_le_self 128 m
  unfold fieldSize varintSize
  omega

end Spans

/-- An encoder that does not fail, since it takes numbers by their low 64 bits and the length by
its low 32 bits. -/
structure RequestEncoder.Wrapping (e : RequestEncoder) : Prop where
  exact : e.Exact (2 ^ 64)
  varint : ∀ v, Spans 1 1 (e.varint v)
  lengthPrefix : ∀ len, e.lengthPrefix len = .ok (bigEndian 4 len)

namespace RequestEncoder.Wrapping

variable {e : RequestEncoder} {c m k : ℕ} {payload : List UInt8} {r : Request}

/-- A length-delimited field with what is written of a content of `m` bytes. -/
theorem ldFieldAlways (he : e.Wrapping) (hc : 1 ≤ c) (hm : m ≤ c * payload.length) :
    Spans (2 * c) (fieldSize m) (e.ldFieldAlways k payload) := by
  have hpayload : Spans 1 payload.length (.ok payload) := ⟨payload, rfl, (Nat.one_mul _).ge⟩
  obtain ⟨bs, hbs, hle⟩ := (he.varint _).join_cons ((he.varint _).join_cons hpayload.join_one)
  refine ⟨bs, hbs, ?_⟩
  rw [Nat.one_mul] at hle
  calc fieldSize m ≤ 2 + 2 * m := fieldSize_le m
    _ ≤ 2 * c * (1 + (1 + payload.length)) := by
        rw [Nat.mul_add, Nat.mul_add, Nat.mul_assoc 2 c payload.length]
        omega
    _ ≤ 2 * c * bs.length := Nat.mul_le_mul_left _ hle

theorem ldField (he : e.Wrapping) (hc : 1 ≤ c) (hm : m ≤ c * payload.length) (hpos : 0 < m) :
    Spans (2 * c) (fieldSize m) (e.ldField k payload) := by
  have hne : payload ≠ [] := by
    rintro rfl
    exact absurd (hpos.trans_le hm) (Nat.lt_irrefl 0)
  rw [RequestEncoder.ldField, if_neg hne]
  exact he.ldFieldAlways hc hm

theorem bytesField (he : e.Wrapping) (bs : List UInt8) :
    Spans 2 (filledSize bs.length) (e.bytesField k bs) := by
  rw [RequestEncoder.bytesField]
  by_cases hbs : bs = []
  · subst hbs
    exact spans_nil
  · rw [if_neg hbs, filledSize, if_neg (List.length_eq_zero_iff.not.mpr hbs)]
    exact he.ldFieldAlways le_rfl (Nat.one_mul _).ge

theorem stringField (he : e.Wrapping) (s : String) :
    Spans 2 (textSize s) (e.stringField k s) := by
  rw [e.stringField_eq]
  exact he.bytesField _

theorem namespaceField (he : e.Wrapping) (ns : Option String) :
    Spans 4 (namespaceSize (ns.filter fun ns => !blank e.space ns)) (e.namespaceField k ns) := by
  rw [RequestEncoder.namespaceField]
  cases ns with
  | none => exact spans_nil
  | some ns =>
      simp only [RequestEncoder.hasNamespace, Option.filter_some]
      by_cases hb : blank e.space ns
      · simp only [hb]
        exact spans_nil
      · simp only [hb]
        have hpos : 0 < textSize ns := by
          have hne : (utf8Bytes ns).length ≠ 0 := by
            rw [ne_eq, List.length_eq_zero_iff, utf8Bytes_eq_nil_iff]
            rintro rfl
            exact hb rfl
          rw [textSize, filledSize, if_neg hne, fieldSize]
          exact Nat.add_pos_left Nat.one_pos _
        exact (he.stringField ns).bind fun opt hopt => he.ldField (by decide) hopt hpos

theorem ttlField (he : e.Wrapping) (hk : k < 16) {ttl : Option ℤ} (httl : ∀ t ∈ ttl, t < 2 ^ 64) :
    Spans 4 (ttlSize (ttl.filter fun t => decide (0 < t))) (e.ttlField k ttl) := by
  have hlen := length_ttlSlots hk (ttl.filter fun t => decide (0 < t))
  have hsmall : ttlSize (ttl.filter fun t => decide (0 < t)) < 2 ^ 64 := by
    cases h : ttl.filter fun t => decide (0 < t) with
    | none => exact Nat.two_pow_pos 64
    | some t =>
        have ht := httl t (Option.filter_eq_some_iff.mp h).1
        have hvarint := length_encodeVarint_le (n := t.toNat) (by omega)
        rw [length_encodeVarint] at hvarint
        refine (fieldSize_le _).trans_lt ?_
        split <;> omega
  rw [← hlen] at hsmall ⊢
  exact ((he.exact.ttlField (by omega) ttl httl).spans hsmall).mono (by decide)

theorem deltaField (he : e.Wrapping) (hk : k < 16) {delta : Option ℤ}
    (hdelta : ∀ d ∈ delta, -2 ^ 63 ≤ d ∧ d < 2 ^ 63) :
    Spans 4 (deltaSize delta) (e.deltaField k delta) := by
  have hlen := length_deltaSlots hk delta
  have hsmall : deltaSize delta < 2 ^ 64 := by
    cases delta with
    | none => exact Nat.two_pow_pos 64
    | some d =>
        have hvarint := length_encodeVarint_le (bits64_lt d)
        rw [length_encodeVarint] at hvarint
        rw [deltaSize]
        omega
  rw [← hlen] at hsmall ⊢
  exact ((he.exact.deltaField (by omega) delta hdelta).spans hsmall).mono (by decide)

/-- The message of a request. -/
theorem encodeInner (he : e.Wrapping) (hr : r.HasWords) :
    Spans 4 (r.content e.space).size (e.encodeInner r).2 := by
  have hjoins : Joins fun w slots => Spans 4 (encodeMessage slots).length w := by
    refine ⟨spans_nil, fun h h' => ?_⟩
    rw [encodeMessage_append, List.length_append]
    exact h.join_cons h'
  have hone : ∀ s : Slot, (encodeMessage [s]).length = s.encode.length := fun s => by
    rw [encodeMessage_cons, List.length_append]
    rfl
  rw [← Request.length_slots]
  refine hjoins.encodeInner (fun s => ?_) (fun bs => ?_) ?_ (fun k hk => ?_) fun k hk => ?_
  · rw [hone, length_text (by decide)]
    exact (he.stringField s).mono (by decide)
  · rw [hone, length_encode_bytes (by decide)]
    exact (he.bytesField bs).mono (by decide)
  · rw [length_deltaSlots (by decide)]
    exact he.deltaField (by decide) hr.1
  · rw [length_ttlSlots (by omega)]
    exact he.ttlField (by omega) hr.2
  · rw [length_namespaceSlots (by omega)]
    exact he.namespaceField r.ns

theorem envelope (he : e.Wrapping) {inner : List UInt8} (hm : m ≤ 4 * inner.length) :
    Spans 16 (2 + fieldSize (fieldSize m)) (e.envelope k inner) := by
  have hversion : Spans 1 2 (e.enumField 1 1) :=
    (he.varint _).join_cons (he.varint _).join_one
  exact (he.ldFieldAlways (by decide) hm).bind fun request hrequest =>
    (hversion.mono (by decide)).join_cons (he.ldFieldAlways (by decide) hrequest).join_one

/-- A frame is written for every request. -/
theorem encode (he : e.Wrapping) (hargs : e.arguments r = .ok r) (hr : r.HasWords) :
    ∃ env, e.encode r = .ok (framed env) ∧ (r.content e.space).extent ≤ 16 * env.length := by
  obtain ⟨inner, hinner, hm⟩ := he.encodeInner hr
  obtain ⟨env, henv, hle⟩ := he.envelope (k := (e.encodeInner r).1) hm
  refine ⟨env, ?_, hle⟩
  rw [RequestEncoder.encode_of_envelope hargs hinner henv, he.lengthPrefix]
  rfl

/-- The envelope of a frame has the length of the canonical one, unless that does not fit in 64
bits. -/
theorem encode_extent (he : e.Wrapping) (hargs : e.arguments r = .ok r) (hr : r.HasWords) :
    ∃ env, e.encode r = .ok (framed env) ∧ (r.content e.space).extent ≤ 16 * env.length ∧
      ((r.content e.space).extent < 2 ^ 64 → env.length = (r.content e.space).extent) := by
  obtain ⟨env, henv, hle⟩ := he.encode hargs hr
  refine ⟨env, henv, hle, fun hlt => ?_⟩
  have hcanonical := he.exact.encode_eq (by decide) hargs hr.2 hr.1
    (by rwa [Request.length_envelope])
  rw [henv, he.lengthPrefix] at hcanonical
  rw [framed_inj (Except.ok.inj hcanonical), Request.length_envelope]

end RequestEncoder.Wrapping

/-- The clients that cut the length of an envelope. -/
inductive Unchecked
  | go
  | rust
  deriving DecidableEq, Repr

namespace Unchecked

def encoder : Unchecked → RequestEncoder
  | .go => goEncoder
  | .rust => rustEncoder

/-- The requests that can be made with the types of a client: numbers have 64 bits, and an
increment has to be given to the Rust client. -/
structure Takes (u : Unchecked) (r : Request) : Prop where
  words : r.HasWords
  given : u = .rust → ∀ key ttlSecsOnCreate ns, r ≠ .incr key none ttlSecsOnCreate ns

variable {u : Unchecked} {r : Request}

theorem spans_uint64Varint (v : ℤ) : Spans 1 1 (.ok (uint64Varint (UInt64.ofInt v))) := by
  rw [uint64Varint_eq]
  exact ⟨_, rfl, by rw [Nat.one_mul]; exact (encodeVarint_isVarint _).length_pos⟩

theorem wrapping (u : Unchecked) : u.encoder.Wrapping := by
  cases u with
  | go => exact ⟨go_exact, spans_uint64Varint, fun _ => rfl⟩
  | rust => exact ⟨rust_exact, spans_uint64Varint, fun _ => rfl⟩

theorem arguments (h : u.Takes r) : u.encoder.arguments r = .ok r := by
  cases u with
  | go => cases r <;> rfl
  | rust =>
      cases r with
      | incr key delta ttlSecsOnCreate ns =>
          cases delta with
          | none => exact absurd rfl (h.given rfl key ttlSecsOnCreate ns)
          | some d => rfl
      | _ => rfl

/-- What is written of a request. -/
def content (r : Request) : Request :=
  r.content whiteSpace

theorem encode_extent (h : u.Takes r) : ∃ env, u.encoder.encode r = .ok (framed env) ∧
    (content r).extent ≤ 16 * env.length ∧
      ((content r).extent < 2 ^ 64 → env.length = (content r).extent) := by
  have hspace : u.encoder.space = whiteSpace := by
    cases u <;> rfl
  rw [content, ← hspace]
  exact u.wrapping.encode_extent (arguments h) h.words

end Unchecked

/-- Every frame that is written for a request has an exact prefix if and only if its envelope is
shorter than 2^32 bytes. -/
theorem prefix_exact_iff (u : Unchecked) (r : Request) (h : u.Takes r) :
    (∀ frame, u.encoder.encode r = .ok frame → PrefixExact frame) ↔
      (Unchecked.content r).extent < 2 ^ 32 := by
  obtain ⟨env, henv, hle, hexact⟩ := Unchecked.encode_extent h
  have hlt : env.length < 2 ^ 32 ↔ (Unchecked.content r).extent < 2 ^ 32 := by
    by_cases hsmall : (Unchecked.content r).extent < 2 ^ 64
    · rw [hexact hsmall]
    · exact iff_of_false (by omega) (by omega)
  rw [henv, ← hlt, ← prefixExact_framed_iff]
  constructor
  · intro hframe
    exact hframe _ rfl
  · rintro hexact frame hframe
    rwa [← Except.ok.inj hframe]

/-- An increment by -1 that makes a counter for a minute. -/
theorem prefix_exact_iff_incr :
    (∀ frame, rustEncoder.encode (.incr "k" (some (-1)) (some 60) none) = .ok frame →
      PrefixExact frame) ↔
      (Unchecked.content (.incr "k" (some (-1)) (some 60) none)).extent < 2 ^ 32 := by
  refine prefix_exact_iff .rust _ ⟨⟨fun d hd => ?_, fun t ht => ?_⟩, fun _ _ _ _ hr => ?_⟩
  · cases hd
    decide
  · cases ht
    decide
  · cases hr

theorem fieldSize_of_long {n : ℕ} (hlo : 2 ^ 28 ≤ n) (hhi : n < 2 ^ 35) : fieldSize n = n + 6 := by
  have hlog : Nat.log 128 n = 4 := Nat.log_eq_of_pow_le_of_lt_pow (by omega) (by omega)
  rw [fieldSize, varintSize, hlog]
  omega

/-- The envelope around a value of 2^32 bytes. -/
theorem extent_of_long {value : List UInt8} (h : value.length = 2 ^ 32) :
    (Unchecked.content (.set "k" value none none)).extent = 2 ^ 32 + 23 := by
  have hkey : filledSize 1 = 3 := by
    rw [filledSize, if_neg (by decide), fieldSize, varintSize, Nat.log_of_lt (by decide)]
  have hvalue : filledSize (2 ^ 32) = 2 ^ 32 + 6 := by
    rw [filledSize, if_neg (by decide), fieldSize_of_long (by decide) (by decide)]
  have hsize : (Unchecked.content (.set "k" value none none)).size = 2 ^ 32 + 9 := by
    change filledSize 1 + (filledSize value.length + 0) = _
    rw [h, hkey, hvalue]
    omega
  rw [Request.extent, hsize, fieldSize_of_long (by decide) (by decide),
    fieldSize_of_long (by decide) (by decide)]
  omega

theorem prefix_of_long (u : Unchecked) {value : List UInt8} (h : value.length = 2 ^ 32) :
    ∃ frame, u.encoder.encode (.set "k" value none none) = .ok frame ∧
      ¬ PrefixExact frame ∧ ofBigEndian (frame.take 4) = 23 ∧
        (frame.drop 4).length = 2 ^ 32 + 23 := by
  have htakes : u.Takes (.set "k" value none none) :=
    ⟨⟨fun d hd => (by cases hd), fun t ht => (by cases ht)⟩, fun _ _ _ _ hr => (by cases hr)⟩
  obtain ⟨env, henv, -, hlen⟩ := Unchecked.encode_extent htakes
  rw [extent_of_long h] at hlen
  have hlong := hlen (by decide)
  refine ⟨framed env, henv, ?_, ?_, ?_⟩
  · rw [prefixExact_framed_iff, hlong]
    exact Nat.not_lt.mpr (Nat.le_add_right _ 23)
  · rw [ofBigEndian_take_framed, hlong]
    rfl
  · rw [drop_framed, hlong]

/-- A value of 2^32 bytes is sent behind a length of 23. -/
theorem prefix_cut :
    (∃ frame, goEncoder.encode (.set "k" (List.replicate (2 ^ 32) 0) none none) = .ok frame ∧
      ¬ PrefixExact frame ∧ ofBigEndian (frame.take 4) = 23 ∧
        (frame.drop 4).length = 2 ^ 32 + 23) ∧
    ∃ frame, rustEncoder.encode (.set "k" (List.replicate (2 ^ 32) 0) none none) = .ok frame ∧
      ¬ PrefixExact frame ∧ ofBigEndian (frame.take 4) = 23 ∧
        (frame.drop 4).length = 2 ^ 32 + 23 :=
  ⟨prefix_of_long .go List.length_replicate, prefix_of_long .rust List.length_replicate⟩

end Wire

end DittoClient
