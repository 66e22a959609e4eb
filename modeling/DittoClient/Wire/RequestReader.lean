import DittoClient.Wire.Agreement
import DittoClient.Wire.Requests

/-!
# Reading requests

Requests read back with the reader of the Python client. An envelope has to hold one request
with one field, which must be a variant that is known: the protocol snapshot lists the variants
1 to 9, and the client has the variants 10 and 11 besides. The canonical envelope of a request
reads as the request (`readEnvelope_envelope`).
-/

namespace DittoClient

namespace Wire

open DittoClient.Octets
open DittoClient.Protobuf

/-- The fields of a message with a number or a byte string in them, in their order. -/
def readFields (bs : List UInt8) : Except DecodeError (List Field) :=
  pythonDialect.fields (fun tag r fs =>
    match tag with
    | (k, 0) => some do
      let (n, r) ← pythonDialect.readVarint r
      .ok (fs ++ [⟨k, .varint n⟩], r)
    | (k, 2) => some do
      let (bs, r) ← pythonDialect.readLD r
      .ok (fs ++ [⟨k, .bytes bs⟩], r)
    | _ => none) bs []

def readString (k : ℕ) (fs : List Field) : Except DecodeError String :=
  lastOf (bytesAt k pythonDialect.text) "" fs

def readBytes (k : ℕ) (fs : List Field) : Except DecodeError (List UInt8) :=
  lastOf (bytesAt k .ok) [] fs

def readInt64 (k : ℕ) (fs : List Field) : Except DecodeError (Option ℤ) :=
  lastOf (varintAt k fun n => .ok (some (pythonDialect.int64 n))) none fs

/-- An `OptionalString`. -/
def readOptionalString (k : ℕ) (fs : List Field) : Except DecodeError (Option String) :=
  lastOf (bytesAt k fun bs => do
    let fs ← readFields bs
    let s ← lastOf (bytesAt 1 pythonDialect.text) "" fs
    .ok (some s)) none fs

/-- An `OptionalUint64`. -/
def readOptionalUint64 (k : ℕ) (fs : List Field) : Except DecodeError (Option ℤ) :=
  lastOf (bytesAt k fun bs => do
    let fs ← readFields bs
    let n ← lastOf (varintAt 1 .ok) 0 fs
    .ok (some (n : ℤ))) none fs

/-- A `KeyNamespace` or a `PatternNamespace`. -/
def readKeyNamespace (make : String → Option String → Request) (fs : List Field) :
    Except DecodeError Request := do
  let key ← readString 1 fs
  let ns ← readOptionalString 2 fs
  .ok (make key ns)

def readSetRequest (make : String → List UInt8 → Option ℤ → Option String → Request)
    (fs : List Field) : Except DecodeError Request := do
  let key ← readString 1 fs
  let value ← readBytes 2 fs
  let ttl ← readOptionalUint64 3 fs
  let ns ← readOptionalString 4 fs
  .ok (make key value ttl ns)

def readSetTtlByPatternRequest (fs : List Field) : Except DecodeError Request := do
  let pattern ← readString 1 fs
  let ttl ← readOptionalUint64 2 fs
  let ns ← readOptionalString 3 fs
  .ok (.setTtlByPattern pattern ttl ns)

def readIncrRequest (fs : List Field) : Except DecodeError Request := do
  let key ← readString 1 fs
  let delta ← readInt64 2 fs
  let ttl ← readOptionalUint64 3 fs
  let ns ← readOptionalString 4 fs
  .ok (.incr key delta ttl ns)

def readAuthRequest (fs : List Field) : Except DecodeError Request := do
  let token ← readString 1 fs
  .ok (.auth token)

/-- A table of the variants of a request and the readers of their messages. -/
abbrev Variants := ℕ → Option (List Field → Except DecodeError Request)

/-- The variants that the protocol snapshot lists. -/
def snapshotVariants : Variants
  | 1 => some (readKeyNamespace .get)
  | 2 => some (readSetRequest .set)
  | 3 => some (readKeyNamespace .delete)
  | 4 => some fun _ => .ok .ping
  | 5 => some readAuthRequest
  | 6 => some (readKeyNamespace .watch)
  | 7 => some (readKeyNamespace .unwatch)
  | 8 => some (readKeyNamespace .deleteByPattern)
  | 9 => some readSetTtlByPatternRequest
  | _ => none

/-- The variants that the client knows. -/
def clientVariants : Variants
  | 10 => some (readSetRequest .setNx)
  | 11 => some readIncrRequest
  | k => snapshotVariants k

/-- The variant that a `ClientRequest` consists of. -/
def readVariant (variants : Variants) (bs : List UInt8) : Except DecodeError Request := do
  let fs ← readFields bs
  match fs with
  | [⟨k, .bytes inner⟩] =>
      match variants k with
      | some read => readFields inner >>= read
      | none => .error (.malformed "unknown variant")
  | _ => .error (.malformed "not one variant")

/-- The version of an envelope and the request in it. -/
def readEnvelope (variants : Variants) (bs : List UInt8) : Except DecodeError (ℕ × Request) := do
  let fs ← readFields bs
  let version ← lastOf (varintAt 1 .ok) 0 fs
  match fs.filterMap (bytesAt 2 .ok) with
  | [request] => do
      let request ← request
      let r ← readVariant variants request
      .ok (version, r)
  | _ => .error (.malformed "not one request")

section Fields

/-- What the loop over the fields collects. -/
def collect (f : Field) (fs : List Field) : Except DecodeError (List Field) :=
  match f.content with
  | .varint _ => .ok (fs ++ [f])
  | .bytes _ => .ok (fs ++ [f])
  | _ => .ok fs

theorem takes_collect : pythonDialect.Takes (fun tag r fs =>
    match tag with
    | (k, 0) => some do
      let (n, r) ← pythonDialect.readVarint r
      .ok (fs ++ [⟨k, .varint n⟩], r)
    | (k, 2) => some do
      let (bs, r) ← pythonDialect.readLD r
      .ok (fs ++ [⟨k, .bytes bs⟩], r)
    | _ => none) collect where
  varint _ _ _ := Or.inl rfl
  bytes _ _ _ := Or.inl rfl
  other k w r a h0 h2 := by
    split
    · next heq => exact absurd (Prod.mk.inj heq).2 h0
    · next heq => exact absurd (Prod.mk.inj heq).2 h2
    · rfl
  fixed _ _ _ := ⟨rfl, rfl⟩

theorem foldFields_collect {fs : List Field} (gs : List Field)
    (h : ∀ f ∈ fs, f.content.wire = 0 ∨ f.content.wire = 2) :
    Rules.foldFields collect fs gs = .ok (gs ++ fs) := by
  induction fs generalizing gs with
  | nil => rw [List.append_nil]; rfl
  | cons f fs ih =>
      have hf : collect f gs = .ok (gs ++ [f]) := by
        obtain ⟨k, c⟩ := f
        have hwire := h ⟨k, c⟩ (List.mem_cons_self ..)
        cases c with
        | varint n => rfl
        | fixed64 bs => exact absurd hwire (by simp [Content.wire])
        | bytes bs => rfl
        | fixed32 bs => exact absurd hwire (by simp [Content.wire])
      rw [Rules.foldFields_cons, hf]
      change Rules.foldFields collect fs (gs ++ [f]) = _
      rw [ih _ fun g hg => h g (List.mem_cons_of_mem _ hg), List.append_assoc]
      rfl

/-- A slot that the encoders write: a number or a byte string, under a small number. -/
def Ordinary (s : Slot) : Prop :=
  s.field.number < 2 ^ 28 ∧
    ((∃ bs, s.field.content = .bytes bs) ∨ ∃ n < 2 ^ 64, s.field.content = .varint n)

theorem Ordinary.small {s : Slot} (h : Ordinary s) : s.Small := by
  obtain ⟨hk, hbs | ⟨n, hn, hc⟩⟩ := h
  · exact ⟨hk, Or.inl hbs⟩
  · refine ⟨hk, Or.inr ?_⟩
    rw [hc]
    exact hn

/-- The fields of a message that the encoders write. -/
theorem readFields_encodeMessage {slots : List Slot} (h : ∀ s ∈ slots, Ordinary s)
    (hlen : (encodeMessage slots).length < 2 ^ 64) :
    readFields (encodeMessage slots) = .ok (written slots) := by
  have hmessage := python_standard.message_of_small (fun s hs => (h s hs).small) hlen
  refine ((python_follows _).fields_of_message takes_collect le_rfl hmessage []).trans ?_
  refine foldFields_collect [] fun f hf => ?_
  obtain ⟨s, hs, rfl⟩ := List.mem_map.mp hf
  obtain ⟨-, ⟨bs, hbs⟩ | ⟨n, -, hn⟩⟩ := h s (List.mem_filter.mp hs).1
  · rw [hbs]
    exact Or.inr rfl
  · rw [hn]
    exact Or.inl rfl

end Fields

section Lookup

variable {β : Type} {get : Field → Option (Except DecodeError β)} {b : β} {key : ℕ × ℕ}

/-- Whether no slot has a key. -/
def lacks (key : ℕ × ℕ) (slots : List Slot) : Bool :=
  slots.all fun s => decide (s.key ≠ key)

/-- A value depends only on the slots with its key. -/
theorem lastOf_written (before mid after : List Slot) (hbefore : lacks key before = true)
    (hafter : lacks key after = true) (hget : ∀ f : Field, f.key ≠ key → get f = none) :
    lastOf get b (written (before ++ (mid ++ after))) = lastOf get b (written mid) := by
  have hnone : ∀ slots : List Slot, lacks key slots = true →
      (written slots).filterMap get = [] := by
    intro slots hslots
    refine List.filterMap_eq_nil_iff.mpr fun f hf => hget f ?_
    obtain ⟨s, hs, rfl⟩ := List.mem_map.mp hf
    exact of_decide_eq_true (List.all_eq_true.mp hslots s (List.mem_filter.mp hs).1)
  refine lastOf_congr ?_
  have happend : ∀ l l' : List Slot, written (l ++ l') = written l ++ written l' := by
    intro l l'
    rw [written, List.filter_append, List.map_append]
    rfl
  rw [happend, happend, List.filterMap_append, List.filterMap_append, hnone before hbefore,
    hnone after hafter, List.nil_append, List.append_nil]

/-- The same for the slots at the end. -/
theorem lastOf_written_last (before mid : List Slot) (hbefore : lacks key before = true)
    (hget : ∀ f : Field, f.key ≠ key → get f = none) :
    lastOf get b (written (before ++ mid)) = lastOf get b (written mid) := by
  have h := lastOf_written (b := b) before mid [] hbefore rfl hget
  rwa [List.append_nil] at h

theorem lastOf_text (k : ℕ) (s : String) :
    lastOf (bytesAt k pythonDialect.text) "" (written [textSlot k s]) = .ok s :=
  python_plain.lastOf_text (represents_written [(k, 2)] _) (List.mem_singleton_self _)
    (List.nodup_singleton _) (List.mem_singleton_self _)

theorem lastOf_value (k : ℕ) (bs : List UInt8) :
    lastOf (bytesAt k .ok) [] (written [.bytes k bs]) = .ok bs :=
  Dialect.lastOf_bytes (represents_written [(k, 2)] _) (List.mem_singleton_self _)
    (List.nodup_singleton _) (List.mem_singleton_self _) rfl

theorem signed64_bits64 {d : ℤ} (hlo : -2 ^ 63 ≤ d) (hhi : d < 2 ^ 63) :
    signed64 (bits64 d) = d := by
  unfold signed64 bits64
  split <;> omega

theorem lastOf_delta (k : ℕ) {delta : Option ℤ}
    (h : ∀ d ∈ delta, -2 ^ 63 ≤ d ∧ d < 2 ^ 63) :
    lastOf (varintAt k fun n => .ok (some (pythonDialect.int64 n))) none
      (written (deltaSlots k delta)) = .ok delta := by
  cases delta with
  | none => rfl
  | some d =>
      have hd : pythonDialect.int64 (bits64 d) = d := signed64_bits64 (h d rfl).1 (h d rfl).2
      refine lastOf_of_one ?_
      simp [written, deltaSlots, varintAt, hd]

theorem lastOf_wrapper {read : List UInt8 → Except DecodeError β} (k : ℕ) (bs : List UInt8) :
    lastOf (bytesAt k read) b (written [.message k bs]) = read bs :=
  lastOf_of_one (by simp [written, Slot.message, bytesAt])

/-- A namespace is read as its text. -/
theorem lastOf_namespace (k : ℕ) {ns : Option String}
    (h : ∀ s ∈ ns, (encodeMessage [textSlot 1 s]).length < 2 ^ 64) :
    readOptionalString k (written (namespaceSlots k ns)) = .ok ns := by
  cases ns with
  | none => rfl
  | some s =>
      have hfields : readFields (encodeMessage [textSlot 1 s]) = .ok (written [textSlot 1 s]) :=
        readFields_encodeMessage (List.forall_mem_singleton.mpr ⟨Nat.one_lt_two_pow (by decide), Or.inl ⟨_, rfl⟩⟩)
          (h s rfl)
      refine (lastOf_wrapper k _).trans ?_
      rw [hfields]
      change (lastOf (bytesAt 1 pythonDialect.text) "" (written [textSlot 1 s]) >>= _) = _
      rw [lastOf_text]
      rfl

/-- A lifetime is read as its number. -/
theorem lastOf_ttl (k : ℕ) {ttl : Option ℤ} (h : ∀ t ∈ ttl, 0 ≤ t ∧ t < 2 ^ 64) :
    readOptionalUint64 k (written (ttlSlots k ttl)) = .ok ttl := by
  cases ttl with
  | none => rfl
  | some t =>
      have hlt : t.toNat < 2 ^ 64 := by
        have ht := h t rfl
        omega
      have hslot : Ordinary (.uint 1 t.toNat) := ⟨Nat.one_lt_two_pow (by decide), Or.inr ⟨_, hlt, rfl⟩⟩
      have hlen : (encodeMessage [.uint 1 t.toNat]).length < 2 ^ 64 := by
        have htag : (encodeTag 1 0).length ≤ 10 := length_encodeVarint_le (by decide)
        have hle := length_encodeVarint_le hlt
        have hwrite : (Slot.uint 1 t.toNat).encode.length ≤ 20 := by
          rw [Slot.encode]
          split
          · exact Nat.zero_le _
          · rw [Slot.uint, encodeField, varintField, List.length_append]
            omega
        rw [encodeMessage_cons, List.length_append]
        exact lt_of_le_of_lt hwrite (by decide)
      have hfields : readFields (encodeMessage [.uint 1 t.toNat]) =
          .ok (written [.uint 1 t.toNat]) :=
        readFields_encodeMessage (List.forall_mem_singleton.mpr hslot) hlen
      have hread : lastOf (varintAt 1 .ok) 0 (written [.uint 1 t.toNat]) = .ok t.toNat :=
        Dialect.lastOf_uint (represents_written [(1, 0)] _) (List.mem_singleton_self _)
          (List.nodup_singleton _) (List.mem_singleton_self _) rfl
      refine (lastOf_wrapper k _).trans ?_
      rw [hfields]
      change (lastOf (varintAt 1 .ok) 0 (written [.uint 1 t.toNat]) >>= _) = _
      rw [hread]
      exact congrArg (fun t => Except.ok (some t)) (Int.toNat_of_nonneg (h t rfl).1)

end Lookup

section Messages

variable (key : String) (value : List UInt8) {ttl delta : Option ℤ} {ns : Option String}

theorem readKeyNamespace_eq (make : String → Option String → Request)
    (hns : ∀ s ∈ ns, (encodeMessage [textSlot 1 s]).length < 2 ^ 64) :
    readKeyNamespace make (written (textSlot 1 key :: namespaceSlots 2 ns)) =
      .ok (make key ns) := by
  have hkey : readString 1 (written (textSlot 1 key :: namespaceSlots 2 ns)) = .ok key :=
    (lastOf_written [] [textSlot 1 key] _ rfl (by cases ns <;> rfl)
      fun f => bytesAt_of_key_ne).trans (lastOf_text 1 key)
  have hns : readOptionalString 2 (written (textSlot 1 key :: namespaceSlots 2 ns)) = .ok ns :=
    (lastOf_written_last [textSlot 1 key] _ rfl fun f => bytesAt_of_key_ne).trans
      (lastOf_namespace 2 hns)
  rw [readKeyNamespace, hkey, hns]
  rfl

theorem readSetRequest_eq (make : String → List UInt8 → Option ℤ → Option String → Request)
    (httl : ∀ t ∈ ttl, 0 ≤ t ∧ t < 2 ^ 64)
    (hns : ∀ s ∈ ns, (encodeMessage [textSlot 1 s]).length < 2 ^ 64) :
    readSetRequest make (written (textSlot 1 key :: .bytes 2 value ::
      (ttlSlots 3 ttl ++ namespaceSlots 4 ns))) = .ok (make key value ttl ns) := by
  have hkey : readString 1 (written (textSlot 1 key :: .bytes 2 value ::
      (ttlSlots 3 ttl ++ namespaceSlots 4 ns))) = .ok key :=
    (lastOf_written [] [textSlot 1 key] _ rfl (by cases ttl <;> cases ns <;> rfl)
      fun f => bytesAt_of_key_ne).trans (lastOf_text 1 key)
  have hvalue : readBytes 2 (written (textSlot 1 key :: .bytes 2 value ::
      (ttlSlots 3 ttl ++ namespaceSlots 4 ns))) = .ok value :=
    (lastOf_written [textSlot 1 key] [.bytes 2 value] _ rfl (by cases ttl <;> cases ns <;> rfl)
      fun f => bytesAt_of_key_ne).trans (lastOf_value 2 value)
  have httl : readOptionalUint64 3 (written (textSlot 1 key :: .bytes 2 value ::
      (ttlSlots 3 ttl ++ namespaceSlots 4 ns))) = .ok ttl :=
    (lastOf_written [textSlot 1 key, .bytes 2 value] _ _ rfl (by cases ns <;> rfl)
      fun f => bytesAt_of_key_ne).trans (lastOf_ttl 3 httl)
  have hns : readOptionalString 4 (written (textSlot 1 key :: .bytes 2 value ::
      (ttlSlots 3 ttl ++ namespaceSlots 4 ns))) = .ok ns :=
    (lastOf_written_last (textSlot 1 key :: .bytes 2 value :: ttlSlots 3 ttl) _
      (by cases ttl <;> rfl) fun f => bytesAt_of_key_ne).trans (lastOf_namespace 4 hns)
  rw [readSetRequest, hkey, hvalue, httl, hns]
  rfl

theorem readSetTtlByPatternRequest_eq (httl : ∀ t ∈ ttl, 0 ≤ t ∧ t < 2 ^ 64)
    (hns : ∀ s ∈ ns, (encodeMessage [textSlot 1 s]).length < 2 ^ 64) :
    readSetTtlByPatternRequest (written (textSlot 1 key ::
      (ttlSlots 2 ttl ++ namespaceSlots 3 ns))) = .ok (.setTtlByPattern key ttl ns) := by
  have hkey : readString 1 (written (textSlot 1 key ::
      (ttlSlots 2 ttl ++ namespaceSlots 3 ns))) = .ok key :=
    (lastOf_written [] [textSlot 1 key] _ rfl (by cases ttl <;> cases ns <;> rfl)
      fun f => bytesAt_of_key_ne).trans (lastOf_text 1 key)
  have httl : readOptionalUint64 2 (written (textSlot 1 key ::
      (ttlSlots 2 ttl ++ namespaceSlots 3 ns))) = .ok ttl :=
    (lastOf_written [textSlot 1 key] _ _ rfl (by cases ns <;> rfl)
      fun f => bytesAt_of_key_ne).trans (lastOf_ttl 2 httl)
  have hns : readOptionalString 3 (written (textSlot 1 key ::
      (ttlSlots 2 ttl ++ namespaceSlots 3 ns))) = .ok ns :=
    (lastOf_written_last (textSlot 1 key :: ttlSlots 2 ttl) _
      (by cases ttl <;> rfl) fun f => bytesAt_of_key_ne).trans (lastOf_namespace 3 hns)
  rw [readSetTtlByPatternRequest, hkey, httl, hns]
  rfl

theorem readIncrRequest_eq (hdelta : ∀ d ∈ delta, -2 ^ 63 ≤ d ∧ d < 2 ^ 63)
    (httl : ∀ t ∈ ttl, 0 ≤ t ∧ t < 2 ^ 64)
    (hns : ∀ s ∈ ns, (encodeMessage [textSlot 1 s]).length < 2 ^ 64) :
    readIncrRequest (written (textSlot 1 key :: (deltaSlots 2 delta ++
      (ttlSlots 3 ttl ++ namespaceSlots 4 ns)))) = .ok (.incr key delta ttl ns) := by
  have hkey : readString 1 (written (textSlot 1 key :: (deltaSlots 2 delta ++
      (ttlSlots 3 ttl ++ namespaceSlots 4 ns)))) = .ok key :=
    (lastOf_written [] [textSlot 1 key] _ rfl
      (by cases delta <;> cases ttl <;> cases ns <;> rfl)
      fun f => bytesAt_of_key_ne).trans (lastOf_text 1 key)
  have hdelta : readInt64 2 (written (textSlot 1 key :: (deltaSlots 2 delta ++
      (ttlSlots 3 ttl ++ namespaceSlots 4 ns)))) = .ok delta :=
    (lastOf_written [textSlot 1 key] _ _ rfl (by cases ttl <;> cases ns <;> rfl)
      fun f => varintAt_of_key_ne).trans (lastOf_delta 2 hdelta)
  have httl : readOptionalUint64 3 (written (textSlot 1 key :: (deltaSlots 2 delta ++
      (ttlSlots 3 ttl ++ namespaceSlots 4 ns)))) = .ok ttl :=
    (lastOf_written (textSlot 1 key :: deltaSlots 2 delta) _ _ (by cases delta <;> rfl)
      (by cases ns <;> rfl) fun f => bytesAt_of_key_ne).trans (lastOf_ttl 3 httl)
  have hns : readOptionalString 4 (written (textSlot 1 key :: (deltaSlots 2 delta ++
      (ttlSlots 3 ttl ++ namespaceSlots 4 ns)))) = .ok ns := by
    have hlast := lastOf_namespace 4 hns
    rw [← List.append_assoc]
    exact (lastOf_written_last (textSlot 1 key :: (deltaSlots 2 delta ++ ttlSlots 3 ttl)) _
      (by cases delta <;> cases ttl <;> rfl) fun f => bytesAt_of_key_ne).trans hlast
  rw [readIncrRequest, hkey, hdelta, httl, hns]
  rfl

end Messages

section Requests

variable {r : Request}

theorem ordinary_namespaceSlots {k : ℕ} (hk : k < 2 ^ 28) (ns : Option String) :
    ∀ s ∈ namespaceSlots k ns, Ordinary s := by
  intro s hs
  cases ns with
  | none => cases hs
  | some n =>
      obtain rfl := List.mem_singleton.mp hs
      exact ⟨hk, Or.inl ⟨_, rfl⟩⟩

theorem ordinary_ttlSlots {k : ℕ} (hk : k < 2 ^ 28) (ttl : Option ℤ) :
    ∀ s ∈ ttlSlots k ttl, Ordinary s := by
  intro s hs
  cases ttl with
  | none => cases hs
  | some t =>
      obtain rfl := List.mem_singleton.mp hs
      exact ⟨hk, Or.inl ⟨_, rfl⟩⟩

theorem ordinary_deltaSlots {k : ℕ} (hk : k < 2 ^ 28) (delta : Option ℤ) :
    ∀ s ∈ deltaSlots k delta, Ordinary s := by
  intro s hs
  cases delta with
  | none => cases hs
  | some d =>
      obtain rfl := List.mem_singleton.mp hs
      exact ⟨hk, Or.inr ⟨_, bits64_lt d, rfl⟩⟩

/-- The message of a request consists of numbers and byte strings. -/
theorem Request.ordinary (r : Request) : ∀ s ∈ r.slots, Ordinary s := by
  have htext : ∀ s, Ordinary (textSlot 1 s) := fun s =>
    ⟨Nat.one_lt_two_pow (by decide), Or.inl ⟨_, rfl⟩⟩
  have hvalue : ∀ bs, Ordinary (.bytes 2 bs) := fun bs =>
    ⟨(by decide : 2 < 2 ^ 28), Or.inl ⟨_, rfl⟩⟩
  have hkey : ∀ key ns, ∀ s ∈ textSlot 1 key :: namespaceSlots 2 ns, Ordinary s :=
    fun key ns => List.forall_mem_cons.mpr ⟨htext key, ordinary_namespaceSlots (by decide) ns⟩
  have htail : ∀ {k l : ℕ}, k < 2 ^ 28 → l < 2 ^ 28 → ∀ ttl ns,
      ∀ s ∈ ttlSlots k ttl ++ namespaceSlots l ns, Ordinary s := fun hk hl ttl ns =>
    List.forall_mem_append.mpr ⟨ordinary_ttlSlots hk ttl, ordinary_namespaceSlots hl ns⟩
  have hset : ∀ key value ttl ns, ∀ s ∈ textSlot 1 key :: .bytes 2 value ::
      (ttlSlots 3 ttl ++ namespaceSlots 4 ns), Ordinary s := fun key value ttl ns =>
    List.forall_mem_cons.mpr ⟨htext key,
      List.forall_mem_cons.mpr ⟨hvalue value, htail (by decide) (by decide) ttl ns⟩⟩
  cases r with
  | get key ns => exact hkey key ns
  | set key value ttlSecs ns => exact hset key value ttlSecs ns
  | delete key ns => exact hkey key ns
  | ping => exact List.forall_mem_nil _
  | auth token => exact List.forall_mem_singleton.mpr (htext token)
  | watch key ns => exact hkey key ns
  | unwatch key ns => exact hkey key ns
  | deleteByPattern pattern ns => exact hkey pattern ns
  | setTtlByPattern pattern ttlSecs ns =>
      exact List.forall_mem_cons.mpr ⟨htext pattern, htail (by decide) (by decide) ttlSecs ns⟩
  | setNx key value ttlSecs ns => exact hset key value ttlSecs ns
  | incr key delta ttlSecsOnCreate ns =>
      exact List.forall_mem_cons.mpr ⟨htext key, List.forall_mem_append.mpr
        ⟨ordinary_deltaSlots (by decide) delta, htail (by decide) (by decide) ttlSecsOnCreate ns⟩⟩

/-- The number of the field with the namespace. -/
def Request.nsNumber : Request → ℕ
  | .set _ _ _ _ => 4
  | .setTtlByPattern _ _ _ => 3
  | .setNx _ _ _ _ => 4
  | .incr _ _ _ _ => 4
  | _ => 2

theorem Request.mem_slots_ns {n : String} (h : n ∈ r.ns) :
    Slot.message r.nsNumber (encodeMessage [textSlot 1 n]) ∈ r.slots := by
  have hmem : ∀ k, Slot.message k (encodeMessage [textSlot 1 n]) ∈ namespaceSlots k r.ns := by
    rw [Option.mem_def.mp h]
    exact fun k => List.mem_singleton_self _
  have htail : ∀ (s : Slot) (l : List Slot) (k : ℕ),
      Slot.message k (encodeMessage [textSlot 1 n]) ∈ s :: (l ++ namespaceSlots k r.ns) :=
    fun s l k => List.mem_cons_of_mem _ (List.mem_append_right _ (hmem k))
  cases r with
  | get key ns => exact htail _ [] 2
  | set key value ttlSecs ns => exact htail _ (.bytes 2 value :: ttlSlots 3 ttlSecs) 4
  | delete key ns => exact htail _ [] 2
  | ping => cases h
  | auth token => cases h
  | watch key ns => exact htail _ [] 2
  | unwatch key ns => exact htail _ [] 2
  | deleteByPattern pattern ns => exact htail _ [] 2
  | setTtlByPattern pattern ttlSecs ns => exact htail _ (ttlSlots 2 ttlSecs) 3
  | setNx key value ttlSecs ns => exact htail _ (.bytes 2 value :: ttlSlots 3 ttlSecs) 4
  | incr key delta ttlSecsOnCreate ns =>
      have h4 := htail (textSlot 1 key) (deltaSlots 2 delta ++ ttlSlots 3 ttlSecsOnCreate) 4
      rw [List.append_assoc] at h4
      exact h4

/-- The wrapper of a namespace is no longer than the message. -/
theorem Request.length_ns_le {n : String} (h : n ∈ r.ns) :
    (encodeMessage [textSlot 1 n]).length ≤ (encodeMessage r.slots).length :=
  length_le_encodeMessage (r.mem_slots_ns h) rfl rfl

/-- The message of a request is read as the request. -/
theorem readInner_eq (httl : ∀ t ∈ r.ttl, 0 ≤ t ∧ t < 2 ^ 64)
    (hdelta : ∀ d ∈ r.delta, -2 ^ 63 ≤ d ∧ d < 2 ^ 63)
    (hlen : (encodeMessage r.slots).length < 2 ^ 64) :
    ∃ read, clientVariants r.variant = some read ∧ read (written r.slots) = .ok r := by
  have hns : ∀ s ∈ r.ns, (encodeMessage [textSlot 1 s]).length < 2 ^ 64 := fun s hs =>
    (Request.length_ns_le hs).trans_lt hlen
  cases r with
  | get key ns => exact ⟨_, rfl, readKeyNamespace_eq key .get hns⟩
  | set key value ttlSecs ns => exact ⟨_, rfl, readSetRequest_eq key value .set httl hns⟩
  | delete key ns => exact ⟨_, rfl, readKeyNamespace_eq key .delete hns⟩
  | ping => exact ⟨_, rfl, rfl⟩
  | auth token =>
      refine ⟨_, rfl, ?_⟩
      change (lastOf (bytesAt 1 pythonDialect.text) "" (written [textSlot 1 token]) >>= _) = _
      rw [lastOf_text]
      rfl
  | watch key ns => exact ⟨_, rfl, readKeyNamespace_eq key .watch hns⟩
  | unwatch key ns => exact ⟨_, rfl, readKeyNamespace_eq key .unwatch hns⟩
  | deleteByPattern pattern ns => exact ⟨_, rfl, readKeyNamespace_eq pattern .deleteByPattern hns⟩
  | setTtlByPattern pattern ttlSecs ns =>
      exact ⟨_, rfl, readSetTtlByPatternRequest_eq pattern httl hns⟩
  | setNx key value ttlSecs ns => exact ⟨_, rfl, readSetRequest_eq key value .setNx httl hns⟩
  | incr key delta ttlSecsOnCreate ns => exact ⟨_, rfl, readIncrRequest_eq key hdelta httl hns⟩

/-- The canonical envelope of a request is read as version 1 and the request, if its variant is
known. -/
theorem readEnvelope_envelope {variants : Variants}
    (hknown : variants r.variant = clientVariants r.variant) (httl : ∀ t ∈ r.ttl, 0 ≤ t ∧ t < 2 ^ 64)
    (hdelta : ∀ d ∈ r.delta, -2 ^ 63 ≤ d ∧ d < 2 ^ 63) (hlen : r.envelope.length < 2 ^ 64) :
    readEnvelope variants r.envelope = .ok (1, r) := by
  have hk : r.variant < 2 ^ 28 := r.variant_le.trans_lt (by decide)
  have hrequest := r.length_request_le
  have hinner := r.length_slots_le
  have henv : readFields r.envelope = .ok [⟨1, .varint 1⟩,
      ⟨2, .bytes (encodeMessage [.message r.variant (encodeMessage r.slots)])⟩] := by
    refine readFields_encodeMessage (List.forall_mem_cons.mpr ⟨⟨?_, Or.inr ⟨1, ?_, rfl⟩⟩,
      List.forall_mem_singleton.mpr ⟨?_, Or.inl ⟨_, rfl⟩⟩⟩) hlen
    · exact Nat.one_lt_two_pow (by decide)
    · decide
    · exact (by decide : 2 < 2 ^ 28)
  have hvariant : readFields (encodeMessage [.message r.variant (encodeMessage r.slots)]) =
      .ok [⟨r.variant, .bytes (encodeMessage r.slots)⟩] :=
    readFields_encodeMessage (List.forall_mem_singleton.mpr ⟨hk, Or.inl ⟨_, rfl⟩⟩) (by omega)
  have hfields := readFields_encodeMessage r.ordinary (by omega)
  obtain ⟨read, hread, hr⟩ := readInner_eq httl hdelta (by omega)
  have hresult : readVariant variants
      (encodeMessage [.message r.variant (encodeMessage r.slots)]) = .ok r := by
    rw [readVariant, hvariant]
    change (match variants r.variant with
      | some read => readFields (encodeMessage r.slots) >>= read
      | none => .error (.malformed "unknown variant")) = .ok r
    rw [hknown, hread]
    change readFields (encodeMessage r.slots) >>= read = .ok r
    rw [hfields]
    exact hr
  rw [readEnvelope, henv]
  change (readVariant variants
    (encodeMessage [.message r.variant (encodeMessage r.slots)]) >>= fun r => .ok (1, r)) = _
  rw [hresult]
  rfl

end Requests

end Wire

end DittoClient
