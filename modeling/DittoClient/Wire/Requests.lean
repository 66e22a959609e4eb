import DittoClient.Wire.RequestEncoder
import DittoClient.Wire.Server

/-!
# Canonical requests

`Request.content` is what is written of a request: a lifetime that is not positive and a blank
namespace are left out. The frame of a request holds the canonical encoding of its content.
An encoder that writes varints and lengths canonically up to a bound writes this frame
(`Exact.encode`), and all five encoders do so.
-/

namespace DittoClient

namespace Wire

open DittoClient.Octets
open DittoClient.Protobuf
open DittoClient.Text

/-- What an operation is about. -/
inductive Subject
  | key
  | pattern
  deriving DecidableEq, Repr

namespace Request

/-- The lifetime in a request. -/
def ttl : Request → Option ℤ
  | .set _ _ ttlSecs _ => ttlSecs
  | .setTtlByPattern _ ttlSecs _ => ttlSecs
  | .setNx _ _ ttlSecs _ => ttlSecs
  | .incr _ _ ttlSecsOnCreate _ => ttlSecsOnCreate
  | _ => none

/-- The increment in a request. -/
def delta : Request → Option ℤ
  | .incr _ delta _ _ => delta
  | _ => none

/-- The namespace in a request. -/
def ns : Request → Option String
  | .get _ ns => ns
  | .set _ _ _ ns => ns
  | .delete _ ns => ns
  | .watch _ ns => ns
  | .unwatch _ ns => ns
  | .deleteByPattern _ ns => ns
  | .setTtlByPattern _ _ ns => ns
  | .setNx _ _ _ ns => ns
  | .incr _ _ _ ns => ns
  | _ => none

/-- The text in a request: a key, a pattern or a token. -/
def text : Request → String
  | .get key _ => key
  | .set key _ _ _ => key
  | .delete key _ => key
  | .ping => ""
  | .auth token => token
  | .watch key _ => key
  | .unwatch key _ => key
  | .deleteByPattern pattern _ => pattern
  | .setTtlByPattern pattern _ _ => pattern
  | .setNx key _ _ _ => key
  | .incr key _ _ _ => key

/-- What the text in a request is, unless it is a token. -/
def subject : Request → Option Subject
  | .ping => none
  | .auth _ => none
  | .deleteByPattern _ _ => some .pattern
  | .setTtlByPattern _ _ _ => some .pattern
  | _ => some .key

/-- A request with its lifetime and its namespace changed. -/
def change (f : Option ℤ → Option ℤ) (g : Option String → Option String) : Request → Request
  | .get key ns => .get key (g ns)
  | .set key value ttlSecs ns => .set key value (f ttlSecs) (g ns)
  | .delete key ns => .delete key (g ns)
  | .ping => .ping
  | .auth token => .auth token
  | .watch key ns => .watch key (g ns)
  | .unwatch key ns => .unwatch key (g ns)
  | .deleteByPattern pattern ns => .deleteByPattern pattern (g ns)
  | .setTtlByPattern pattern ttlSecs ns => .setTtlByPattern pattern (f ttlSecs) (g ns)
  | .setNx key value ttlSecs ns => .setNx key value (f ttlSecs) (g ns)
  | .incr key delta ttlSecsOnCreate ns => .incr key delta (f ttlSecsOnCreate) (g ns)

/-- What is written of a request. -/
def content (space : Char → Bool) : Request → Request :=
  change (Option.filter fun t => decide (0 < t)) (Option.filter fun ns => !blank space ns)

/-- The field number of the variant. -/
def variant : Request → ℕ
  | .get _ _ => 1
  | .set _ _ _ _ => 2
  | .delete _ _ => 3
  | .ping => 4
  | .auth _ => 5
  | .watch _ _ => 6
  | .unwatch _ _ => 7
  | .deleteByPattern _ _ => 8
  | .setTtlByPattern _ _ _ => 9
  | .setNx _ _ _ _ => 10
  | .incr _ _ _ _ => 11

end Request

/-- A namespace in its wrapper message. -/
def namespaceSlots (k : ℕ) : Option String → List Slot
  | none => []
  | some ns => [.message k (encodeMessage [textSlot 1 ns])]

/-- A lifetime in its wrapper message. -/
def ttlSlots (k : ℕ) : Option ℤ → List Slot
  | none => []
  | some t => [.message k (encodeMessage [.uint 1 t.toNat])]

/-- A signed number, which is there also when it is zero. -/
def deltaSlots (k : ℕ) : Option ℤ → List Slot
  | none => []
  | some d => [⟨⟨k, .varint (bits64 d)⟩, false⟩]

namespace Request

theorem variant_le (r : Request) : r.variant ≤ 11 := by
  cases r <;> exact Nat.le_of_ble_eq_true rfl

/-- The slots of the message of a request. -/
def slots : Request → List Slot
  | .get key ns => textSlot 1 key :: namespaceSlots 2 ns
  | .set key value ttlSecs ns =>
      textSlot 1 key :: .bytes 2 value :: (ttlSlots 3 ttlSecs ++ namespaceSlots 4 ns)
  | .delete key ns => textSlot 1 key :: namespaceSlots 2 ns
  | .ping => []
  | .auth token => [textSlot 1 token]
  | .watch key ns => textSlot 1 key :: namespaceSlots 2 ns
  | .unwatch key ns => textSlot 1 key :: namespaceSlots 2 ns
  | .deleteByPattern pattern ns => textSlot 1 pattern :: namespaceSlots 2 ns
  | .setTtlByPattern pattern ttlSecs ns =>
      textSlot 1 pattern :: (ttlSlots 2 ttlSecs ++ namespaceSlots 3 ns)
  | .setNx key value ttlSecs ns =>
      textSlot 1 key :: .bytes 2 value :: (ttlSlots 3 ttlSecs ++ namespaceSlots 4 ns)
  | .incr key delta ttlSecsOnCreate ns =>
      textSlot 1 key :: (deltaSlots 2 delta ++
        (ttlSlots 3 ttlSecsOnCreate ++ namespaceSlots 4 ns))

/-- The canonical envelope around a request. -/
def envelope (r : Request) : List UInt8 :=
  encodeMessage [.uint 1 1,
    .message 2 (encodeMessage [.message r.variant (encodeMessage r.slots)])]

theorem length_request_le (r : Request) :
    (encodeMessage [.message r.variant (encodeMessage r.slots)]).length ≤ r.envelope.length :=
  length_le_encodeMessage (List.mem_cons_of_mem _ (List.mem_singleton_self _)) rfl rfl

theorem length_slots_le (r : Request) : (encodeMessage r.slots).length ≤
    (encodeMessage [.message r.variant (encodeMessage r.slots)]).length :=
  length_le_encodeMessage (List.mem_singleton_self _) rfl rfl

end Request

/-- A byte string behind its length. -/
def framed (bs : List UInt8) : List UInt8 :=
  bigEndian 4 bs.length ++ bs

/-- An encoder that writes varints below a bound, signed numbers and lengths canonically. -/
structure RequestEncoder.Exact (e : RequestEncoder) (bound : ℕ) : Prop where
  varint : ∀ n < bound, e.varint (n : ℤ) = .ok (encodeVarint n)
  int64 : ∀ d : ℤ, -2 ^ 63 ≤ d → d < 2 ^ 63 → e.int64 d = .ok (encodeVarint (bits64 d))
  lengthPrefix : ∀ len < 2 ^ 32, e.lengthPrefix len = .ok (bigEndian 4 len)

/-- A part of a message whose slots are written, if they are no longer than a bound. -/
def Writes (bound : ℕ) (w : Written) (slots : List Slot) : Prop :=
  (encodeMessage slots).length < bound → w = .ok (encodeMessage slots)

section Writes

variable {bound : ℕ} {w : Written} {ws : List Written} {slots slots' : List Slot}

theorem encodeMessage_append (slots slots' : List Slot) :
    encodeMessage (slots ++ slots') = encodeMessage slots ++ encodeMessage slots' :=
  List.flatMap_append

theorem encodeMessage_singleton {s : Slot} (h : s.default = false) :
    encodeMessage [s] = encodeField s.field := by
  rw [encodeMessage_cons, Slot.encode, h]
  exact List.append_nil _

theorem join_two (bs cs : List UInt8) : join [.ok bs, .ok cs] = .ok (bs ++ cs) := by
  simp only [join]
  exact congrArg (fun cs => Except.ok (bs ++ cs)) (List.append_nil cs)

theorem join_three (bs cs ds : List UInt8) :
    join [.ok bs, .ok cs, .ok ds] = .ok (bs ++ (cs ++ ds)) := by
  rw [join, join_two]
  rfl

theorem writes_nil : Writes bound (.ok []) [] :=
  fun _ => rfl

theorem writes_join_nil : Writes bound (join []) [] :=
  fun _ => rfl

theorem Writes.join_cons (h : Writes bound w slots) (h' : Writes bound (join ws) slots') :
    Writes bound (join (w :: ws)) (slots ++ slots') := by
  intro hlen
  rw [encodeMessage_append, List.length_append] at hlen
  rw [encodeMessage_append, join, h (by omega), h' (by omega)]
  rfl

/-- The same for one slot. -/
theorem Writes.join_cons_slot {s : Slot} (h : Writes bound w [s])
    (h' : Writes bound (join ws) slots') : Writes bound (join (w :: ws)) (s :: slots') :=
  h.join_cons h'

theorem Writes.join_one (h : Writes bound w slots) : Writes bound (join [w]) slots := by
  have hone := h.join_cons writes_join_nil
  rwa [List.append_nil] at hone

end Writes

section Exact

variable {e : RequestEncoder} {bound : ℕ}

theorem utf8Bytes_eq_nil_iff {s : String} : utf8Bytes s = [] ↔ s = "" := by
  constructor
  · intro h
    rw [utf8Bytes, List.flatMap_eq_nil_iff] at h
    rw [← String.toList_eq_nil_iff, List.eq_nil_iff_forall_not_mem]
    intro c hc
    have hlen := String.length_utf8EncodeChar c
    rw [h c hc] at hlen
    exact absurd hlen.symm (Char.utf8Size_pos c).ne'
  · rintro rfl
    rfl

/-- A text is written like its bytes. -/
theorem RequestEncoder.stringField_eq (e : RequestEncoder) (k : ℕ) (s : String) :
    e.stringField k s = e.bytesField k (utf8Bytes s) := by
  simp only [RequestEncoder.stringField, RequestEncoder.bytesField, utf8Bytes_eq_nil_iff]

/-- The envelope of a request is written behind its length. -/
theorem RequestEncoder.encode_of_envelope {r args : Request} {inner env : List UInt8}
    (hargs : e.arguments r = .ok args) (hinner : (e.encodeInner args).2 = .ok inner)
    (henv : e.envelope (e.encodeInner args).1 inner = .ok env) :
    e.encode r = e.lengthPrefix env.length >>= fun len => .ok (len ++ env) := by
  rw [RequestEncoder.encode, hargs]
  change ((e.encodeInner args).2 >>= fun inner =>
    e.wrapClientRequest (e.encodeInner args).1 inner) = _
  rw [hinner]
  change e.wrapClientRequest (e.encodeInner args).1 inner = _
  rw [RequestEncoder.wrapClientRequest, henv]
  rfl

/-- What is kept where parts of a message are written one after the other. -/
structure Joins (R : Written → List Slot → Prop) : Prop where
  nil : R (.ok []) []
  cons : ∀ {w : Written} {ws : List Written} {slots slots' : List Slot}, R w slots →
    R (join ws) slots' → R (join (w :: ws)) (slots ++ slots')

/-- What holds of the fields of a request, and is kept where they are joined, holds of its
message. -/
theorem Joins.encodeInner {R : Written → List Slot → Prop} (hR : Joins R) {r : Request}
    (htext : ∀ s, R (e.stringField 1 s) [textSlot 1 s])
    (hvalue : ∀ bs, R (e.bytesField 2 bs) [.bytes 2 bs])
    (hdelta : R (e.deltaField 2 r.delta) (deltaSlots 2 r.delta))
    (httl : ∀ k < 8, R (e.ttlField k r.ttl) (ttlSlots k (r.ttl.filter fun t => decide (0 < t))))
    (hns : ∀ k < 8, R (e.namespaceField k r.ns)
      (namespaceSlots k (r.ns.filter fun ns => !blank e.space ns))) :
    R (e.encodeInner r).2 (r.content e.space).slots := by
  have hnil : R (join []) [] := hR.nil
  have hone : ∀ {w slots}, R w slots → R (join [w]) slots := fun {w slots} h => by
    have hcons := hR.cons h hnil
    rwa [List.append_nil] at hcons
  have hkey : ∀ {key ns}, R (e.namespaceField 2 ns)
      (namespaceSlots 2 (ns.filter fun ns => !blank e.space ns)) →
      R (e.encodeKeyNamespace key ns)
        (textSlot 1 key :: namespaceSlots 2 (ns.filter fun ns => !blank e.space ns)) :=
    fun h => hR.cons (htext _) (hone h)
  have htail : ∀ {k l ttl ns},
      R (e.ttlField k ttl) (ttlSlots k (ttl.filter fun t => decide (0 < t))) →
      R (e.namespaceField l ns) (namespaceSlots l (ns.filter fun ns => !blank e.space ns)) →
      R (join [e.ttlField k ttl, e.namespaceField l ns])
        (ttlSlots k (ttl.filter fun t => decide (0 < t)) ++
          namespaceSlots l (ns.filter fun ns => !blank e.space ns)) :=
    fun h h' => hR.cons h (hone h')
  cases r with
  | get key ns => exact hkey (hns 2 (by decide))
  | set key value ttlSecs ns =>
      exact hR.cons (htext key) (hR.cons (hvalue value)
        (htail (httl 3 (by decide)) (hns 4 (by decide))))
  | delete key ns => exact hkey (hns 2 (by decide))
  | ping => exact hR.nil
  | auth token => exact htext token
  | watch key ns => exact hkey (hns 2 (by decide))
  | unwatch key ns => exact hkey (hns 2 (by decide))
  | deleteByPattern pattern ns => exact hkey (hns 2 (by decide))
  | setTtlByPattern pattern ttlSecs ns =>
      exact hR.cons (htext pattern) (htail (httl 2 (by decide)) (hns 3 (by decide)))
  | setNx key value ttlSecs ns =>
      exact hR.cons (htext key) (hR.cons (hvalue value)
        (htail (httl 3 (by decide)) (hns 4 (by decide))))
  | incr key delta ttlSecsOnCreate ns =>
      exact hR.cons (htext key) (hR.cons hdelta
        (htail (httl 3 (by decide)) (hns 4 (by decide))))

namespace RequestEncoder.Exact

theorem tag (he : e.Exact bound) {k w : ℕ} (hk : k * 8 + w < bound) :
    e.tag k w = .ok (encodeTag k w) :=
  he.varint _ hk

/-- A length-delimited field is written like the slot of a message. -/
theorem ldFieldAlways (he : e.Exact bound) {k : ℕ} (hk : k * 8 + 2 < bound) (bs : List UInt8) :
    Writes bound (e.ldFieldAlways k bs) [.message k bs] := by
  intro hlen
  have hle : bs.length < bound :=
    (length_le_encodeMessage (List.mem_singleton_self _) rfl rfl).trans_lt hlen
  rw [RequestEncoder.ldFieldAlways, he.tag hk, he.varint _ hle, encodeMessage_singleton rfl]
  exact join_three ..

theorem bytesField (he : e.Exact bound) {k : ℕ} (hk : k * 8 + 2 < bound) (bs : List UInt8) :
    Writes bound (e.bytesField k bs) [.bytes k bs] := by
  intro hlen
  rw [RequestEncoder.bytesField]
  by_cases hbs : bs = []
  · rw [if_pos hbs, hbs]
    rfl
  · have heq : encodeMessage [.bytes k bs] = encodeMessage [.message k bs] := by
      simp [Slot.encode, Slot.bytes, Slot.message, hbs]
    rw [heq] at hlen ⊢
    rw [if_neg hbs, he.ldFieldAlways hk bs hlen]

theorem ldField (he : e.Exact bound) {k : ℕ} (hk : k * 8 + 2 < bound) (bs : List UInt8) :
    Writes bound (e.ldField k bs) [.bytes k bs] :=
  he.bytesField hk bs

theorem stringField (he : e.Exact bound) {k : ℕ} (hk : k * 8 + 2 < bound) (s : String) :
    Writes bound (e.stringField k s) [textSlot k s] := by
  rw [e.stringField_eq]
  exact he.bytesField hk _

theorem uint64Field (he : e.Exact bound) {k n : ℕ} (hk : k * 8 < bound) (hn : n < bound) :
    Writes bound (e.uint64Field k n) [.uint k n] := by
  intro _
  rw [RequestEncoder.uint64Field]
  by_cases hzero : n = 0
  · rw [if_pos (by omega), hzero]
    rfl
  · have hdefault : decide (n = 0) = false := decide_eq_false hzero
    rw [if_neg (by omega), he.tag hk, he.varint n hn, encodeMessage_singleton hdefault]
    exact join_two ..

theorem int64Field (he : e.Exact bound) {k : ℕ} (hk : k * 8 < bound) {d : ℤ}
    (hlo : -2 ^ 63 ≤ d) (hhi : d < 2 ^ 63) :
    Writes bound (e.int64Field k d) [⟨⟨k, .varint (bits64 d)⟩, false⟩] := by
  intro _
  rw [RequestEncoder.int64Field, he.tag hk, he.int64 d hlo hhi, encodeMessage_singleton rfl]
  exact join_two ..

/-- A wrapper message that is not empty. -/
theorem wrapper (he : e.Exact bound) {k : ℕ} (hk : k * 8 + 2 < bound) {w : Written} {s : Slot}
    (hw : Writes bound w [s]) (hdefault : s.default = false) :
    Writes bound (w >>= fun opt => e.ldField k opt) [.message k (encodeMessage [s])] := by
  intro hlen
  have hne : encodeMessage [s] ≠ [] := by
    obtain ⟨⟨l, c⟩, d⟩ := s
    have htag : ∀ w, encodeTag l w ≠ [] := fun w => (encodeVarint_isVarint _).ne_nil
    rw [encodeMessage_singleton hdefault]
    cases c <;> simp [encodeField, varintField, Protobuf.ldField, htag]
  have hle : (encodeMessage [s]).length ≤ (encodeMessage [.message k (encodeMessage [s])]).length :=
    length_le_encodeMessage (List.mem_singleton_self _) rfl rfl
  have heq : Slot.message k (encodeMessage [s]) = Slot.bytes k (encodeMessage [s]) := by
    rw [Slot.message, Slot.bytes, decide_eq_false hne]
  rw [hw (hle.trans_lt hlen)]
  rw [heq] at hlen ⊢
  exact he.ldField hk _ hlen

theorem namespaceField (he : e.Exact bound) {k : ℕ} (hk : k * 8 + 10 < bound)
    (ns : Option String) :
    Writes bound (e.namespaceField k ns)
      (namespaceSlots k (ns.filter fun ns => !blank e.space ns)) := by
  rw [RequestEncoder.namespaceField]
  cases ns with
  | none => exact writes_nil
  | some ns =>
      simp only [RequestEncoder.hasNamespace, Option.filter_some]
      by_cases hb : blank e.space ns
      · simp only [hb]
        exact writes_nil
      · simp only [hb]
        have hne : ns ≠ "" := by
          rintro rfl
          exact hb rfl
        refine he.wrapper (by omega) (he.stringField (by omega) ns) ?_
        exact decide_eq_false (utf8Bytes_eq_nil_iff.not.mpr hne)

theorem ttlField (he : e.Exact bound) {k : ℕ} (hk : k * 8 + 10 < bound) (ttl : Option ℤ)
    (httl : ∀ t ∈ ttl, t < bound) :
    Writes bound (e.ttlField k ttl) (ttlSlots k (ttl.filter fun t => decide (0 < t))) := by
  cases ttl with
  | none => exact writes_nil
  | some t =>
      have ht : t < bound := httl t rfl
      simp only [RequestEncoder.ttlField, Option.filter_some, decide_eq_true_eq]
      by_cases hpos : 0 < t
      · rw [if_pos hpos, if_pos hpos]
        have hnat : ((t.toNat : ℕ) : ℤ) = t := Int.toNat_of_nonneg hpos.le
        have hw := he.uint64Field (k := 1) (n := t.toNat) (by omega) (by omega)
        rw [hnat] at hw
        exact he.wrapper (by omega) hw (decide_eq_false (by omega))
      · rw [if_neg hpos, if_neg hpos]
        exact writes_nil

theorem deltaField (he : e.Exact bound) {k : ℕ} (hk : k * 8 < bound) (delta : Option ℤ)
    (hdelta : ∀ d ∈ delta, -2 ^ 63 ≤ d ∧ d < 2 ^ 63) :
    Writes bound (e.deltaField k delta) (deltaSlots k delta) := by
  cases delta with
  | none => exact writes_nil
  | some d => exact he.int64Field hk (hdelta d rfl).1 (hdelta d rfl).2

theorem encodeInner_fst (r : Request) : (e.encodeInner r).1 = r.variant := by
  cases r <;> rfl

/-- The message of a request holds what is written of the request. -/
theorem encodeInner (he : e.Exact bound) (hbound : 2 ^ 7 ≤ bound) {r : Request}
    (httl : ∀ t ∈ r.ttl, t < bound) (hdelta : ∀ d ∈ r.delta, -2 ^ 63 ≤ d ∧ d < 2 ^ 63) :
    Writes bound (e.encodeInner r).2 (r.content e.space).slots := by
  have hjoins : Joins (Writes bound) := ⟨writes_nil, fun h h' => h.join_cons h'⟩
  refine hjoins.encodeInner (he.stringField (by omega)) (he.bytesField (by omega))
    (he.deltaField (by omega) r.delta hdelta) (fun k hk => ?_) fun k hk => ?_
  · exact he.ttlField (by omega) r.ttl httl
  · exact he.namespaceField (by omega) r.ns

theorem envelope (he : e.Exact bound) (hbound : 2 ^ 7 ≤ bound) {k : ℕ} (hk : k * 8 + 2 < bound)
    (bs : List UInt8) : Writes bound (e.envelope k bs)
      [.uint 1 1, .message 2 (encodeMessage [.message k bs])] := by
  intro hlen
  have hle : (encodeMessage [.message k bs]).length ≤
      (encodeMessage [.uint 1 1, .message 2 (encodeMessage [.message k bs])]).length :=
    length_le_encodeMessage (List.mem_cons_of_mem _ (List.mem_singleton_self _)) rfl rfl
  rw [RequestEncoder.envelope, he.ldFieldAlways hk bs (hle.trans_lt hlen)]
  exact (he.uint64Field (n := 1) (by omega) (by omega)).join_cons_slot
    (he.ldFieldAlways (by omega) _).join_one hlen

/-- The canonical envelope of a request is written, behind its length. -/
theorem encode_eq (he : e.Exact bound) (hbound : 2 ^ 7 ≤ bound) {r args : Request}
    (hargs : e.arguments r = .ok args) (httl : ∀ t ∈ args.ttl, t < bound)
    (hdelta : ∀ d ∈ args.delta, -2 ^ 63 ≤ d ∧ d < 2 ^ 63)
    (hlen : (args.content e.space).envelope.length < bound) :
    e.encode r = e.lengthPrefix (args.content e.space).envelope.length >>= fun len =>
      .ok (len ++ (args.content e.space).envelope) := by
  have hvariant : (args.content e.space).variant = args.variant := by
    cases args <;> rfl
  have hk := args.variant_le
  have hrequest := (args.content e.space).length_request_le
  have hinner := (args.content e.space).length_slots_le
  have hwrite := he.encodeInner (by omega) httl hdelta (by omega)
  have henv : e.envelope args.variant (encodeMessage (args.content e.space).slots) =
      .ok (args.content e.space).envelope := by
    have henv := he.envelope (k := args.variant) (by omega) (by omega)
      (encodeMessage (args.content e.space).slots)
    rw [← hvariant] at henv ⊢
    exact henv hlen
  exact RequestEncoder.encode_of_envelope hargs hwrite (by rw [encodeInner_fst, henv])

/-- A request whose envelope fits in a frame is written canonically. -/
theorem encode (he : e.Exact bound) (hbound : 2 ^ 32 ≤ bound) {r args : Request}
    (hargs : e.arguments r = .ok args) (httl : ∀ t ∈ args.ttl, t < bound)
    (hdelta : ∀ d ∈ args.delta, -2 ^ 63 ≤ d ∧ d < 2 ^ 63)
    (hlen : (args.content e.space).envelope.length < 2 ^ 32) :
    e.encode r = .ok (framed (args.content e.space).envelope) := by
  rw [he.encode_eq (by omega) hargs httl hdelta (hlen.trans_le hbound), he.lengthPrefix _ hlen]
  rfl

end RequestEncoder.Exact

end Exact

end Wire

end DittoClient
