import DittoClient.Protobuf.Lookup
import DittoClient.Wire.RequestRoundTrip

/-!
# What a frame delivers

A frame delivers the message of a request to a reader that takes it apart: the envelope behind
the length has a request in it, and the request a variant. The encoders of Python and Node.js,
which have unbounded integers, write the canonical envelope of every request, whatever its
numbers are (`encode_eq_ok_iff`), and the message that it delivers holds the texts and numbers of
the request.
-/

namespace DittoClient

namespace Wire

open DittoClient.Octets
open DittoClient.Protobuf
open DittoClient.Text

/-- The frame leads to the message of the variant `k`. -/
def Delivers (F : Format) (frame : List UInt8) (k : ℕ) (inner : List UInt8) : Prop :=
  ∃ env request, frame = framed env ∧ Holds F 2 (.bytes request) env ∧
    Holds F k (.bytes inner) request

theorem framed_inj {bs cs : List UInt8} (h : framed bs = framed cs) : bs = cs :=
  (List.append_inj h ((length_bigEndian 4 _).trans (length_bigEndian 4 _).symm)).2

/-- The clients with unbounded integers. -/
inductive Unbounded
  | python
  | node
  deriving DecidableEq, Repr

namespace Unbounded

def encoder : Unbounded → RequestEncoder
  | .python => pythonEncoder
  | .node => nodeEncoder

/-- What a frame of the client says about a request. -/
def content : Unbounded → Request → Request
  | .python, r => r.pythonContent
  | .node, r => r.content nodeSpace

theorem exact (u : Unbounded) (bound : ℕ) : u.encoder.Exact bound := by
  cases u with
  | python => exact python_exact bound
  | node => exact node_exact bound

theorem arguments (u : Unbounded) (r : Request) :
    ∃ args, u.encoder.arguments r = .ok args ∧ args.content u.encoder.space = u.content r ∧
      (∀ t ∈ args.ttl, t ∈ r.ttl ∨ t = 0) ∧ ∀ d ∈ args.delta, d ∈ r.delta ∨ d = 1 := by
  cases u with
  | python => exact python_arguments r
  | node =>
      refine ⟨r, ?_, rfl, fun t => Or.inl, fun d => Or.inl⟩
      cases r <;> rfl

end Unbounded

/-- The increment that a 64-bit reader takes an increment for. -/
def wrapped64 (d : ℤ) : ℤ :=
  signed64 (bits64 d)

theorem wrapped64_inRange (d : ℤ) : -2 ^ 63 ≤ wrapped64 d ∧ wrapped64 d < 2 ^ 63 := by
  unfold wrapped64 signed64 bits64
  split <;> omega

theorem wrapped64_emod (d : ℤ) : wrapped64 d % 2 ^ 64 = d % 2 ^ 64 := by
  unfold wrapped64 signed64 bits64
  split <;> omega

theorem bits64_wrapped64 (d : ℤ) : bits64 (wrapped64 d) = bits64 d := by
  rw [bits64, wrapped64_emod, bits64]

namespace Request

/-- The request with an increment of 64 bits. -/
def wrap : Request → Request
  | .incr key delta ttlSecsOnCreate ns => .incr key (delta.map wrapped64) ttlSecsOnCreate ns
  | r => r

theorem wrap_ttl (r : Request) : r.wrap.ttl = r.ttl := by
  cases r <;> rfl

theorem wrap_delta_inRange (r : Request) : ∀ d ∈ r.wrap.delta, -2 ^ 63 ≤ d ∧ d < 2 ^ 63 := by
  intro d hd
  cases r with
  | incr key delta ttlSecsOnCreate ns =>
      obtain ⟨d', -, rfl⟩ := Option.mem_map.mp hd
      exact wrapped64_inRange d'
  | _ => cases hd

end Request

namespace Unbounded

variable (u : Unbounded) (r : Request)

theorem int64_wrapped64 (d : ℤ) : u.encoder.int64 (wrapped64 d) = u.encoder.int64 d := by
  cases u <;> exact congrArg unboundedVarint (wrapped64_emod d)

/-- The encoders see an increment only up to multiples of 2^64. -/
theorem encode_wrap : u.encoder.encode r.wrap = u.encoder.encode r := by
  have hfield : ∀ d, u.encoder.int64Field 2 (wrapped64 d) = u.encoder.int64Field 2 d := fun d => by
    rw [RequestEncoder.int64Field, RequestEncoder.int64Field, int64_wrapped64]
  cases r with
  | incr key delta ttlSecsOnCreate ns =>
      cases delta with
      | none => rfl
      | some d =>
          have hinner : ∀ ttl, u.encoder.encodeIncrRequest key (some (wrapped64 d)) ttl ns =
              u.encoder.encodeIncrRequest key (some d) ttl ns := fun ttl => by
            rw [RequestEncoder.encodeIncrRequest, RequestEncoder.encodeIncrRequest,
              RequestEncoder.deltaField, RequestEncoder.deltaField, hfield]
          cases u <;> exact congrArg (· >>= RequestEncoder.wrapClientRequest _ 11) (hinner _)
  | _ => rfl

theorem envelope_wrap : (u.content r.wrap).envelope = (u.content r).envelope := by
  have hslots : ∀ key d ttl ns, (Request.incr key (some (wrapped64 d)) ttl ns).envelope =
      (Request.incr key (some d) ttl ns).envelope := by
    intro key d ttl ns
    simp only [Request.envelope, Request.slots, deltaSlots, bits64_wrapped64, Request.variant]
  cases r with
  | incr key delta ttlSecsOnCreate ns =>
      cases delta with
      | none => rfl
      | some d => cases u <;> exact hslots ..
  | _ => rfl

/-- A request with numbers of any size is written canonically, behind a length that has to
fit. -/
theorem encode_eq : u.encoder.encode r = checkedPrefix (u.content r).envelope.length >>= fun len =>
    .ok (len ++ (u.content r).envelope) := by
  obtain ⟨args, hargs, hcontent, httl, hdelta⟩ := u.arguments r.wrap
  have hbound : ∀ t ∈ args.ttl, t < ((2 ^ 7 + (r.ttl.getD 0).toNat +
      (u.content r).envelope.length + 1 : ℕ) : ℤ) := by
    intro t ht
    rcases httl t ht with ht | rfl
    · rw [Request.wrap_ttl, Option.mem_def] at ht
      rw [ht, Option.getD_some]
      omega
    · omega
  have hrange : ∀ d ∈ args.delta, -2 ^ 63 ≤ d ∧ d < 2 ^ 63 := by
    intro d hd
    rcases hdelta d hd with hd | rfl
    · exact r.wrap_delta_inRange d hd
    · decide
  have henv : (args.content u.encoder.space).envelope = (u.content r).envelope := by
    rw [hcontent, envelope_wrap]
  have hencode := (u.exact _).encode_eq (by omega) hargs hbound hrange (by rw [henv]; omega)
  have hprefix : u.encoder.lengthPrefix = checkedPrefix := by
    cases u <;> exact rfl
  rw [henv, encode_wrap, hprefix] at hencode
  exact hencode

/-- The frame is the canonical envelope behind its length, if the length fits. -/
theorem encode_eq_ok_iff {frame : List UInt8} : u.encoder.encode r = .ok frame ↔
    (u.content r).envelope.length < 2 ^ 32 ∧ frame = framed (u.content r).envelope := by
  rw [encode_eq, checkedPrefix]
  by_cases hlen : (u.content r).envelope.length < 2 ^ 32
  · rw [if_pos hlen]
    constructor
    · intro h
      exact ⟨hlen, (Except.ok.inj h).symm⟩
    · rintro ⟨-, rfl⟩
      rfl
  · rw [if_neg hlen]
    constructor
    · intro h
      cases h
    · rintro ⟨h, -⟩
      exact absurd h hlen

end Unbounded

section Lookup

variable {r : Request} {F : Format}

/-- The canonical frame of a request delivers its message. -/
theorem delivers_envelope (hF : F.Standard) (hlen : r.envelope.length < 2 ^ 64) :
    Delivers F (framed r.envelope) r.variant (encodeMessage r.slots) := by
  have hk : r.variant < 2 ^ 28 := r.variant_le.trans_lt (by decide)
  have hrequest := r.length_request_le
  refine ⟨_, _, rfl, ?_, hF.holds_message hk (by omega)⟩
  refine hF.holds (List.forall_mem_cons.mpr ⟨?_, List.forall_mem_singleton.mpr ?_⟩) hlen rfl
  · exact ⟨Nat.one_lt_two_pow (by decide), Or.inr (by decide : 1 < 2 ^ 64)⟩
  · exact ⟨(by decide : 2 < 2 ^ 28), Or.inl ⟨_, rfl⟩⟩

/-- A frame delivers one message. -/
theorem Delivers.unique {frame inner inner' : List UInt8} {k : ℕ} (h : Delivers F frame k inner)
    (h' : Delivers F frame k inner') : inner = inner' := by
  obtain ⟨env, request, rfl, hrequest, hinner⟩ := h
  obtain ⟨env', request', hframe, hrequest', hinner'⟩ := h'
  obtain rfl := framed_inj hframe
  cases hrequest.unique hrequest'
  cases hinner.unique hinner'
  rfl

theorem length_slots_lt (hlen : r.envelope.length < 2 ^ 64) :
    (encodeMessage r.slots).length < 2 ^ 64 :=
  (r.length_slots_le.trans r.length_request_le).trans_lt hlen

theorem Request.nodup_numbers (r : Request) : (numbers r.slots).Nodup := by
  have hns : ∀ k ns, (numbers (namespaceSlots k ns)).Sublist [k] := fun k ns => by
    cases ns with
    | none => exact List.nil_sublist _
    | some ns => exact List.Sublist.refl _
  have httl : ∀ k ttl, (numbers (ttlSlots k ttl)).Sublist [k] := fun k ttl => by
    cases ttl with
    | none => exact List.nil_sublist _
    | some ttl => exact List.Sublist.refl _
  have hdelta : ∀ k delta, (numbers (deltaSlots k delta)).Sublist [k] := fun k delta => by
    cases delta with
    | none => exact List.nil_sublist _
    | some delta => exact List.Sublist.refl _
  have happend : ∀ l l' : List Slot, numbers (l ++ l') = numbers l ++ numbers l' :=
    fun l l' => List.map_append
  have hkey : ∀ key ns, (numbers (textSlot 1 key :: namespaceSlots 2 ns)).Nodup :=
    fun key ns => ((hns 2 ns).cons_cons 1).nodup (by decide)
  have hset : ∀ key value ttl ns, (numbers (textSlot 1 key :: .bytes 2 value ::
      (ttlSlots 3 ttl ++ namespaceSlots 4 ns))).Nodup := fun key value ttl ns => by
    have hsub := (((httl 3 ttl).append (hns 4 ns)).cons_cons 2).cons_cons 1
    rw [← happend] at hsub
    exact hsub.nodup (by decide)
  cases r with
  | get key ns => exact hkey key ns
  | set key value ttlSecs ns => exact hset key value ttlSecs ns
  | delete key ns => exact hkey key ns
  | ping => exact List.nodup_nil
  | auth token => exact List.nodup_singleton 1
  | watch key ns => exact hkey key ns
  | unwatch key ns => exact hkey key ns
  | deleteByPattern pattern ns => exact hkey pattern ns
  | setTtlByPattern pattern ttlSecs ns =>
      have hsub := ((httl 2 ttlSecs).append (hns 3 ns)).cons_cons 1
      rw [← happend] at hsub
      exact hsub.nodup (by decide)
  | setNx key value ttlSecs ns => exact hset key value ttlSecs ns
  | incr key delta ttlSecsOnCreate ns =>
      have hsub := ((hdelta 2 delta).append ((httl 3 ttlSecsOnCreate).append (hns 4 ns))).cons_cons 1
      rw [← happend, ← happend] at hsub
      exact hsub.nodup (by decide)

/-- The message of a request holds its slots. -/
theorem Request.holds (hF : F.Standard) (hlen : r.envelope.length < 2 ^ 64) {s : Slot}
    (hs : s ∈ r.slots) (hdefault : s.default = false) :
    Holds F s.field.number s.field.content (encodeMessage r.slots) := by
  refine hF.holds (fun s hs => (r.ordinary s hs).small) (length_slots_lt hlen) ?_
  rw [fieldsAt_of_mem r.nodup_numbers hs, written_cons, hdefault]
  rfl

theorem Request.lacks (hF : F.Standard) (hlen : r.envelope.length < 2 ^ 64) {k : ℕ}
    (hk : k ∉ numbers r.slots) : Lacks F k (encodeMessage r.slots) :=
  hF.lacks (fun s hs => (r.ordinary s hs).small) (length_slots_lt hlen) (fieldsAt_of_not_mem hk)

end Lookup

namespace Request

/-- The number of the field with the lifetime. -/
def ttlNumber : Request → ℕ
  | .setTtlByPattern _ _ _ => 2
  | _ => 3

theorem mem_slots_text {r : Request} (h : r ≠ .ping) : textSlot 1 r.text ∈ r.slots := by
  cases r with
  | ping => exact absurd rfl h
  | _ => exact List.mem_cons_self ..

theorem nsNumber_not_mem {r : Request} (h : r.ns = none) : r.nsNumber ∉ numbers r.slots := by
  have hplain : ∀ {key : String} {ns : Option String}, ns = none →
      2 ∉ numbers (textSlot 1 key :: namespaceSlots 2 ns) := by
    rintro key ns rfl
    exact (by decide : 2 ∉ [1])
  have hset : ∀ {key : String} {value : List UInt8} {ttl : Option ℤ} {ns : Option String},
      ns = none → 4 ∉ numbers (textSlot 1 key :: .bytes 2 value ::
        (ttlSlots 3 ttl ++ namespaceSlots 4 ns)) := by
    rintro key value ttl ns rfl
    cases ttl with
    | none => exact (by decide : 4 ∉ [1, 2])
    | some t => exact (by decide : 4 ∉ [1, 2, 3])
  cases r with
  | ping => exact List.not_mem_nil
  | auth token => exact (by decide : 2 ∉ [1])
  | set key value ttlSecs ns => exact hset h
  | setTtlByPattern pattern ttlSecs ns =>
      obtain rfl : ns = none := h
      cases ttlSecs with
      | none => exact (by decide : 3 ∉ [1])
      | some t => exact (by decide : 3 ∉ [1, 2])
  | setNx key value ttlSecs ns => exact hset h
  | incr key delta ttlSecsOnCreate ns =>
      obtain rfl : ns = none := h
      cases delta with
      | none =>
          cases ttlSecsOnCreate with
          | none => exact (by decide : 4 ∉ [1])
          | some t => exact (by decide : 4 ∉ [1, 3])
      | some d =>
          cases ttlSecsOnCreate with
          | none => exact (by decide : 4 ∉ [1, 2])
          | some t => exact (by decide : 4 ∉ [1, 2, 3])
  | _ => exact hplain h

/-- The text is found, unless it is empty. -/
theorem holds_text {F : Format} {r : Request} (hF : F.Standard)
    (hlen : r.envelope.length < 2 ^ 64) (hne : r.text ≠ "") :
    Holds F 1 (.bytes (utf8Bytes r.text)) (encodeMessage r.slots) := by
  have hping : r ≠ .ping := by
    rintro rfl
    exact hne rfl
  have hdefault : (textSlot 1 r.text).default = false :=
    decide_eq_false (utf8Bytes_eq_nil_iff.not.mpr hne)
  exact Request.holds hF hlen (mem_slots_text hping) hdefault

/-- The namespace is found in its wrapper. -/
theorem holds_ns {F : Format} {r : Request} (hF : F.Standard) (hlen : r.envelope.length < 2 ^ 64)
    {n : String} (h : n ∈ r.ns) (hne : n ≠ "") :
    Holds F r.nsNumber (.bytes (encodeMessage [textSlot 1 n])) (encodeMessage r.slots) ∧
      Holds F 1 (.bytes (utf8Bytes n)) (encodeMessage [textSlot 1 n]) := by
  have hdefault : (textSlot 1 n).default = false :=
    decide_eq_false (utf8Bytes_eq_nil_iff.not.mpr hne)
  refine ⟨Request.holds hF hlen (r.mem_slots_ns h) rfl, ?_⟩
  refine hF.holds (List.forall_mem_singleton.mpr ⟨Nat.one_lt_two_pow (by decide), Or.inl ⟨_, rfl⟩⟩)
    ((r.length_ns_le h).trans_lt (length_slots_lt hlen)) ?_
  rw [written_cons, hdefault]
  rfl

theorem mem_slots_delta {r : Request} {d : ℤ} (h : d ∈ r.delta) :
    (⟨⟨2, .varint (bits64 d)⟩, false⟩ : Slot) ∈ r.slots := by
  cases r with
  | incr key delta ttlSecsOnCreate ns =>
      obtain rfl := Option.mem_def.mp h
      exact List.mem_cons_of_mem _ (List.mem_cons_self ..)
  | _ => cases h

theorem mem_slots_ttl {r : Request} {t : ℤ} (h : t ∈ r.ttl) :
    Slot.message r.ttlNumber (encodeMessage [.uint 1 t.toNat]) ∈ r.slots := by
  have hmem : ∀ {k : ℕ} {slots : List Slot}, Slot.message k (encodeMessage [.uint 1 t.toNat]) ∈
      ttlSlots k r.ttl ++ slots := by
    intro k slots
    rw [Option.mem_def.mp h]
    exact List.mem_cons_self ..
  cases r with
  | set key value ttlSecs ns => exact List.mem_cons_of_mem _ (List.mem_cons_of_mem _ hmem)
  | setTtlByPattern pattern ttlSecs ns => exact List.mem_cons_of_mem _ hmem
  | setNx key value ttlSecs ns => exact List.mem_cons_of_mem _ (List.mem_cons_of_mem _ hmem)
  | incr key delta ttlSecsOnCreate ns =>
      exact List.mem_cons_of_mem _ (List.mem_append_right _ hmem)
  | _ => cases h

end Request

end Wire

end DittoClient
