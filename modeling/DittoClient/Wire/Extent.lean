import DittoClient.Protobuf.Size
import DittoClient.Wire.Requests

/-!
# The length of a request

How many bytes the envelope of a request has, from the lengths of its texts and its value and
from the sizes of its numbers.
-/

namespace DittoClient

namespace Wire

open DittoClient.Protobuf

/-- The number of bytes of a text field. -/
def textSize (s : String) : ℕ :=
  filledSize (utf8Bytes s).length

/-- The number of bytes of a namespace in its wrapper message. -/
def namespaceSize : Option String → ℕ
  | none => 0
  | some ns => fieldSize (textSize ns)

/-- The number of bytes of a lifetime in its wrapper message. -/
def ttlSize : Option ℤ → ℕ
  | none => 0
  | some t => fieldSize (if t.toNat = 0 then 0 else 1 + varintSize t.toNat)

/-- The number of bytes of an increment. -/
def deltaSize : Option ℤ → ℕ
  | none => 0
  | some d => 1 + varintSize (bits64 d)

namespace Request

/-- The number of bytes of the message of a request. -/
def size : Request → ℕ
  | .get key ns => textSize key + namespaceSize ns
  | .set key value ttlSecs ns =>
      textSize key + (filledSize value.length + (ttlSize ttlSecs + namespaceSize ns))
  | .delete key ns => textSize key + namespaceSize ns
  | .ping => 0
  | .auth token => textSize token
  | .watch key ns => textSize key + namespaceSize ns
  | .unwatch key ns => textSize key + namespaceSize ns
  | .deleteByPattern pattern ns => textSize pattern + namespaceSize ns
  | .setTtlByPattern pattern ttlSecs ns => textSize pattern + (ttlSize ttlSecs + namespaceSize ns)
  | .setNx key value ttlSecs ns =>
      textSize key + (filledSize value.length + (ttlSize ttlSecs + namespaceSize ns))
  | .incr key delta ttlSecsOnCreate ns =>
      textSize key + (deltaSize delta + (ttlSize ttlSecsOnCreate + namespaceSize ns))

/-- The number of bytes of the envelope of a request. -/
def extent (r : Request) : ℕ :=
  2 + fieldSize (fieldSize r.size)

end Request

variable {k : ℕ}

theorem length_text (hk : k < 16) (s : String) : (textSlot k s).encode.length = textSize s :=
  length_encode_bytes hk _

theorem length_namespaceSlots (hk : k < 16) (ns : Option String) :
    (encodeMessage (namespaceSlots k ns)).length = namespaceSize ns := by
  cases ns with
  | none => rfl
  | some ns =>
      have hinner : (encodeMessage [textSlot 1 ns]).length = textSize ns := by
        rw [encodeMessage_cons, List.length_append, length_text (by decide)]
        rfl
      rw [namespaceSlots, encodeMessage_cons, List.length_append, length_encode_message hk, hinner]
      rfl

theorem length_ttlSlots (hk : k < 16) (ttl : Option ℤ) :
    (encodeMessage (ttlSlots k ttl)).length = ttlSize ttl := by
  cases ttl with
  | none => rfl
  | some t =>
      have hinner : (encodeMessage [.uint 1 t.toNat]).length =
          if t.toNat = 0 then 0 else 1 + varintSize t.toNat := by
        by_cases ht : t.toNat = 0
        · rw [if_pos ht, ht]
          rfl
        · have hdefault : Slot.uint 1 t.toNat = ⟨⟨1, .varint t.toNat⟩, false⟩ := by
            rw [Slot.uint, decide_eq_false ht]
          rw [if_neg ht, hdefault, encodeMessage_cons, List.length_append,
            length_encode_varint (by decide)]
          rfl
      rw [ttlSlots, encodeMessage_cons, List.length_append, length_encode_message hk, hinner]
      rfl

theorem length_deltaSlots (hk : k < 16) (delta : Option ℤ) :
    (encodeMessage (deltaSlots k delta)).length = deltaSize delta := by
  cases delta with
  | none => rfl
  | some d =>
      rw [deltaSlots, encodeMessage_cons, List.length_append, length_encode_varint hk]
      rfl

theorem Request.length_slots (r : Request) : (encodeMessage r.slots).length = r.size := by
  have htext := length_text (k := 1) (by decide)
  have hvalue := length_encode_bytes (k := 2) (by decide)
  have hnil : encodeMessage [] = [] := rfl
  cases r with
  | ping => rfl
  | _ => simp [Request.slots, Request.size, encodeMessage_append, htext, hvalue, hnil,
      length_namespaceSlots, length_ttlSlots, length_deltaSlots]

/-- The length of an envelope, from the lengths of what is in it. -/
theorem Request.length_envelope (r : Request) : r.envelope.length = r.extent := by
  have hk : r.variant < 16 := r.variant_le.trans_lt (by decide)
  have hmessage : ∀ {k : ℕ}, k < 16 → ∀ bs,
      (encodeMessage [.message k bs]).length = fieldSize bs.length := fun hk bs => by
    rw [encodeMessage_cons, List.length_append, length_encode_message hk]
    rfl
  have hversion : (Slot.uint 1 1).encode.length = 2 := by decide
  rw [Request.envelope, encodeMessage_cons, List.length_append, hmessage (by decide),
    hmessage hk, r.length_slots, hversion, Request.extent]

end Wire

end DittoClient
