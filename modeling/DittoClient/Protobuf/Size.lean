import DittoClient.Protobuf.Canonical
import Mathlib.Data.Nat.Log

/-!
# The sizes of encodings

How many bytes the canonical encoding of a field has, from the lengths of what the field holds.
The tags are those of field numbers below 16, which take one byte.
-/

namespace DittoClient

namespace Protobuf

/-- The number of bytes of the varint of a number. -/
def varintSize (n : ℕ) : ℕ :=
  Nat.log 128 n + 1

/-- The number of bytes of a length-delimited field. -/
def fieldSize (len : ℕ) : ℕ :=
  1 + (varintSize len + len)

/-- The same where an empty field is left out. -/
def filledSize (len : ℕ) : ℕ :=
  if len = 0 then 0 else fieldSize len

theorem length_encodeVarintLoop {fuel n : ℕ} (h : n ≤ fuel) :
    (encodeVarintLoop fuel n).length = varintSize n := by
  induction fuel generalizing n with
  | zero =>
      obtain rfl := Nat.le_zero.mp h
      simp [encodeVarintLoop, varintSize]
  | succ fuel ih =>
      rw [encodeVarintLoop, varintSize]
      split
      · next hlt => rw [Nat.log_of_lt hlt, List.length_singleton]
      · next hge =>
          rw [List.length_cons, ih (by omega), varintSize,
            Nat.log_of_one_lt_of_le (by decide) (not_lt.mp hge)]

@[simp] theorem length_encodeVarint (n : ℕ) : (encodeVarint n).length = varintSize n :=
  length_encodeVarintLoop le_rfl

section Tags

variable {k w : ℕ}

theorem length_encodeTag (hk : k < 16) (hw : w < 8) : (encodeTag k w).length = 1 := by
  rw [encodeTag, length_encodeVarint, varintSize, Nat.log_of_lt (by omega)]

theorem length_encode_message (hk : k < 16) (bs : List UInt8) :
    (Slot.message k bs).encode.length = fieldSize bs.length := by
  have htag := length_encodeTag hk (by decide : 2 < 8)
  simp [Slot.encode, Slot.message, encodeField, ldField, fieldSize, htag]

theorem length_encode_bytes (hk : k < 16) (bs : List UInt8) :
    (Slot.bytes k bs).encode.length = filledSize bs.length := by
  have hmessage := length_encode_message hk bs
  by_cases hbs : bs = []
  · simp [Slot.encode, Slot.bytes, filledSize, hbs]
  · simp only [Slot.encode, Slot.message, Slot.bytes, hbs, filledSize, List.length_eq_zero_iff,
      decide_false] at hmessage ⊢
    exact hmessage

theorem length_encode_varint (hk : k < 16) {n : ℕ} :
    (Slot.encode ⟨⟨k, .varint n⟩, false⟩).length = 1 + varintSize n := by
  have htag := length_encodeTag hk (by decide : 0 < 8)
  simp [Slot.encode, encodeField, varintField, htag]

end Tags

end Protobuf

end DittoClient
