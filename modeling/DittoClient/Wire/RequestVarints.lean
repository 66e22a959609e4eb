import DittoClient.Wire.Requests

/-!
# Varints of the request encoders

The loops over 64-bit words write the canonical varint of the word, so that every encoder
writes the numbers of its type canonically. Java looks at the bits above the low seven where
Go and Rust compare with 128, and shifts a negative `long` like an unsigned number.
-/

namespace DittoClient

namespace Wire

open DittoClient.Octets
open DittoClient.Protobuf
open DittoClient.Text

section Words

variable (v : UInt64)

theorem toNat_shiftRight_seven : (v >>> 7).toNat = v.toNat / 128 := by
  rw [UInt64.toNat_shiftRight, Nat.shiftRight_eq_div_pow]
  rfl

theorem toUInt8_eq_ofNat : v.toUInt8 = UInt8.ofNat v.toNat := by
  apply UInt8.toNat.inj
  simp

theorem lt_128_iff : v < 0x80 ↔ v.toNat < 128 :=
  UInt64.lt_iff_toNat_lt

/-- The byte of a varint that another byte follows. -/
theorem toUInt8_or_128 : v.toUInt8 ||| 0x80 = UInt8.ofNat (v.toNat % 128 + 128) := by
  have hor : ∀ b < 256, b ||| 128 = b % 128 + 128 := by decide +kernel
  have hbyte : v.toNat % 256 ||| 128 = v.toNat % 256 % 128 + 128 :=
    hor _ (Nat.mod_lt _ (by decide))
  apply UInt8.toNat.inj
  have h128 : UInt8.toNat 0x80 = 128 := rfl
  rw [UInt8.toNat_or, UInt64.toNat_toUInt8, UInt8.toNat_ofNat', h128, hbyte]
  omega

theorem low_bits_or_128 : ((v &&& 0x7F) ||| 0x80).toUInt8 = v.toUInt8 ||| 0x80 := by
  have hor : ∀ b < 256, (b &&& 127) ||| 128 = b ||| 128 := by decide +kernel
  have hbyte : v.toNat % 256 &&& 127 ||| 128 = v.toNat % 256 ||| 128 :=
    hor _ (Nat.mod_lt _ (by decide))
  apply UInt8.toNat.inj
  simpa using hbyte

/-- The bits above the low seven. -/
theorem high_bits_eq_zero_iff : v &&& ~~~0x7F = 0 ↔ v < 0x80 := by
  have hmask : (~~~(0x7F : UInt64)).toNat = (2 ^ 57 - 1) <<< 7 := by decide
  have hdiv : v.toNat / 128 = (v.toNat >>> 7) &&& (2 ^ 57 - 1) := by
    have hv := v.toNat_lt
    rw [Nat.and_two_pow_sub_one_eq_mod, Nat.shiftRight_eq_div_pow]
    omega
  have hand : (v &&& ~~~0x7F).toNat = (v.toNat / 128) <<< 7 := by
    rw [UInt64.toNat_and, hmask, hdiv]
    apply Nat.eq_of_testBit_eq
    intro i
    rw [Nat.testBit_and, Nat.testBit_shiftLeft, Nat.testBit_shiftLeft, Nat.testBit_and,
      Nat.testBit_shiftRight]
    by_cases hi : 7 ≤ i <;> simp [hi]
  have hzero : UInt64.toNat 0 = 0 := rfl
  rw [← UInt64.toNat_inj, hand, lt_128_iff, Nat.shiftLeft_eq, hzero]
  omega

end Words

/-- The fuel of the loop does not matter where it suffices. -/
theorem uint64VarintLoop_eq (fuel fuel' : ℕ) (v : UInt64) (h : v.toNat < 128 ^ (fuel + 1))
    (h' : v.toNat ≤ fuel') : uint64VarintLoop fuel v = encodeVarintLoop fuel' v.toNat := by
  induction fuel generalizing fuel' v with
  | zero =>
      have hlt : v.toNat < 128 := h
      cases fuel' with
      | zero => rw [uint64VarintLoop, encodeVarintLoop, toUInt8_eq_ofNat]
      | succ fuel' => rw [uint64VarintLoop, encodeVarintLoop, if_pos hlt, toUInt8_eq_ofNat]
  | succ fuel ih =>
      by_cases hlt : v.toNat < 128
      · rw [uint64VarintLoop, if_pos ((lt_128_iff v).mpr hlt), toUInt8_eq_ofNat]
        cases fuel' with
        | zero => rw [encodeVarintLoop]
        | succ fuel' => rw [encodeVarintLoop, if_pos hlt]
      · have hge : ¬ v < 0x80 := fun hv => hlt ((lt_128_iff v).mp hv)
        cases fuel' with
        | zero => omega
        | succ fuel' =>
            have hrest := ih fuel' (v >>> 7)
              (by rw [toNat_shiftRight_seven, Nat.div_lt_iff_lt_mul (by decide)]
                  rwa [pow_succ] at h)
              (by rw [toNat_shiftRight_seven]; omega)
            rw [uint64VarintLoop, if_neg hge, encodeVarintLoop, if_neg hlt, toUInt8_or_128,
              hrest, toNat_shiftRight_seven]

/-- Go and Rust write canonical varints. -/
theorem uint64Varint_eq (v : UInt64) : uint64Varint v = encodeVarint v.toNat :=
  uint64VarintLoop_eq 10 v.toNat v (lt_of_lt_of_le v.toNat_lt (by decide)) le_rfl

/-- The loop of Java is that of Go and Rust. -/
theorem longVarintLoop_eq (fuel : ℕ) (v : UInt64) :
    longVarintLoop fuel v = uint64VarintLoop fuel v := by
  induction fuel generalizing v with
  | zero => rfl
  | succ fuel ih =>
      rw [longVarintLoop, uint64VarintLoop, ih, low_bits_or_128]
      by_cases hv : v < 0x80
      · rw [if_pos hv, if_pos ((high_bits_eq_zero_iff v).mpr hv)]
      · rw [if_neg hv, if_neg fun hzero => hv ((high_bits_eq_zero_iff v).mp hzero)]

theorem longVarintLoop_ten (v : UInt64) : longVarintLoop 10 v = encodeVarint v.toNat :=
  (longVarintLoop_eq 10 v).trans (uint64Varint_eq v)

section Conversions

theorem toNat_uint64_ofInt (d : ℤ) : (UInt64.ofInt d).toNat = bits64 d := by
  have hlt : (d % 2 ^ 64).toNat < 2 ^ 64 := by omega
  rw [UInt64.ofInt, UInt64.toNat_ofNat', Nat.mod_eq_of_lt hlt]
  rfl

theorem toNat_int64_ofInt (d : ℤ) : (Int64.ofInt d).toUInt64.toNat = bits64 d := by
  have h : (Int64.ofInt d).toUInt64.toNat = (BitVec.ofInt 64 d).toNat := rfl
  rw [h, BitVec.toNat_ofInt]
  rfl

theorem bits64_natCast {n : ℕ} (h : n < 2 ^ 64) : bits64 n = n := by
  rw [bits64]
  omega

end Conversions

section Encoders

theorem unboundedVarint_natCast (n : ℕ) : unboundedVarint n = .ok (encodeVarint n) := by
  have hpos : ¬ (n : ℤ) < 0 := by omega
  rw [unboundedVarint, if_neg hpos, Int.toNat_natCast]

theorem unboundedVarint_bits64 (d : ℤ) :
    unboundedVarint (d % 2 ^ 64) = .ok (encodeVarint (bits64 d)) := by
  have hpos : ¬ d % 2 ^ 64 < 0 := by omega
  rw [unboundedVarint, if_neg hpos, bits64]

theorem checkedPrefix_of_lt {len : ℕ} (h : len < 2 ^ 32) :
    checkedPrefix len = .ok (bigEndian 4 len) :=
  if_pos h

theorem python_exact (bound : ℕ) : pythonEncoder.Exact bound where
  varint n _ := unboundedVarint_natCast n
  int64 d _ _ := unboundedVarint_bits64 d
  lengthPrefix _ := checkedPrefix_of_lt

theorem node_exact (bound : ℕ) : nodeEncoder.Exact bound where
  varint n _ := unboundedVarint_natCast n
  int64 d _ _ := unboundedVarint_bits64 d
  lengthPrefix _ := checkedPrefix_of_lt

theorem uint64Varint_ofInt (d : ℤ) : uint64Varint (UInt64.ofInt d) = encodeVarint (bits64 d) := by
  rw [uint64Varint_eq, toNat_uint64_ofInt]

theorem go_exact : goEncoder.Exact (2 ^ 64) where
  varint n hn := congrArg Except.ok (by rw [uint64Varint_ofInt, bits64_natCast hn])
  int64 d _ _ := congrArg Except.ok (uint64Varint_ofInt d)
  lengthPrefix _ _ := rfl

theorem rust_exact : rustEncoder.Exact (2 ^ 64) where
  varint n hn := congrArg Except.ok (by rw [uint64Varint_ofInt, bits64_natCast hn])
  int64 d _ _ := congrArg Except.ok (uint64Varint_ofInt d)
  lengthPrefix _ _ := rfl

/-- Java refuses numbers that are negative as a `long`. -/
theorem java_exact : javaEncoder.Exact (2 ^ 63) where
  varint n hn := by
    have hint : (Int64.ofInt n).toInt = n := Int64.toInt_ofInt_of_le (by omega) (by omega)
    have hpos : ¬ Int64.ofInt n < 0 := by
      rw [Int64.lt_iff_toInt_lt, hint]
      exact not_lt.mpr (Int.natCast_nonneg n)
    change longVarint (Int64.ofInt n) = _
    rw [longVarint, if_neg hpos, longVarintLoop_ten, toNat_int64_ofInt, bits64_natCast (by omega)]
  int64 d _ _ := congrArg Except.ok (by rw [longVarintLoop_ten, toNat_int64_ofInt])
  lengthPrefix _ _ := rfl

end Encoders

end Wire

end DittoClient
