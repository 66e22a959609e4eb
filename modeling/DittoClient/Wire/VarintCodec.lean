import DittoClient.Protobuf.ReadBack
import DittoClient.Wire.Agreement
import DittoClient.Wire.RequestReader
import DittoClient.Wire.RequestVarints

/-!
# The varints of Python and Rust

The writers of the two clients write the shortest varint of a 64-bit number, and the readers
read it back from the front of any bytes, and not from a beginning of it. Tags and signed numbers
are varints, a tag with the field number above the three bits of the wire type, a signed number
in two's complement.
-/

namespace DittoClient

namespace Wire

open DittoClient.Protobuf

/-- A varint as a signed number. -/
def Dialect.readInt64 (d : Dialect) (r : Reader) : Except DecodeError (ℤ × Reader) := do
  let (n, r) ← d.readVarint r
  .ok (d.int64 n, r)

/-- The clients, the Rust client in a build with overflow checks or in one without. -/
inductive Codec
  | python
  | rust (overflowChecks : Bool)
  deriving DecidableEq, Repr

namespace Codec

def writer : Codec → RequestEncoder
  | python => pythonEncoder
  | rust _ => rustEncoder

def reader : Codec → Dialect
  | python => pythonDialect
  | rust overflowChecks => rustDialect overflowChecks

def format : Codec → Format
  | python => pythonFormat
  | rust overflowChecks => rustFormat overflowChecks

/-- The writer of a tag, which shifts the field number in an unbounded integer or in 32 bits. -/
def writeTag : Codec → ℕ → ℕ → Written
  | python, field, wire => unboundedVarint ((field <<< 3 ||| wire : ℕ) : ℤ)
  | rust _, field, wire =>
      .ok (uint64Varint (UInt32.ofNat field <<< 3 ||| UInt32.ofNat wire).toUInt64)

variable (c : Codec) {n k w : ℕ}

theorem follows : c.reader.Follows c.format (2 ^ 64 - 1) := by
  cases c with
  | python => exact python_follows _
  | rust overflowChecks => exact rust_follows overflowChecks

theorem standard : c.format.Standard := by
  cases c with
  | python => exact python_standard
  | rust overflowChecks => exact rust_standard overflowChecks

theorem exact : c.writer.Exact (2 ^ 64) := by
  cases c with
  | python => exact python_exact _
  | rust overflowChecks => exact rust_exact

theorem reads_encodeVarint (hn : n < 2 ^ 64) : Reads c.reader.readVarint (encodeVarint n) n :=
  c.follows.reads (c.standard.varint hn)

theorem shiftLeft_or (hw : w < 8) : k <<< 3 ||| w = k * 8 + w := by
  rw [← Nat.shiftLeft_add_eq_or_of_lt (i := 3) hw, Nat.shiftLeft_eq]

/-- Field numbers of 29 bits lose nothing in 32 bits. -/
theorem writeTag_eq (hk : k < 2 ^ 29) (hw : w < 8) : c.writeTag k w = .ok (encodeTag k w) := by
  cases c with
  | python => rw [writeTag, shiftLeft_or hw, unboundedVarint_natCast, encodeTag]
  | rust overflowChecks =>
      have hword : (UInt32.ofNat k <<< 3 ||| UInt32.ofNat w).toUInt64.toNat = k * 8 + w := by
        have hfield : (UInt32.ofNat k).toNat = k :=
          UInt32.toNat_ofNat_of_lt (hk.trans (by decide))
        have hwire : (UInt32.ofNat w).toNat = w :=
          UInt32.toNat_ofNat_of_lt (hw.trans (by decide))
        have hthree : UInt32.toNat 3 % 32 = 3 := rfl
        have hshift : k <<< 3 % 2 ^ 32 = k <<< 3 := by
          rw [Nat.shiftLeft_eq]
          omega
        rw [UInt32.toNat_toUInt64, UInt32.toNat_or, UInt32.toNat_shiftLeft, hfield, hwire, hthree,
          hshift, shiftLeft_or hw]
      rw [writeTag, uint64Varint_eq, hword, encodeTag]

/-- A tag is split into what it was put together from. -/
theorem splitTag_eq (hk : k < 2 ^ 29) (hw : w < 8) :
    c.reader.splitTag (k * 8 + w) = .ok (k, w) := by
  cases c with
  | python =>
      refine congrArg Except.ok (Prod.ext ?_ ?_)
      · change (k * 8 + w) / 8 = k
        omega
      · change (k * 8 + w) % 8 = w
        omega
  | rust overflowChecks =>
      refine congrArg Except.ok (Prod.ext ?_ ?_)
      · change (k * 8 + w) % 2 ^ 32 / 8 = k
        omega
      · change (k * 8 + w) % 8 = w
        omega

theorem reads_encodeTag (hk : k < 2 ^ 29) (hw : w < 8) :
    Reads c.reader.readTag (encodeTag k w) (k, w) :=
  (c.reads_encodeVarint (by omega)).bind (c.splitTag_eq hk hw)

theorem int64_eq : c.reader.int64 = signed64 := by
  cases c <;> rfl

theorem reads_int64 {x : ℤ} (hlo : -2 ^ 63 ≤ x) (hhi : x < 2 ^ 63) :
    Reads c.reader.readInt64 (encodeVarint (bits64 x)) x := by
  have hint : c.reader.int64 (bits64 x) = x := by
    rw [c.int64_eq, signed64_bits64 hlo hhi]
  exact (c.reads_encodeVarint (bits64_lt x)).bind (f := fun n => .ok (c.reader.int64 n))
    (congrArg Except.ok hint)

/-- `bs` is the shortest varint of `n`: it is what the client writes, it ends with its first byte
whose top bit is clear, and the client reads `n` from it and from nothing shorter. -/
structure WritesVarint (n : ℕ) (bs : List UInt8) : Prop where
  written : c.writer.varint n = .ok bs
  length_pos : 1 ≤ bs.length
  length_le : bs.length ≤ 10
  last : ∃ init last, bs = init ++ [last] ∧ (∀ b ∈ init, 128 ≤ b.toNat) ∧ last.toNat < 128
  fewest : ∀ cs, IsVarint cs n → bs.length ≤ cs.length
  least : ∀ r r', c.reader.readVarint r = .ok (n, r') → r.off + bs.length ≤ r'.off
  reads : Reads c.reader.readVarint bs n

theorem writesVarint (hn : n < 2 ^ 64) : c.WritesVarint n (encodeVarint n) where
  written := c.exact.varint n hn
  length_pos := (encodeVarint_isVarint n).length_pos
  length_le := length_encodeVarint_le hn
  last := (encodeVarint_isVarint n).exists_last
  fewest _ hcs := hcs.length_encodeVarint_le
  least r r' hr := by
    obtain ⟨vs, ys, hvs, -, rfl⟩ := (c.follows.readVarint_eq_ok r r' n).mp hr
    exact Nat.add_le_add_left (c.standard.canonical_le hn hvs) _
  reads := c.reads_encodeVarint hn

end Codec

/-- Varints of 64-bit numbers, tags and signed numbers are read back as they were written. -/
theorem varint_codec (c : Codec) :
    (∀ v < 2 ^ 64, ∃ bs, c.WritesVarint v bs) ∧
      (∀ f w, f < 2 ^ 29 → w < 8 →
        ∃ ts, c.writeTag f w = .ok ts ∧ Reads c.reader.readTag ts (f, w)) ∧
      ∀ f x, f < 2 ^ 29 → -2 ^ 63 ≤ x → x < 2 ^ 63 →
        ∃ ts bs, c.writeTag f 0 = .ok ts ∧ c.writer.int64Field f x = .ok (ts ++ bs) ∧
          Reads c.reader.readInt64 bs x := by
  refine ⟨fun v hv => ⟨_, c.writesVarint hv⟩, fun f w hf hw => ?_, fun f x hf hlo hhi => ?_⟩
  · exact ⟨_, c.writeTag_eq hf hw, c.reads_encodeTag hf hw⟩
  · refine ⟨_, _, c.writeTag_eq hf (by decide), ?_, c.reads_int64 hlo hhi⟩
    rw [RequestEncoder.int64Field, c.exact.tag (by omega), c.exact.int64 x hlo hhi]
    exact join_two ..

end Wire

end DittoClient
