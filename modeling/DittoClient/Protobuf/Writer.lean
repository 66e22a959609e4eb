import Mathlib.Data.List.Basic

/-!
# Writing protobuf fields

Tags and lengths are varints, and these are written in the fewest bytes.
-/

namespace DittoClient

namespace Protobuf

/-- The loop that writes a varint; a number is exhausted before the fuel is, since each
round divides it by 128. -/
def encodeVarintLoop : ℕ → ℕ → List UInt8
  | 0, n => [UInt8.ofNat n]
  | fuel + 1, n =>
      if n < 128 then [UInt8.ofNat n]
      else UInt8.ofNat (n % 128 + 128) :: encodeVarintLoop fuel (n / 128)

def encodeVarint (n : ℕ) : List UInt8 :=
  encodeVarintLoop n n

def encodeTag (field wire : ℕ) : List UInt8 :=
  encodeVarint (field * 8 + wire)

/-- A varint field, also when the number is zero. -/
def varintField (field n : ℕ) : List UInt8 :=
  encodeTag field 0 ++ encodeVarint n

/-- A length-delimited field, also when it is empty. -/
def ldField (field : ℕ) (bs : List UInt8) : List UInt8 :=
  encodeTag field 2 ++ (encodeVarint bs.length ++ bs)

end Protobuf

end DittoClient
