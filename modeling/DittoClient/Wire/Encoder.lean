import DittoClient.Protobuf.Writer
import DittoClient.Wire.Decoder

/-!
# Texts and signed numbers on the wire

A text is written as its UTF-8 bytes, and a signed number as its 64-bit pattern, by all the
encoders.
-/

namespace DittoClient

namespace Wire

open DittoClient.Protobuf

/-- The UTF-8 bytes of a text. -/
def utf8Bytes (s : String) : List UInt8 :=
  s.toList.flatMap String.utf8EncodeChar

/-- The 64-bit pattern of a signed number. -/
def bits64 (v : ℤ) : ℕ :=
  (v % 2 ^ 64).toNat

theorem bits64_lt (v : ℤ) : bits64 v < 2 ^ 64 := by
  unfold bits64
  omega

end Wire

end DittoClient
