import DittoClient.Text.Path
import DittoClient.Text.Percent

/-!
# Escaping a segment of a path

An `Escaping` says which characters of ASCII a text keeps in a segment of a path. A percent sign is
escaped, and so are the characters that end a segment. The dot is kept, so that only the texts `.`
and `..` are written as dot segments.
-/

namespace DittoClient

namespace Text

open DittoClient.Octets

/-- The bytes that stand for themselves in a segment. -/
structure Escaping where
  plain : UInt8 → Bool
  ascii : ∀ b, plain b = true → b.toNat < 128
  percent : plain 0x25 = false
  slash : plain 0x2F = false
  mark : plain 0x3F = false
  hash : plain 0x23 = false
  dot : plain 0x2E = true

namespace Escaping

/-- A text in a segment. -/
def encode (x : Escaping) (s : String) : List Char :=
  percentEncode x.plain (s.toList.flatMap String.utf8EncodeChar)

variable (x : Escaping) {s t : String}

theorem escapes : Plain x.plain where
  ascii := x.ascii
  percent := x.percent

theorem percentDecode_encode (s : String) :
    percentDecode (x.encode s) = s.toList.flatMap String.utf8EncodeChar :=
  Text.percentDecode_encode x.escapes _

/-- The text is read back. -/
theorem utf8?_encode (s : String) : utf8? (percentDecode (x.encode s)) = some s := by
  rw [x.percentDecode_encode]
  exact utf8?_chars s

theorem encode_inj (h : x.encode s = x.encode t) : s = t := by
  have hs := x.utf8?_encode s
  rw [h, x.utf8?_encode t] at hs
  exact (Option.some.inj hs).symm

/-- A character that is neither kept nor part of an escape. -/
theorem not_mem_encode {b : UInt8} (hb : x.plain b = false) (hascii : b.toNat < 128)
    (hpercent : Char.ofNat b.toNat ≠ '%') (halpha : (Char.ofNat b.toNat).isAlphanum = false) :
    Char.ofNat b.toNat ∉ x.encode s := by
  intro hmem
  rcases (isEscaped_percentEncode x.plain _).mem hmem with ⟨c, hc, heq⟩ | h | h
  · have hbytes := congrArg String.utf8EncodeChar heq
    rw [utf8EncodeChar_ofNat hascii, utf8EncodeChar_ofNat (x.ascii c hc)] at hbytes
    rw [List.singleton_inj.mp hbytes, hc] at hb
    cases hb
  · exact hpercent h
  · rw [halpha] at h
    cases h

/-- An encoded text is one segment. -/
theorem segment_encode (s : String) : Segment (x.encode s) where
  slash := x.not_mem_encode x.slash (by decide) (by decide) (by decide)
  mark := x.not_mem_encode x.mark (by decide) (by decide) (by decide)
  hash := x.not_mem_encode x.hash (by decide) (by decide) (by decide)

theorem encode_dot : x.encode "." = ['.'] := by
  have hbytes : ".".toList.flatMap String.utf8EncodeChar = [0x2E] := by decide
  rw [encode, hbytes, percentEncode, List.flatMap_singleton, x.dot]
  rfl

theorem encode_dots : x.encode ".." = ['.', '.'] := by
  have hbytes : "..".toList.flatMap String.utf8EncodeChar = [0x2E, 0x2E] := by decide
  rw [encode, hbytes, percentEncode, List.flatMap_cons, List.flatMap_singleton, x.dot]
  rfl

/-- Only the texts `.` and `..` are encoded as dot segments. -/
theorem dotSegment_encode : DotSegment (x.encode s) ↔ s = "." ∨ s = ".." := by
  constructor
  · rintro (h | h)
    · exact Or.inl (x.encode_inj (h.trans x.encode_dot.symm))
    · exact Or.inr (x.encode_inj (h.trans x.encode_dots.symm))
  · rintro (rfl | rfl)
    · exact Or.inl x.encode_dot
    · exact Or.inr x.encode_dots

end Escaping

end Text

end DittoClient
