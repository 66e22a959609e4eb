import Mathlib.Data.List.Basic

/-!
# UTF-8 decoding

`decodeUtf8` cuts a byte string into characters; each maximal part that is no encoding of
a character is marked by `none`. A strict decoder accepts a byte string without such
marks, a replacing decoder writes U+FFFD for each of them.
-/

namespace DittoClient

namespace Octets

/-- Where the decoder stands: between characters, or in a character that has `needed`
more bytes, of which the next lies between `lower` and `upper`. -/
inductive Utf8State
  | idle
  | within (needed codePoint lower upper : ℕ)

/-- What the first byte of a character says: a character of one byte, a longer character,
or nothing valid. -/
def startUtf8 (b : ℕ) : Option Char × Utf8State :=
  if b < 0x80 then (some (Char.ofNat b), .idle)
  else if b < 0xC2 then (none, .idle)
  else if b < 0xE0 then (none, .within 1 (b % 0x20) 0x80 0xBF)
  else if b < 0xF0 then
    (none, .within 2 (b % 0x10) (if b = 0xE0 then 0xA0 else 0x80)
      (if b = 0xED then 0x9F else 0xBF))
  else if b < 0xF5 then
    (none, .within 3 (b % 0x08) (if b = 0xF0 then 0x90 else 0x80)
      (if b = 0xF4 then 0x8F else 0xBF))
  else (none, .idle)

/-- The decoder, from a state. -/
def decodeUtf8From : Utf8State → List UInt8 → List (Option Char)
  | .idle, [] => []
  | .within _ _ _ _, [] => [none]
  | .idle, b :: bs =>
      match startUtf8 b.toNat with
      | (none, .within n c l u) => decodeUtf8From (.within n c l u) bs
      | (c, _) => c :: decodeUtf8From .idle bs
  | .within needed codePoint lower upper, b :: bs =>
      if lower ≤ b.toNat ∧ b.toNat ≤ upper then
        let codePoint := codePoint * 64 + b.toNat % 64
        if needed = 1 then some (Char.ofNat codePoint) :: decodeUtf8From .idle bs
        else decodeUtf8From (.within (needed - 1) codePoint 0x80 0xBF) bs
      else
        -- the byte is no part of the character and is looked at again
        match startUtf8 b.toNat with
        | (none, .within n c l u) => none :: decodeUtf8From (.within n c l u) bs
        | (c, _) => none :: c :: decodeUtf8From .idle bs

/-- The characters of a byte string and the marks for its invalid parts. -/
def decodeUtf8 (bs : List UInt8) : List (Option Char) :=
  decodeUtf8From .idle bs

/-- The text of a byte string that is valid UTF-8. -/
def utf8? (bs : List UInt8) : Option String :=
  ((decodeUtf8 bs).mapM id).map String.ofList

/-- The text of a byte string, with U+FFFD for each invalid part. -/
def utf8Lossy (bs : List UInt8) : String :=
  String.ofList ((decodeUtf8 bs).map fun c => c.getD (Char.ofNat 0xFFFD))

end Octets

end DittoClient
