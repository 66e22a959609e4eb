import DittoClient.Octets.Utf8RoundTrip

/-!
# Percent encoding

A byte string is written with certain characters as they are and an escape `%XX` for every other
byte. The escapes are read back to the bytes, so that different byte strings are written
differently.
-/

namespace DittoClient

namespace Text

/-- The digit of a number below 16. -/
def hexDigit (n : ℕ) : Char :=
  if n < 10 then Char.ofNat (48 + n) else Char.ofNat (55 + n)

/-- The number of a digit, which may be a small letter. -/
def hexValue (c : Char) : Option ℕ :=
  if '0' ≤ c ∧ c ≤ '9' then some (c.toNat - 48)
  else if 'A' ≤ c ∧ c ≤ 'F' then some (c.toNat - 55)
  else if 'a' ≤ c ∧ c ≤ 'f' then some (c.toNat - 87)
  else none

/-- The escape of a byte. -/
def percentByte (b : UInt8) : List Char :=
  ['%', hexDigit (b.toNat / 16), hexDigit (b.toNat % 16)]

/-- A byte string with an escape for every byte that is not plain. -/
def percentEncode (plain : UInt8 → Bool) (bs : List UInt8) : List Char :=
  bs.flatMap fun b => if plain b then [Char.ofNat b.toNat] else percentByte b

/-- The byte of an escape. -/
def unescape (x y : Char) : Option UInt8 := do
  let a ← hexValue x
  let b ← hexValue y
  some (UInt8.ofNat (a * 16 + b))

/-- The bytes of a text with escapes. What is no escape is left as it is. -/
def percentDecode : List Char → List UInt8
  | '%' :: x :: y :: cs =>
      match unescape x y with
      | some b => b :: percentDecode cs
      | none => 0x25 :: percentDecode (x :: y :: cs)
  | c :: cs => String.utf8EncodeChar c ++ percentDecode cs
  | [] => []

/-- A text of certain characters and escapes. -/
inductive IsEscaped (plain : Char → Prop) : List Char → Prop
  | nil : IsEscaped plain []
  | char {c : Char} {cs : List Char} (hc : plain c) (h : IsEscaped plain cs) :
      IsEscaped plain (c :: cs)
  | escape {b : UInt8} {cs : List Char} (h : IsEscaped plain cs) :
      IsEscaped plain (percentByte b ++ cs)

/-- Bytes that may stand for themselves: those of ASCII, but not the percent sign. -/
structure Plain (plain : UInt8 → Bool) : Prop where
  ascii : ∀ b, plain b = true → b.toNat < 128
  percent : plain 0x25 = false

theorem hexValue_hexDigit {n : ℕ} (h : n < 16) : hexValue (hexDigit n) = some n := by
  have hall : ∀ n < 16, hexValue (hexDigit n) = some n := by decide
  exact hall n h

theorem unescape_hexDigit (b : UInt8) :
    unescape (hexDigit (b.toNat / 16)) (hexDigit (b.toNat % 16)) = some b := by
  have hb : b.toNat < 256 := b.toNat_lt
  have hsplit : b.toNat / 16 * 16 + b.toNat % 16 = b.toNat := by omega
  rw [unescape, hexValue_hexDigit (by omega), hexValue_hexDigit (by omega)]
  change some (UInt8.ofNat (b.toNat / 16 * 16 + b.toNat % 16)) = some b
  rw [hsplit, UInt8.ofNat_toNat]

/-- An escape is read back. -/
theorem percentDecode_escape (b : UInt8) (cs : List Char) :
    percentDecode (percentByte b ++ cs) = b :: percentDecode cs := by
  rw [percentByte, List.cons_append, List.cons_append, List.cons_append, List.nil_append,
    percentDecode, unescape_hexDigit]

theorem percentDecode_cons {c : Char} (hc : c ≠ '%') (cs : List Char) :
    percentDecode (c :: cs) = String.utf8EncodeChar c ++ percentDecode cs := by
  rw [percentDecode]
  rintro x y cs rfl
  exact absurd rfl hc

section Plain

variable {plain : UInt8 → Bool} {b : UInt8} {bs cs : List UInt8}

theorem utf8EncodeChar_ofNat (h : b.toNat < 128) :
    String.utf8EncodeChar (Char.ofNat b.toNat) = [b] := by
  have hall : ∀ n < 128, String.utf8EncodeChar (Char.ofNat n) = [UInt8.ofNat n] := by decide
  rw [hall _ h, UInt8.ofNat_toNat]

theorem ofNat_ne_percent (h : b.toNat < 128) (hb : b ≠ 0x25) : Char.ofNat b.toNat ≠ '%' := by
  intro heq
  have henc := utf8EncodeChar_ofNat h
  rw [heq] at henc
  exact hb (List.singleton_inj.mp henc).symm

/-- What was encoded is read back, whatever follows it. -/
theorem percentDecode_append (hplain : Plain plain) (bs : List UInt8) (cs : List Char) :
    percentDecode (percentEncode plain bs ++ cs) = bs ++ percentDecode cs := by
  induction bs with
  | nil => rfl
  | cons b bs ih =>
      rw [percentEncode, List.flatMap_cons, List.append_assoc, ← percentEncode]
      cases hb : plain b with
      | true =>
          have hlt := hplain.ascii b hb
          have hne : b ≠ 0x25 := by
            rintro rfl
            rw [hplain.percent] at hb
            cases hb
          rw [if_pos rfl, List.singleton_append, percentDecode_cons (ofNat_ne_percent hlt hne),
            utf8EncodeChar_ofNat hlt, ih]
          rfl
      | false =>
          rw [if_neg Bool.false_ne_true, percentDecode_escape, ih]
          rfl

theorem percentDecode_encode (hplain : Plain plain) (bs : List UInt8) :
    percentDecode (percentEncode plain bs) = bs := by
  have h := percentDecode_append hplain bs []
  rwa [List.append_nil, percentDecode, List.append_nil] at h

/-- Different byte strings are written differently. -/
theorem percentEncode_inj (hplain : Plain plain)
    (h : percentEncode plain bs = percentEncode plain cs) : bs = cs := by
  rw [← percentDecode_encode hplain bs, h, percentDecode_encode hplain cs]

/-- Only plain characters and escapes are written. -/
theorem isEscaped_percentEncode (plain : UInt8 → Bool) (bs : List UInt8) :
    IsEscaped (fun c => ∃ b, plain b = true ∧ c = Char.ofNat b.toNat) (percentEncode plain bs) := by
  induction bs with
  | nil => exact .nil
  | cons b bs ih =>
      rw [percentEncode, List.flatMap_cons, ← percentEncode]
      cases hb : plain b with
      | true => exact .char ⟨b, hb, rfl⟩ ih
      | false => exact .escape ih

end Plain

section Escaped

variable {plain plain' : Char → Prop} {cs : List Char} {c : Char}

theorem IsEscaped.mono (h : IsEscaped plain cs) (himp : ∀ c, plain c → plain' c) :
    IsEscaped plain' cs := by
  induction h with
  | nil => exact .nil
  | char hc _ ih => exact .char (himp _ hc) ih
  | escape _ ih => exact .escape ih

theorem mem_percentByte {b : UInt8} (h : c ∈ percentByte b) : c = '%' ∨ c.isAlphanum = true := by
  have hall : ∀ n < 16, (hexDigit n).isAlphanum = true := by decide
  have hb : b.toNat < 256 := b.toNat_lt
  simp only [percentByte, List.mem_cons, List.not_mem_nil, or_false] at h
  rcases h with rfl | rfl | rfl
  · exact Or.inl rfl
  · exact Or.inr (hall _ (by omega))
  · exact Or.inr (hall _ (by omega))

/-- The characters of an escaped text. -/
theorem IsEscaped.mem (h : IsEscaped plain cs) (hc : c ∈ cs) :
    plain c ∨ c = '%' ∨ c.isAlphanum = true := by
  induction h with
  | nil => cases hc
  | char hplain _ ih =>
      rcases List.mem_cons.mp hc with rfl | hc
      · exact Or.inl hplain
      · exact ih hc
  | escape _ ih =>
      rcases List.mem_append.mp hc with hc | hc
      · exact Or.inr (mem_percentByte hc)
      · exact ih hc

end Escaped

section Unreserved

/-- The letters and digits and the marks that mean the same everywhere in a URL. -/
def unreserved (b : UInt8) : Bool :=
  decide (0x41 ≤ b ∧ b ≤ 0x5A) || (decide (0x61 ≤ b ∧ b ≤ 0x7A) ||
    (decide (0x30 ≤ b ∧ b ≤ 0x39) || decide (b ∈ [0x2D, 0x5F, 0x2E, 0x7E])))

/-- The same for characters. -/
def Unreserved (c : Char) : Prop :=
  c.isAlphanum = true ∨ c ∈ ['-', '_', '.', '~']

instance (c : Char) : Decidable (Unreserved c) :=
  inferInstanceAs (Decidable (_ ∨ _))

theorem unreserved_byte {b : UInt8} (h : unreserved b = true) :
    b.toNat < 128 ∧ b ≠ 0x25 ∧ Unreserved (Char.ofNat b.toNat) := by
  have hlt : b.toNat < 128 := by
    simp only [unreserved, Bool.or_eq_true, decide_eq_true_eq, UInt8.le_iff_toNat_le,
      List.mem_cons, List.not_mem_nil, or_false] at h
    rcases h with h | h | h | rfl | rfl | rfl | rfl
    · exact Nat.lt_of_le_of_lt h.2 (by decide)
    · exact Nat.lt_of_le_of_lt h.2 (by decide)
    · exact Nat.lt_of_le_of_lt h.2 (by decide)
    · decide
    · decide
    · decide
    · decide
  have hall : ∀ n < 128, unreserved (UInt8.ofNat n) = true → n ≠ 0x25 ∧
      ((Char.ofNat n).isAlphanum = true ∨ Char.ofNat n ∈ ['-', '_', '.', '~']) := by decide
  obtain ⟨hne, hchar⟩ := hall b.toNat hlt (by rwa [UInt8.ofNat_toNat])
  exact ⟨hlt, fun heq => hne (congrArg UInt8.toNat heq), hchar⟩

theorem unreserved_plain : Plain unreserved where
  ascii _ h := (unreserved_byte h).1
  percent := rfl

theorem isEscaped_unreserved (bs : List UInt8) :
    IsEscaped Unreserved (percentEncode unreserved bs) := by
  refine (isEscaped_percentEncode unreserved bs).mono ?_
  rintro c ⟨b, hb, rfl⟩
  exact (unreserved_byte hb).2.2

/-- No character that means something in a URL is written. -/
theorem not_mem_percentEncode {c : Char} (hc : c ≠ '%') (hreserved : ¬ Unreserved c)
    (bs : List UInt8) : c ∉ percentEncode unreserved bs := by
  intro hmem
  rcases (isEscaped_unreserved bs).mem hmem with h | h | h
  · exact hreserved h
  · exact hc h
  · exact hreserved (Or.inl h)

end Unreserved

end Text

end DittoClient
