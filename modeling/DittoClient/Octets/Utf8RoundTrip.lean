import DittoClient.Octets.Utf8

/-!
# UTF-8 decoding of encoded text

A character that was encoded is decoded to itself, whatever follows it. A decoder therefore
takes the encoding of a text to this text, be it strict or replacing.
-/

namespace DittoClient

namespace Octets

section Steps

variable {b : UInt8} {bs : List UInt8}

theorem decodeUtf8From_start {n c l u : ℕ} (h : startUtf8 b.toNat = (none, .within n c l u)) :
    decodeUtf8From .idle (b :: bs) = decodeUtf8From (.within n c l u) bs := by
  rw [decodeUtf8From, h]

theorem decodeUtf8From_more {n c l u : ℕ} (hn : n ≠ 1) (h : l ≤ b.toNat ∧ b.toNat ≤ u) :
    decodeUtf8From (.within n c l u) (b :: bs) =
      decodeUtf8From (.within (n - 1) (c * 64 + b.toNat % 64) 0x80 0xBF) bs := by
  rw [decodeUtf8From, if_pos h]
  exact if_neg hn

theorem decodeUtf8From_last {c l u : ℕ} (h : l ≤ b.toNat ∧ b.toNat ≤ u) :
    decodeUtf8From (.within 1 c l u) (b :: bs) =
      some (Char.ofNat (c * 64 + b.toNat % 64)) :: decodeUtf8From .idle bs := by
  rw [decodeUtf8From, if_pos h]
  exact if_pos rfl

end Steps

theorem toNat_ofNat_byte {n : ℕ} (h : n < 256) : (UInt8.ofNat n).toNat = n := by
  rw [UInt8.toNat_ofNat', Nat.mod_eq_of_lt h]

/-- A character is a Unicode scalar value. -/
theorem scalar_value (c : Char) :
    c.val.toNat < 0xD800 ∨ 0xDFFF < c.val.toNat ∧ c.val.toNat < 0x110000 :=
  c.valid

/-- An encoded character is decoded to itself. -/
theorem decodeUtf8From_char (c : Char) (bs : List UInt8) :
    decodeUtf8From .idle (String.utf8EncodeChar c ++ bs) = some c :: decodeUtf8From .idle bs := by
  have hvalid := scalar_value c
  have hchar : Char.ofNat c.val.toNat = c := Char.ofNat_toNat c
  unfold String.utf8EncodeChar
  generalize c.val.toNat = v at hvalid hchar
  simp only
  split
  · next h1 =>
      have hb : (UInt8.ofNat v).toNat = v := toNat_ofNat_byte (by omega)
      have hstart : startUtf8 v = (some c, .idle) := by
        rw [startUtf8, if_pos (by omega), hchar]
      rw [List.cons_append, List.nil_append, decodeUtf8From, hb, hstart]
  · next h1 =>
      split
      · next h2 =>
          have hb : (UInt8.ofNat (v / 64 % 0x20 + 0xc0)).toNat = v / 64 + 0xc0 := by
            rw [toNat_ofNat_byte (by omega)]
            omega
          have hb₁ : (UInt8.ofNat (v % 0x40 + 0x80)).toNat = v % 64 + 0x80 :=
            toNat_ofNat_byte (by omega)
          have hstart : startUtf8 (UInt8.ofNat (v / 64 % 0x20 + 0xc0)).toNat =
               (none, .within 1 (v / 64) 0x80 0xBF) := by
            rw [hb, startUtf8, if_neg (by omega), if_neg (by omega), if_pos (by omega)]
            congr 2
            omega
          have hcode : v / 64 * 64 + (v % 64 + 0x80) % 64 = v := by omega
          rw [List.cons_append, decodeUtf8From_start hstart, List.cons_append,
            decodeUtf8From_last (by omega), hb₁, hcode, hchar, List.nil_append]
      · next h2 =>
          split
          · next h3 =>
              have hb : (UInt8.ofNat (v / 4096 % 0x10 + 0xe0)).toNat = v / 4096 + 0xe0 := by
                rw [toNat_ofNat_byte (by omega)]
                omega
              have hb₁ : (UInt8.ofNat (v / 64 % 0x40 + 0x80)).toNat = v / 64 % 64 + 0x80 :=
                toNat_ofNat_byte (by omega)
              have hb₂ : (UInt8.ofNat (v % 0x40 + 0x80)).toNat = v % 64 + 0x80 :=
                toNat_ofNat_byte (by omega)
              have hstart : startUtf8 (UInt8.ofNat (v / 4096 % 0x10 + 0xe0)).toNat =
                  (none, .within 2 (v / 4096)
                  (if v / 4096 + 0xe0 = 0xE0 then 0xA0 else 0x80)
                  (if v / 4096 + 0xe0 = 0xED then 0x9F else 0xBF)) := by
                rw [hb, startUtf8, if_neg (by omega), if_neg (by omega), if_neg (by omega),
                  if_pos (by omega)]
                congr 2
                omega
              have hrange : (if v / 4096 + 0xe0 = 0xE0 then 0xA0 else 0x80) ≤
                  (UInt8.ofNat (v / 64 % 0x40 + 0x80)).toNat ∧
                  (UInt8.ofNat (v / 64 % 0x40 + 0x80)).toNat ≤
                    (if v / 4096 + 0xe0 = 0xED then 0x9F else 0xBF) := by
                rw [hb₁]
                constructor
                · split <;> omega
                · split <;> omega
              have hcode : (v / 4096 * 64 + (v / 64 % 64 + 0x80) % 64) * 64 +
                  (v % 64 + 0x80) % 64 = v := by omega
              rw [List.cons_append, decodeUtf8From_start hstart, List.cons_append,
                decodeUtf8From_more (by decide) hrange, List.cons_append,
                decodeUtf8From_last (by omega), hb₁, hb₂, hcode, hchar, List.nil_append]
          · next h3 =>
              have hb : (UInt8.ofNat (v / 262144 % 0x08 + 0xf0)).toNat = v / 262144 + 0xf0 := by
                rw [toNat_ofNat_byte (by omega)]
                omega
              have hb₁ : (UInt8.ofNat (v / 4096 % 0x40 + 0x80)).toNat = v / 4096 % 64 + 0x80 :=
                toNat_ofNat_byte (by omega)
              have hb₂ : (UInt8.ofNat (v / 64 % 0x40 + 0x80)).toNat = v / 64 % 64 + 0x80 :=
                toNat_ofNat_byte (by omega)
              have hb₃ : (UInt8.ofNat (v % 0x40 + 0x80)).toNat = v % 64 + 0x80 :=
                toNat_ofNat_byte (by omega)
              have hstart : startUtf8 (UInt8.ofNat (v / 262144 % 0x08 + 0xf0)).toNat =
                  (none, .within 3 (v / 262144)
                  (if v / 262144 + 0xf0 = 0xF0 then 0x90 else 0x80)
                  (if v / 262144 + 0xf0 = 0xF4 then 0x8F else 0xBF)) := by
                rw [hb, startUtf8, if_neg (by omega), if_neg (by omega), if_neg (by omega),
                  if_neg (by omega), if_pos (by omega)]
                congr 2
                omega
              have hrange : (if v / 262144 + 0xf0 = 0xF0 then 0x90 else 0x80) ≤
                  (UInt8.ofNat (v / 4096 % 0x40 + 0x80)).toNat ∧
                  (UInt8.ofNat (v / 4096 % 0x40 + 0x80)).toNat ≤
                    (if v / 262144 + 0xf0 = 0xF4 then 0x8F else 0xBF) := by
                rw [hb₁]
                constructor
                · split <;> omega
                · split <;> omega
              have hcode : ((v / 262144 * 64 + (v / 4096 % 64 + 0x80) % 64) * 64 +
                  (v / 64 % 64 + 0x80) % 64) * 64 + (v % 64 + 0x80) % 64 = v := by omega
              rw [List.cons_append, decodeUtf8From_start hstart, List.cons_append,
                decodeUtf8From_more (by decide) hrange, List.cons_append,
                decodeUtf8From_more (by decide) (by omega), List.cons_append,
                decodeUtf8From_last (by omega), hb₁, hb₂, hb₃, hcode, hchar, List.nil_append]

/-- Encoded characters are decoded to themselves. -/
theorem decodeUtf8_chars (cs : List Char) :
    decodeUtf8 (cs.flatMap String.utf8EncodeChar) = cs.map some := by
  unfold decodeUtf8
  induction cs with
  | nil => rfl
  | cons c cs ih => rw [List.flatMap_cons, decodeUtf8From_char, ih, List.map_cons]

theorem utf8?_chars (s : String) : utf8? (s.toList.flatMap String.utf8EncodeChar) = some s := by
  have hall : ∀ cs : List Char, (cs.map some).mapM id = some cs := by
    intro cs
    induction cs with
    | nil => rfl
    | cons c cs ih => simp [List.mapM_cons, ih]
  rw [utf8?, decodeUtf8_chars, hall, Option.map_some, String.ofList_toList]

theorem utf8Lossy_chars (s : String) :
    utf8Lossy (s.toList.flatMap String.utf8EncodeChar) = s := by
  rw [utf8Lossy, decodeUtf8_chars, List.map_map]
  have hid : ((fun c : Option Char => c.getD (Char.ofNat 0xFFFD)) ∘ some) = id := rfl
  rw [hid, List.map_id, String.ofList_toList]

end Octets

end DittoClient
