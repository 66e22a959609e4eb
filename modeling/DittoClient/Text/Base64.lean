import Mathlib.Data.Nat.Notation
import Mathlib.Tactic.Common

/-!
# Base64

Three bytes are written as four digits of six bits. The last group may be short, and is then filled
up with signs that are no digits. The digits are read back to the bytes, and what is no digit is
refused, as are bits behind the last byte.
-/

namespace DittoClient

namespace Text

/-- The digit of a number below 64. -/
def base64Digit (n : ℕ) : Char :=
  if n < 26 then Char.ofNat (65 + n)
  else if n < 52 then Char.ofNat (71 + n)
  else if n < 62 then Char.ofNat (n - 4)
  else if n = 62 then '+'
  else '/'

/-- The number of a digit. -/
def base64Value (c : Char) : Option ℕ :=
  if 'A' ≤ c ∧ c ≤ 'Z' then some (c.toNat - 65)
  else if 'a' ≤ c ∧ c ≤ 'z' then some (c.toNat - 71)
  else if '0' ≤ c ∧ c ≤ '9' then some (c.toNat + 4)
  else if c = '+' then some 62
  else if c = '/' then some 63
  else none

/-- The digits of a byte string. -/
def base64Encode : List UInt8 → List Char
  | [] => []
  | [a] => [base64Digit (a.toNat / 4), base64Digit (a.toNat % 4 * 16), '=', '=']
  | [a, b] =>
      [base64Digit (a.toNat / 4), base64Digit (a.toNat % 4 * 16 + b.toNat / 16),
        base64Digit (b.toNat % 16 * 4), '=']
  | a :: b :: c :: bs =>
      base64Digit (a.toNat / 4) :: base64Digit (a.toNat % 4 * 16 + b.toNat / 16) ::
        base64Digit (b.toNat % 16 * 4 + c.toNat / 64) :: base64Digit (c.toNat % 64) ::
          base64Encode bs

/-- The bytes of a last group of digits, which may be short. -/
def lastGroup (w x y z : Char) : Option (List UInt8) := do
  let a ← base64Value w
  let b ← base64Value x
  if y = '=' ∧ z = '=' then
    if b % 16 = 0 then some [UInt8.ofNat (a * 4 + b / 16)] else none
  else
    let c ← base64Value y
    if z = '=' then
      if c % 4 = 0 then some [UInt8.ofNat (a * 4 + b / 16), UInt8.ofNat (b % 16 * 16 + c / 4)]
      else none
    else
      let d ← base64Value z
      some [UInt8.ofNat (a * 4 + b / 16), UInt8.ofNat (b % 16 * 16 + c / 4),
        UInt8.ofNat (c % 4 * 64 + d)]

/-- The byte string of a text of digits. -/
def base64Decode : List Char → Option (List UInt8)
  | [] => some []
  | [w, x, y, z] => lastGroup w x y z
  | w :: x :: y :: z :: cs =>
      if z = '=' then none
      else do
        let front ← lastGroup w x y z
        let bs ← base64Decode cs
        some (front ++ bs)
  | _ => none

section Digits

variable {n : ℕ}

theorem base64Value_digit (h : n < 64) : base64Value (base64Digit n) = some n := by
  have hall : ∀ n < 64, base64Value (base64Digit n) = some n := by decide
  exact hall n h

theorem base64Digit_ne (h : n < 64) : base64Digit n ≠ '=' := by
  have hall : ∀ n < 64, base64Digit n ≠ '=' := by decide
  exact hall n h

end Digits

section Groups

variable (a b c : UInt8)

theorem lastGroup_three : lastGroup (base64Digit (a.toNat / 4))
    (base64Digit (a.toNat % 4 * 16 + b.toNat / 16))
    (base64Digit (b.toNat % 16 * 4 + c.toNat / 64)) (base64Digit (c.toNat % 64)) =
      some [a, b, c] := by
  have ha := a.toNat_lt
  have hb := b.toNat_lt
  have hc := c.toNat_lt
  have hfirst : a.toNat / 4 * 4 + (a.toNat % 4 * 16 + b.toNat / 16) / 16 = a.toNat := by omega
  have hsecond : (a.toNat % 4 * 16 + b.toNat / 16) % 16 * 16 +
      (b.toNat % 16 * 4 + c.toNat / 64) / 4 = b.toNat := by omega
  have hthird : (b.toNat % 16 * 4 + c.toNat / 64) % 4 * 64 + c.toNat % 64 = c.toNat := by omega
  have hlast := base64Digit_ne (n := c.toNat % 64) (by omega)
  rw [lastGroup, base64Value_digit (by omega), base64Value_digit (by omega),
    base64Value_digit (by omega), base64Value_digit (by omega)]
  simp only [Option.bind_eq_bind, Option.bind_some, hlast, and_false, if_false, hfirst, hsecond,
    hthird, UInt8.ofNat_toNat]

theorem lastGroup_two : lastGroup (base64Digit (a.toNat / 4))
    (base64Digit (a.toNat % 4 * 16 + b.toNat / 16)) (base64Digit (b.toNat % 16 * 4)) '=' =
      some [a, b] := by
  have ha := a.toNat_lt
  have hb := b.toNat_lt
  have hfirst : a.toNat / 4 * 4 + (a.toNat % 4 * 16 + b.toNat / 16) / 16 = a.toNat := by omega
  have hsecond : (a.toNat % 4 * 16 + b.toNat / 16) % 16 * 16 + b.toNat % 16 * 4 / 4 = b.toNat := by
    omega
  have hbits : b.toNat % 16 * 4 % 4 = 0 := by omega
  have hlast := base64Digit_ne (n := b.toNat % 16 * 4) (by omega)
  rw [lastGroup, base64Value_digit (by omega), base64Value_digit (by omega),
    base64Value_digit (by omega)]
  simp only [Option.bind_eq_bind, Option.bind_some, hlast, false_and, if_false, if_true, hfirst,
    hsecond, hbits, UInt8.ofNat_toNat]

theorem lastGroup_one : lastGroup (base64Digit (a.toNat / 4)) (base64Digit (a.toNat % 4 * 16))
    '=' '=' = some [a] := by
  have ha := a.toNat_lt
  have hfirst : a.toNat / 4 * 4 + a.toNat % 4 * 16 / 16 = a.toNat := by omega
  have hbits : a.toNat % 4 * 16 % 16 = 0 := by omega
  rw [lastGroup, base64Value_digit (by omega), base64Value_digit (by omega)]
  simp only [Option.bind_eq_bind, Option.bind_some, and_self, if_true, hfirst, hbits,
    UInt8.ofNat_toNat]

end Groups

/-- A byte string is read back. -/
theorem base64Decode_encode (bs : List UInt8) : base64Decode (base64Encode bs) = some bs := by
  induction bs using base64Encode.induct with
  | case1 => rfl
  | case2 a => exact lastGroup_one a
  | case3 a b => exact lastGroup_two a b
  | case4 a b c bs ih =>
      have hlast := base64Digit_ne (n := c.toNat % 64) (by omega)
      have hgroup := lastGroup_three a b c
      cases hbs : base64Encode bs with
      | nil =>
          rw [hbs] at ih
          obtain rfl : [] = bs := Option.some.inj ih
          exact hgroup
      | cons d cs =>
          rw [hbs] at ih
          rw [base64Encode, hbs, base64Decode, if_neg hlast, hgroup, ih]
          · rfl
          · simp

/-- A byte string that is not empty has a digit. -/
theorem base64Encode_ne_nil {bs : List UInt8} (h : bs ≠ []) : base64Encode bs ≠ [] := by
  intro hnil
  have hread := base64Decode_encode bs
  rw [hnil] at hread
  exact h (Option.some.inj hread).symm

/-- What holds for the digits and the sign that is none holds for every character. -/
theorem forall_mem_base64Encode {p : Char → Prop} (hdigit : ∀ n < 64, p (base64Digit n))
    (hsign : p '=') (bs : List UInt8) : ∀ c ∈ base64Encode bs, p c := by
  have hbyte : ∀ b : UInt8, b.toNat < 256 := fun b => b.toNat_lt
  induction bs using base64Encode.induct with
  | case1 => exact List.forall_mem_nil _
  | case2 a =>
      have ha := hbyte a
      simp only [base64Encode, List.forall_mem_cons]
      exact ⟨hdigit _ (by omega), hdigit _ (by omega), hsign, hsign, List.forall_mem_nil _⟩
  | case3 a b =>
      have ha := hbyte a
      have hb := hbyte b
      simp only [base64Encode, List.forall_mem_cons]
      exact ⟨hdigit _ (by omega), hdigit _ (by omega), hdigit _ (by omega), hsign,
        List.forall_mem_nil _⟩
  | case4 a b c bs ih =>
      have ha := hbyte a
      have hb := hbyte b
      have hc := hbyte c
      simp only [base64Encode, List.forall_mem_cons]
      exact ⟨hdigit _ (by omega), hdigit _ (by omega), hdigit _ (by omega), hdigit _ (by omega), ih⟩

end Text

end DittoClient
