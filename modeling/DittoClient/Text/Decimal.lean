import Mathlib.Data.Int.Notation
import Mathlib.Data.Nat.Notation

/-!
# Decimal numbers

A number is written with its decimal digits, with a minus sign if it is negative, and is read back
from these characters. A text with any other character, or without a digit, is no number, but a plus
sign may be allowed in front.
-/

namespace DittoClient

namespace Text

/-- The number that a text of digits stands for. -/
def natural? (cs : List Char) : Option ℕ :=
  if cs ≠ [] ∧ cs.all Char.isDigit = true then some (Nat.ofDigitChars 10 cs 0) else none

/-- The number that a text stands for, which may have a sign. -/
def integer? : List Char → Option ℤ
  | '-' :: cs => (natural? cs).map fun n => -(n : ℤ)
  | cs => (natural? cs).map fun n => (n : ℤ)

/-- Plus signs are read as well. -/
def signed? : List Char → Option ℤ
  | '+' :: cs => (natural? cs).map fun n => (n : ℤ)
  | cs => integer? cs

def unsigned? : List Char → Option ℕ
  | '+' :: cs => natural? cs
  | cs => natural? cs

theorem digits_toDigits (n : ℕ) : (Nat.toDigits 10 n).all Char.isDigit = true :=
  List.all_eq_true.mpr fun _ hc => Nat.isDigit_of_mem_toDigits (by decide) (by decide) hc

theorem natural?_toDigits (n : ℕ) : natural? (Nat.toDigits 10 n) = some n := by
  rw [natural?, if_pos ⟨Nat.toDigits_ne_nil, digits_toDigits n⟩, Nat.ofDigitChars_ten_toDigits]

theorem toList_toString_natural (n : ℕ) : (toString (n : ℤ)).toList = Nat.toDigits 10 n :=
  Nat.toList_repr

theorem toList_toString_negative (n : ℕ) :
    (toString (Int.negSucc n)).toList = '-' :: Nat.toDigits 10 (n + 1) := by
  change ("-" ++ Nat.repr (n + 1)).toList = _
  rw [String.toList_append, Nat.toList_repr]
  rfl

/-- A number that begins with a digit is not negative. -/
theorem integer?_of_digits {cs : List Char} (h : cs.all Char.isDigit = true) :
    integer? cs = (natural? cs).map fun n => (n : ℤ) := by
  cases cs with
  | nil => rfl
  | cons c cs =>
      have hc : c ≠ '-' := by
        rintro rfl
        rw [List.all_cons, Bool.and_eq_true] at h
        exact absurd h.1 (by decide)
      unfold integer?
      split
      · next heq => exact absurd (List.cons.inj heq).1 hc
      · rfl

/-- A number is read back. -/
theorem integer?_toString (z : ℤ) : integer? (toString z).toList = some z := by
  cases z with
  | ofNat n =>
      change integer? (toString (n : ℤ)).toList = some (n : ℤ)
      rw [toList_toString_natural, integer?_of_digits (digits_toDigits n), natural?_toDigits]
      rfl
  | negSucc n =>
      rw [toList_toString_negative, integer?, natural?_toDigits]
      rfl

/-- A text that does not begin with a plus sign. -/
theorem signed?_of_ne {cs : List Char} (h : cs.head? ≠ some '+') : signed? cs = integer? cs := by
  unfold signed?
  split
  · exact absurd rfl h
  · rfl

theorem unsigned?_of_ne {cs : List Char} (h : cs.head? ≠ some '+') :
    unsigned? cs = natural? cs := by
  unfold unsigned?
  split
  · exact absurd rfl h
  · rfl

theorem head?_toDigits (n : ℕ) : (Nat.toDigits 10 n).head? ≠ some '+' := by
  intro h
  have hdigit := List.all_eq_true.mp (digits_toDigits n) '+' (List.mem_of_mem_head? h)
  exact absurd hdigit (by decide)

theorem signed?_toString (z : ℤ) : signed? (toString z).toList = some z := by
  rw [signed?_of_ne, integer?_toString]
  cases z with
  | ofNat n =>
      change (toString (n : ℤ)).toList.head? ≠ _
      rw [toList_toString_natural]
      exact head?_toDigits n
  | negSucc n =>
      rw [toList_toString_negative]
      simp

end Text

end DittoClient
