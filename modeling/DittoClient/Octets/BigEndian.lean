import Mathlib.Data.List.Basic
import Mathlib.Tactic.Ring

/-!
# Big-endian numbers

`bigEndian k n` is the `k`-byte big-endian form of `n`, truncated to `k` bytes, and
`ofBigEndian` reads a byte string as a big-endian number. Reading what was written
gives the number modulo `256 ^ k`, so a number that fits is read back exactly.
-/

namespace DittoClient

namespace Octets

/-- The last `k` base-256 digits of `n`, most significant digit first. -/
def bigEndian : ℕ → ℕ → List UInt8
  | 0, _ => []
  | k + 1, n => UInt8.ofNat (n / 256 ^ k) :: bigEndian k n

/-- A byte string read as a big-endian number. -/
def ofBigEndian (bs : List UInt8) : ℕ :=
  bs.foldl (fun acc b => acc * 256 + b.toNat) 0

@[simp] theorem length_bigEndian (k n : ℕ) : (bigEndian k n).length = k := by
  induction k with
  | zero => rfl
  | succ k ih => simp [bigEndian, ih]

theorem foldl_bigEndian (k n acc : ℕ) :
    (bigEndian k n).foldl (fun acc b => acc * 256 + b.toNat) acc =
      acc * 256 ^ k + n % 256 ^ k := by
  induction k generalizing acc with
  | zero => simp [bigEndian, Nat.mod_one]
  | succ k ih =>
      have hdigit : n % 256 ^ (k + 1) = 256 ^ k * (n / 256 ^ k % 256) + n % 256 ^ k := by
        rw [pow_succ, Nat.mod_mul, add_comm]
      rw [bigEndian, List.foldl_cons, ih, UInt8.toNat_ofNat', hdigit]
      ring

theorem ofBigEndian_bigEndian (k n : ℕ) : ofBigEndian (bigEndian k n) = n % 256 ^ k := by
  rw [ofBigEndian, foldl_bigEndian, Nat.zero_mul, Nat.zero_add]

/-- A number that fits in `k` bytes is read back as it was written. -/
theorem ofBigEndian_bigEndian_of_lt {k n : ℕ} (h : n < 256 ^ k) :
    ofBigEndian (bigEndian k n) = n := by
  rw [ofBigEndian_bigEndian, Nat.mod_eq_of_lt h]

end Octets

end DittoClient
