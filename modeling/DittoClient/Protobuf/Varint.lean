import DittoClient.Protobuf.Writer
import Mathlib.Tactic.Ring

/-!
# Varints

A varint writes a number in groups of seven bits, the least significant group first; every
byte but the last is at least 128. A number has many varints, since zero groups may follow,
and one canonical varint, which `encodeVarint` writes. No varint is the beginning of another
one, so that a varint at the front of a byte string is found without a length.
-/

namespace DittoClient

namespace Protobuf

/-- `bs` is a varint of the number `n`. -/
inductive IsVarint : List UInt8 → ℕ → Prop
  | last {b : UInt8} (hb : b.toNat < 128) : IsVarint [b] b.toNat
  | more {b : UInt8} {bs : List UInt8} {n : ℕ} (hb : 128 ≤ b.toNat) (h : IsVarint bs n) :
      IsVarint (b :: bs) (b.toNat % 128 + 128 * n)

namespace IsVarint

variable {bs cs xs ys : List UInt8} {m n : ℕ}

theorem ne_nil (h : IsVarint bs n) : bs ≠ [] := by
  cases h <;> simp

theorem length_pos (h : IsVarint bs n) : 0 < bs.length :=
  List.length_pos_of_ne_nil h.ne_nil

/-- A varint of `k` bytes holds `7 * k` bits. -/
theorem lt (h : IsVarint bs n) : n < 128 ^ bs.length := by
  induction h with
  | last hb => simpa using hb
  | @more b bs n hb _ ih =>
      have hdigit : b.toNat % 128 < 128 := Nat.mod_lt _ (by norm_num)
      rw [List.length_cons, pow_succ]
      omega

/-- Two varints at the front of one byte string are the same. -/
theorem append_inj (h : IsVarint bs m) (h' : IsVarint cs n) (heq : bs ++ xs = cs ++ ys) :
    bs = cs ∧ m = n ∧ xs = ys := by
  induction h generalizing cs n with
  | @last b hb =>
      cases h' with
      | last _ =>
          simp only [List.cons_append, List.nil_append, List.cons.injEq] at heq
          obtain ⟨rfl, rfl⟩ := heq
          exact ⟨rfl, rfl, rfl⟩
      | more hb' _ =>
          simp only [List.cons_append, List.cons.injEq] at heq
          rw [heq.1] at hb
          omega
  | @more b bs k hb _ ih =>
      cases h' with
      | last hb' =>
          simp only [List.cons_append, List.cons.injEq] at heq
          rw [heq.1] at hb
          omega
      | more _ hrest =>
          simp only [List.cons_append, List.cons.injEq] at heq
          obtain ⟨rfl, heq⟩ := heq
          obtain ⟨rfl, rfl, rfl⟩ := ih hrest heq
          exact ⟨rfl, rfl, rfl⟩

/-- Just the last byte of a varint has its top bit clear. -/
theorem exists_last (h : IsVarint bs n) :
    ∃ init last, bs = init ++ [last] ∧ (∀ b ∈ init, 128 ≤ b.toNat) ∧ last.toNat < 128 := by
  induction h with
  | @last b hb => exact ⟨[], b, rfl, List.forall_mem_nil _, hb⟩
  | @more b bs n hb _ ih =>
      obtain ⟨init, last, rfl, hinit, hlast⟩ := ih
      exact ⟨b :: init, last, rfl, List.forall_mem_cons.mpr ⟨hb, hinit⟩, hlast⟩

end IsVarint

theorem encodeVarintLoop_isVarint (fuel n : ℕ) (h : n ≤ fuel) :
    IsVarint (encodeVarintLoop fuel n) n := by
  induction fuel generalizing n with
  | zero =>
      obtain rfl : n = 0 := Nat.le_zero.mp h
      exact IsVarint.last (b := 0) (by simp)
  | succ fuel ih =>
      unfold encodeVarintLoop
      split
      · next hlt =>
          have hbyte : (UInt8.ofNat n).toNat = n := by
            rw [UInt8.toNat_ofNat', Nat.mod_eq_of_lt (by omega)]
          have hlast := IsVarint.last (b := UInt8.ofNat n) (by rw [hbyte]; exact hlt)
          rwa [hbyte] at hlast
      · next hge =>
          have hbyte : (UInt8.ofNat (n % 128 + 128)).toNat = n % 128 + 128 := by
            rw [UInt8.toNat_ofNat', Nat.mod_eq_of_lt (by omega)]
          have hmore := IsVarint.more (b := UInt8.ofNat (n % 128 + 128)) (by rw [hbyte]; omega)
            (ih (n / 128) (by omega))
          have hn : (n % 128 + 128) % 128 + 128 * (n / 128) = n := by omega
          rwa [hbyte, hn] at hmore

/-- The canonical varint of a number is one of its varints. -/
theorem encodeVarint_isVarint (n : ℕ) : IsVarint (encodeVarint n) n :=
  encodeVarintLoop_isVarint n n le_rfl

theorem length_encodeVarintLoop_le (fuel n k : ℕ) (h : n < 128 ^ (k + 1)) :
    (encodeVarintLoop fuel n).length ≤ k + 1 := by
  induction fuel generalizing n k with
  | zero => simp [encodeVarintLoop]
  | succ fuel ih =>
      unfold encodeVarintLoop
      split
      · simp
      · next hge =>
          cases k with
          | zero => exact absurd h (by simpa using hge)
          | succ k =>
              have hdiv : n / 128 < 128 ^ (k + 1) := by
                rw [Nat.div_lt_iff_lt_mul (by norm_num)]
                rwa [pow_succ] at h
              simpa using ih (n / 128) k hdiv

/-- The canonical varint of a number is its shortest one. -/
theorem IsVarint.length_encodeVarint_le {bs : List UInt8} {n : ℕ} (h : IsVarint bs n) :
    (encodeVarint n).length ≤ bs.length := by
  have hlen : bs.length - 1 + 1 = bs.length := Nat.sub_add_cancel h.length_pos
  have hle := length_encodeVarintLoop_le n n (bs.length - 1) (by rw [hlen]; exact h.lt)
  rwa [hlen] at hle

/-- The canonical varint of a 64-bit number has at most ten bytes. -/
theorem length_encodeVarint_le {n : ℕ} (h : n < 2 ^ 64) : (encodeVarint n).length ≤ 10 :=
  length_encodeVarintLoop_le n n 9 (lt_of_lt_of_le h (by decide))

end Protobuf

end DittoClient
