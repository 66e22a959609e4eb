import DittoClient.Protobuf.Faults
import DittoClient.Wire.Decoder

/-!
# The formats of the response decoders

The format that the reader of each decoder follows, and what it breaks at. The readers take
varints of up to eleven bytes, apart from Rust with overflow checks, which takes ten. The
Python and Node.js readers have no integer that overflows, the Go, Rust and Java readers
break at a length-delimited field that ends beyond their offsets.
-/

namespace DittoClient

namespace Wire

open DittoClient.Protobuf
open DittoClient.Protobuf.Rules

/-- The bits that are kept of a varint of up to eleven bytes where a shift is taken modulo
64: the last seven bits of eleven bytes are added to those from the sixth on. -/
def wrapped (n : ℕ) : ℕ :=
  n % 2 ^ 64 ||| n >>> 70 <<< 6

def pythonFormat : Format where
  limit := 11
  word n := n
  number t := some (t / 8)
  cut := true

def nodeFormat : Format where
  limit := 11
  word n := n
  number t := if maxSafeInteger < t then none else some (t % 2 ^ 32 / 8)
  cut := true

def rustFormat (overflowChecks : Bool) : Format where
  limit := if overflowChecks then 10 else 11
  word n := if overflowChecks then n % 2 ^ 64 else wrapped n
  number t := some (t % 2 ^ 32 / 8)
  cut := false

def goFormat : Format where
  limit := 11
  word n := n % 2 ^ 64
  number t := some (t / 8)
  cut := true

def javaFormat : Format where
  limit := 11
  word := wrapped
  number t := some (t / 8 % 2 ^ 32)
  cut := true

theorem checkedLength_eq_ok (s off n len : ℕ) :
    checkedLength s off n = .ok len ↔ len = n ∧ off + n ≤ s := by
  unfold checkedLength
  split
  · next h => exact ⟨fun he => (by cases he), fun ⟨_, hle⟩ => absurd hle (Nat.not_le.mpr h)⟩
  · next h =>
      refine ⟨fun he => ?_, fun ⟨he, _⟩ => he ▸ rfl⟩
      cases he
      exact ⟨rfl, Nat.le_of_not_lt h⟩

theorem not_broken_checkedLength (s off n : ℕ) : ¬ Broken (checkedLength s off n) := by
  unfold checkedLength
  split
  · exact not_broken_malformed _
  · exact not_broken_ok _

theorem wrapped_or (x y : ℕ) : wrapped (x ||| y) = wrapped x ||| wrapped y := by
  unfold wrapped
  rw [Nat.or_mod_two_pow, Nat.shiftRight_or_distrib, Nat.shiftLeft_or_distrib, Nat.or_assoc,
    Nat.or_assoc, ← Nat.or_assoc (y % 2 ^ 64), Nat.or_comm (y % 2 ^ 64), Nat.or_assoc]

/-- A group of seven bits, shifted modulo 64. -/
theorem wrapped_shiftLeft {k bits : ℕ} (hk : k < 11) (hbits : bits < 128) :
    wrapped (bits <<< (7 * k)) = (bits <<< (7 * k % 64)) % 2 ^ 64 := by
  unfold wrapped
  rcases Nat.lt_or_ge k 10 with hlt | hge
  · have hsmall : bits <<< (7 * k) < 2 ^ 70 := by
      have hpow : 2 ^ (7 * k) ≤ 2 ^ 63 := Nat.pow_le_pow_right (by norm_num) (by omega)
      rw [Nat.shiftLeft_eq]
      calc bits * 2 ^ (7 * k) < 128 * 2 ^ (7 * k) :=
            Nat.mul_lt_mul_of_pos_right hbits (Nat.two_pow_pos _)
        _ ≤ 128 * 2 ^ 63 := Nat.mul_le_mul_left _ hpow
        _ = 2 ^ 70 := by norm_num
    rw [Nat.shiftRight_eq_div_pow, Nat.div_eq_of_lt hsmall, Nat.zero_shiftLeft, Nat.or_zero,
      Nat.mod_eq_of_lt (b := 64) (by omega)]
  · obtain rfl : k = 10 := by omega
    have hzero : bits <<< 70 % 2 ^ 64 = 0 := by
      rw [Nat.shiftLeft_eq]
      omega
    have hback : bits <<< 70 >>> 70 = bits := Nat.shiftLeft_shiftRight bits 70
    have hsix : bits <<< 6 < 2 ^ 64 := by
      rw [Nat.shiftLeft_eq]
      omega
    change bits <<< 70 % 2 ^ 64 ||| bits <<< 70 >>> 70 <<< 6 = bits <<< 6 % 2 ^ 64
    rw [hzero, hback, Nat.zero_or, Nat.mod_eq_of_lt hsix]

section Accumulate

variable {d : Rules} {φ : ℕ → ℕ} {limit : ℕ}

/-- The word of a varint, where its groups are added up from zero. -/
theorem accumulateAll_zero (hor : ∀ x y, φ (x ||| y) = φ x ||| φ y)
    (hacc : ∀ result k bits, k < limit → bits < 128 →
      d.accumulate result (7 * k) bits = .ok (result ||| φ (bits <<< (7 * k))))
    {bs : List UInt8} {m : ℕ} (h : IsVarint bs m) (hlen : bs.length ≤ limit) :
    d.accumulateAll 0 0 bs = .ok (φ m) := by
  have hall := accumulateAll_eq_ok (d := d) hor hacc h 0 0 (by omega)
  simpa using hall

/-- Every varint of up to eleven bytes is read. -/
theorem word_of_accumulate (hor : ∀ x y, φ (x ||| y) = φ x ||| φ y)
    (hacc : ∀ result k bits, k < 11 → bits < 128 →
      d.accumulate result (7 * k) bits = .ok (result ||| φ (bits <<< (7 * k))))
    (bs : List UInt8) (m n : ℕ) (h : IsVarint bs m) (hlen : bs.length ≤ 11) :
    d.accumulateAll 0 0 bs = .ok n ↔ bs.length ≤ 11 ∧ n = φ m := by
  rw [accumulateAll_zero hor hacc h hlen, Except.ok.injEq, eq_comm]
  exact ⟨fun hn => ⟨hlen, hn⟩, fun hn => hn.2⟩

/-- The eleventh byte of a varint is refused. -/
theorem accumulateAll_eleven
    (hacc : ∀ result k bits, k < 10 → bits < 128 →
      d.accumulate result (7 * k) bits = .ok (result ||| φ (bits <<< (7 * k))))
    (hten : ∀ result bits, ∃ e, d.accumulate result 70 bits = .error e) (bs : List UInt8)
    (k result : ℕ) (hk : k ≤ 10) (hlen : 11 ≤ k + bs.length) :
    ∃ e, d.accumulateAll (7 * k) result bs = .error e := by
  induction bs generalizing k result with
  | nil =>
      rw [List.length_nil] at hlen
      omega
  | cons b bs ih =>
      rw [List.length_cons] at hlen
      have hmod : b.toNat % 128 < 128 := Nat.mod_lt _ (by norm_num)
      rcases Nat.lt_or_ge k 10 with hlt | hge
      · simp only [accumulateAll, hacc result k _ hlt hmod]
        exact ih (k + 1) _ (by omega) (by omega)
      · obtain rfl : k = 10 := by omega
        obtain ⟨e, he⟩ := hten result (b.toNat % 128)
        exact ⟨e, by simp only [accumulateAll, he]; rfl⟩

/-- Every varint of up to ten bytes is read. -/
theorem word_of_ten (hor : ∀ x y, φ (x ||| y) = φ x ||| φ y)
    (hacc : ∀ result k bits, k < 10 → bits < 128 →
      d.accumulate result (7 * k) bits = .ok (result ||| φ (bits <<< (7 * k))))
    (hten : ∀ result bits, ∃ e, d.accumulate result 70 bits = .error e)
    (bs : List UInt8) (m n : ℕ) (h : IsVarint bs m) (hlen : bs.length ≤ 11) :
    d.accumulateAll 0 0 bs = .ok n ↔ bs.length ≤ 10 ∧ n = φ m := by
  rcases Nat.lt_or_ge bs.length 11 with hlt | hge
  · rw [accumulateAll_zero hor hacc h (by omega), Except.ok.injEq, eq_comm]
    exact ⟨fun hn => ⟨Nat.le_of_lt_succ hlt, hn⟩, fun hn => hn.2⟩
  · obtain ⟨e, he⟩ := accumulateAll_eleven hacc hten bs 0 0 (by omega) (by omega)
    rw [show d.accumulateAll 0 0 bs = .error e from he]
    refine ⟨fun h => (by cases h), fun ⟨hle, _⟩ => ?_⟩
    omega

/-- A reader whose numbers do not overflow does not break at a varint. -/
theorem not_broken_readVarint
    (hacc : ∀ result k bits, k < 11 → bits < 128 →
      d.accumulate result (7 * k) bits = .ok (result ||| φ (bits <<< (7 * k)))) (r : Reader) :
    ¬ Broken (d.readVarint r) := by
  have hloop : ∀ (fuel k result : ℕ) (r : Reader), k + fuel ≤ 11 →
      ¬ Broken (d.readVarintLoop fuel (7 * k) result r) := by
    intro fuel
    induction fuel with
    | zero => exact fun k result r _ => not_broken_malformed _
    | succ fuel ih =>
        intro k result r hk
        unfold readVarintLoop
        split
        · exact not_broken_malformed _
        · next b _ =>
            have hlt : b.toNat % 128 < 128 := Nat.mod_lt _ (by norm_num)
            rw [hacc result k _ (by omega) hlt]
            change ¬ Broken (if b.toNat < 128 then _ else _)
            split
            · exact not_broken_ok _
            · exact ih (k + 1) _ _ (by omega)
  exact hloop 11 0 0 r le_rfl

end Accumulate

/-- The Python reader follows its format on byte strings of any length. -/
theorem python_follows (size : ℕ) : pythonDialect.Follows pythonFormat size where
  limit := le_rfl
  word := word_of_accumulate (fun _ _ => rfl) fun _ _ _ _ _ => rfl
  tag t k w := by simp [pythonDialect, pythonFormat, eq_comm]
  length s off n len _ := checkedLength_eq_ok s off n len
  cut := rfl

theorem python_failsAt (size : ℕ) :
    pythonDialect.FailsAt size (fun _ => False) fun _ _ => False where
  varint r := iff_false_intro
    (not_broken_readVarint (φ := fun n => n) (fun _ _ _ _ _ => rfl) r)
  tag _ := not_broken_ok _
  length s off n _ := iff_false_intro (not_broken_checkedLength s off n)

/-- The Node.js reader follows its format on byte strings whose length is a safe integer. -/
theorem node_follows : nodeDialect.Follows nodeFormat maxSafeInteger where
  limit := le_rfl
  word := word_of_accumulate (fun _ _ => rfl) fun _ _ _ _ _ => rfl
  tag t k w := by
    simp only [nodeDialect, nodeFormat, asNumber]
    split
    · exact ⟨fun h => (by cases h), fun h => (by cases h.1)⟩
    · simp [bind, Except.bind, eq_comm]
  length s off n len hs := by
    simp only [nodeDialect, asNumber]
    split
    · next hlt =>
        refine ⟨fun h => (by cases h), fun ⟨_, hle⟩ => ?_⟩
        omega
    · exact checkedLength_eq_ok s off n len
  cut := rfl

theorem not_broken_asNumber (n : ℕ) : ¬ Broken (asNumber n) := by
  unfold asNumber
  split
  · exact not_broken_malformed _
  · exact not_broken_ok _

theorem node_failsAt : nodeDialect.FailsAt maxSafeInteger (fun _ => False) fun _ _ => False where
  varint r := iff_false_intro
    (not_broken_readVarint (φ := fun n => n) (fun _ _ _ _ _ => rfl) r)
  tag t := by
    rintro h
    rcases broken_bind.mp h with h | ⟨_, _, h⟩
    · exact not_broken_asNumber t h
    · exact not_broken_ok _ h
  length s off n _ := by
    refine iff_false_intro fun h => ?_
    rcases broken_bind.mp h with h | ⟨_, _, h⟩
    · exact not_broken_asNumber n h
    · exact not_broken_checkedLength _ _ _ h

/-- The largest offset that the Go reader reaches on byte strings of some length. -/
theorem go_follows : goDialect.Follows goFormat (2 ^ 63 - 1) where
  limit := le_rfl
  word := word_of_accumulate (φ := fun n => n % 2 ^ 64) (fun x y => Nat.or_mod_two_pow)
    fun _ _ _ _ _ => rfl
  tag t k w := by simp [goDialect, goFormat, eq_comm]
  length s off n len hs := by
    simp only [goDialect]
    split
    · exact checkedLength_eq_ok s off n len
    · refine ⟨fun h => (by cases h), fun ⟨_, hle⟩ => ?_⟩
      omega
  cut := rfl

/-- The end of a length-delimited field, where it is checked before it is computed. -/
theorem broken_ite_length (limit s off n : ℕ) (m : String) :
    Broken (if off + n < limit then checkedLength s off n else .error (.runtime m)) ↔
      limit ≤ off + n := by
  split
  · next h =>
      exact ⟨fun hb => absurd hb (not_broken_checkedLength s off n), fun hle => by omega⟩
  · next h => exact ⟨fun _ => Nat.le_of_not_lt h, fun _ => ⟨m, rfl⟩⟩

theorem go_failsAt (size : ℕ) :
    goDialect.FailsAt size (fun _ => False) fun off n => 2 ^ 63 ≤ off + n where
  varint r := iff_false_intro
    (not_broken_readVarint (φ := fun n => n % 2 ^ 64) (fun _ _ _ _ _ => rfl) r)
  tag _ := not_broken_ok _
  length s off n _ := broken_ite_length _ s off n _

theorem java_accumulate (result k bits : ℕ) (hk : k < 11) (hbits : bits < 128) :
    javaDialect.accumulate result (7 * k) bits = .ok (result ||| wrapped (bits <<< (7 * k))) := by
  rw [wrapped_shiftLeft hk hbits]
  rfl

theorem java_follows : javaDialect.Follows javaFormat (2 ^ 31 - 1) where
  limit := le_rfl
  word := word_of_accumulate wrapped_or java_accumulate
  tag t k w := by simp [javaDialect, javaFormat, eq_comm]
  length s off n len hs := by
    simp only [javaDialect, asInt]
    split
    · change (if off + n < 2 ^ 31 then checkedLength s off n else _) = _ ↔ _
      split
      · exact checkedLength_eq_ok s off n len
      · refine ⟨fun h => (by cases h), fun ⟨_, hle⟩ => ?_⟩
        omega
    · refine ⟨fun h => (by cases h), fun ⟨_, hle⟩ => ?_⟩
      omega
  cut := rfl

theorem java_failsAt (size : ℕ) :
    javaDialect.FailsAt size (fun _ => False) fun off n => n < 2 ^ 31 ∧ 2 ^ 31 ≤ off + n where
  varint r := iff_false_intro (not_broken_readVarint java_accumulate r)
  tag _ := not_broken_ok _
  length s off n _ := by
    simp only [javaDialect, asInt]
    split
    · next hlt => exact (broken_ite_length _ s off n _).trans (and_iff_right hlt).symm
    · next hge => exact ⟨fun h => absurd h (not_broken_malformed _), fun h => absurd h.1 hge⟩

/-- Ten bytes that announce an eleventh, and the eleventh. -/
def Overlong (bs : List UInt8) : Prop :=
  11 ≤ bs.length ∧ ∀ b ∈ bs.take 10, 128 ≤ b.toNat

instance (bs : List UInt8) : Decidable (Overlong bs) :=
  inferInstanceAs (Decidable (_ ∧ _))

theorem rust_accumulate (result k bits : ℕ) (hk : k < 10) (_ : bits < 128) :
    (rustDialect true).accumulate result (7 * k) bits =
      .ok (result ||| (bits <<< (7 * k)) % 2 ^ 64) := by
  have hshift : 7 * k < 64 := by omega
  exact if_pos hshift

theorem rust_accumulate_wrapping (result k bits : ℕ) (hk : k < 11) (hbits : bits < 128) :
    (rustDialect false).accumulate result (7 * k) bits =
      .ok (result ||| wrapped (bits <<< (7 * k))) := by
  rw [wrapped_shiftLeft hk hbits]
  change (if 7 * k < 64 then _ else _) = _
  split
  · next hlt => rw [Nat.mod_eq_of_lt hlt]
  · rfl

theorem rust_follows (overflowChecks : Bool) :
    (rustDialect overflowChecks).Follows (rustFormat overflowChecks) (2 ^ 64 - 1) where
  limit := by cases overflowChecks <;> decide
  word bs m n h hlen := by
    cases overflowChecks with
    | false => exact word_of_accumulate wrapped_or rust_accumulate_wrapping bs m n h hlen
    | true =>
        exact word_of_ten (φ := fun n => n % 2 ^ 64) (fun x y => Nat.or_mod_two_pow)
          rust_accumulate (fun _ _ => ⟨_, rfl⟩) bs m n h hlen
  tag t k w := by simp [rustDialect, rustFormat, eq_comm]
  length s off n len hs := by
    simp only [rustDialect]
    split
    · exact checkedLength_eq_ok s off n len
    · refine ⟨fun h => (by cases h), fun ⟨_, hle⟩ => ?_⟩
      omega
  cut := rfl

/-- A reader with overflow checks breaks at an eleventh byte. -/
theorem rust_readVarintLoop_broken (fuel result : ℕ) (r : Reader) (hfuel : fuel ≤ 10) :
    Broken ((rustDialect true).readVarintLoop (fuel + 1) (7 * (10 - fuel)) result r) ↔
      fuel + 1 ≤ r.rest.length ∧ ∀ b ∈ r.rest.take fuel, 128 ≤ b.toNat := by
  induction fuel generalizing result r with
  | zero =>
      unfold readVarintLoop
      rw [Reader.getElem?_off]
      cases hrest : r.rest with
      | nil => simp
      | cons b bs =>
          have hbroken : Broken ((rustDialect true).accumulate result (7 * (10 - 0))
              (b.toNat % 128)) := ⟨_, rfl⟩
          simp [broken_bind, hbroken]
  | succ fuel ih =>
      unfold readVarintLoop
      rw [Reader.getElem?_off]
      cases hrest : r.rest with
      | nil => simp
      | cons b bs =>
          have hmod : b.toNat % 128 < 128 := Nat.mod_lt _ (by norm_num)
          have hnext : (r.advance 1).rest = bs := Reader.rest_append r (show r.rest = [b] ++ bs from hrest)
          have hshift : 7 * (10 - (fuel + 1)) + 7 = 7 * (10 - fuel) := by omega
          simp only [List.head?_cons, rust_accumulate result _ _ (show 10 - (fuel + 1) < 10 by omega)
            hmod, hshift]
          change Broken (if b.toNat < 128 then _ else _) ↔ _
          split
          · next hlt =>
              refine iff_of_false (not_broken_ok _) fun h => ?_
              have hb := h.2 b (by simp)
              omega
          · next hge =>
              refine (ih _ (r.advance 1) (by omega)).trans ?_
              rw [hnext]
              simp [Nat.le_of_not_lt hge]

theorem rust_failsAt (overflowChecks : Bool) (size : ℕ) :
    (rustDialect overflowChecks).FailsAt size (fun bs => overflowChecks = true ∧ Overlong bs)
      fun off n => 2 ^ 64 ≤ off + n where
  varint r := by
    cases overflowChecks with
    | false =>
        simp only [Bool.false_eq_true, false_and, iff_false]
        exact not_broken_readVarint rust_accumulate_wrapping r
    | true =>
        simp only [true_and]
        exact rust_readVarintLoop_broken 10 0 r le_rfl
  tag _ := not_broken_ok _
  length s off n _ := broken_ite_length _ s off n _

end Wire

end DittoClient
