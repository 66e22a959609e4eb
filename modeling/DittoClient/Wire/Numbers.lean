import DittoClient.Wire.Delivery
import DittoClient.Wire.Extent
import DittoClient.Wire.RustDecoding

/-!
# Numbers beyond 64 bits

The encoders of Python and Node.js take integers of any size, but the fields of a frame have 64
bits. An increment is cut to its low 64 bits, and a lifetime from 2^64 on is written as a varint
of more bytes than a reader takes, or one that it cuts. A frame carries its numbers if and only
if they have 64 bits.
-/

namespace DittoClient

namespace Wire

open DittoClient.Octets
open DittoClient.Protobuf
open DittoClient.Text

/-- A reader of the format `F` finds the numbers of a request in a frame: the increment as a
signed 64-bit number, a positive lifetime as the number in its wrapper message. -/
def Carries (F : Format) (frame : List UInt8) (r : Request) : Prop :=
  ∃ inner, Delivers F frame r.variant inner ∧
    (∀ d ∈ r.delta, ∃ n, Holds F 2 (.varint n) inner ∧ signed64 n = d) ∧
    ∀ t ∈ r.ttl, 0 < t → ∃ w n, Holds F r.ttlNumber (.bytes w) inner ∧ Holds F 1 (.varint n) w ∧
      (n : ℤ) = t

/-- The increment is a signed, the lifetime an unsigned number of 64 bits. -/
def Request.HasWords (r : Request) : Prop :=
  (∀ d ∈ r.delta, -2 ^ 63 ≤ d ∧ d < 2 ^ 63) ∧ ∀ t ∈ r.ttl, t < 2 ^ 64

section Carries

variable {r : Request} {frame : List UInt8}

/-- A reader finds only numbers of 64 bits. -/
theorem Carries.hasWords (h : Carries referenceFormat frame r) : r.HasWords := by
  obtain ⟨inner, -, hdelta, httl⟩ := h
  constructor
  · intro d hd
    obtain ⟨n, hn, rfl⟩ := hdelta d hd
    obtain ⟨m, rfl⟩ := hn.word
    have hlt : m % 2 ^ 64 < 2 ^ 64 := Nat.mod_lt _ (by decide)
    change -2 ^ 63 ≤ signed64 (m % 2 ^ 64) ∧ signed64 (m % 2 ^ 64) < 2 ^ 63
    unfold signed64
    split <;> omega
  · intro t ht
    by_cases hpos : 0 < t
    · obtain ⟨w, n, -, hn, rfl⟩ := httl t ht hpos
      obtain ⟨m, rfl⟩ := hn.word
      change ((m % 2 ^ 64 : ℕ) : ℤ) < 2 ^ 64
      omega
    · omega

/-- What the content of a request keeps. -/
theorem Unbounded.content_keeps (u : Unbounded) (r : Request) :
    (u.content r).variant = r.variant ∧ (u.content r).ttlNumber = r.ttlNumber ∧
      (∀ d ∈ r.delta, d ∈ (u.content r).delta) ∧ ∀ t ∈ r.ttl, 0 < t → t ∈ (u.content r).ttl := by
  have hfilter : ∀ {ttl : Option ℤ}, ∀ t ∈ ttl, 0 < t →
      t ∈ ttl.filter fun t => decide (0 < t) :=
    fun t ht hpos => Option.filter_eq_some_iff.mpr ⟨ht, decide_eq_true hpos⟩
  cases u with
  | python =>
      cases r with
      | incr key delta ttlSecsOnCreate ns =>
          refine ⟨rfl, rfl, fun d hd => ?_, hfilter⟩
          obtain rfl := Option.mem_def.mp hd
          exact rfl
      | _ => exact ⟨rfl, rfl, fun d hd => hd, hfilter⟩
  | node => cases r <;> exact ⟨rfl, rfl, fun d hd => hd, hfilter⟩

/-- A canonical frame carries numbers of 64 bits. -/
theorem Request.HasWords.carries (u : Unbounded) (h : r.HasWords)
    (hlen : (u.content r).envelope.length < 2 ^ 64) :
    Carries referenceFormat (framed (u.content r).envelope) r := by
  obtain ⟨hvariant, hnumber, hdelta, httl⟩ := u.content_keeps r
  refine ⟨encodeMessage (u.content r).slots, ?_, fun d hd => ?_, fun t ht hpos => ?_⟩
  · rw [← hvariant]
    exact delivers_envelope reference_standard hlen
  · have hheld := Request.holds reference_standard hlen (mem_slots_delta (hdelta d hd)) rfl
    exact ⟨bits64 d, hheld, signed64_bits64 (h.1 d hd).1 (h.1 d hd).2⟩
  · have hheld := Request.holds reference_standard hlen (mem_slots_ttl (httl t ht hpos)) rfl
    have hlt := h.2 t ht
    have hnat : ((t.toNat : ℕ) : ℤ) = t := Int.toNat_of_nonneg hpos.le
    have hsmall : (Slot.uint 1 t.toNat).Small :=
      ⟨Nat.one_lt_two_pow (by decide), Or.inr (by change t.toNat < 2 ^ 64; omega)⟩
    have hword : Holds referenceFormat 1 (.varint t.toNat) (encodeMessage [.uint 1 t.toNat]) := by
      refine reference_standard.holds (List.forall_mem_singleton.mpr hsmall)
        ((length_le_encodeMessage (mem_slots_ttl (httl t ht hpos)) rfl rfl).trans_lt
          (length_slots_lt hlen)) ?_
      rw [written_cons, if_neg (by simp only [Slot.uint, decide_eq_true_eq]; omega)]
      rfl
    rw [← hnumber]
    exact ⟨_, _, hheld, hword, hnat⟩

end Carries

/-- Every frame that is written for a request carries its numbers if and only if they have 64
bits, or if there is no frame since the envelope does not fit in one. -/
theorem numbers_carried_iff (u : Unbounded) (r : Request) :
    (∀ frame, u.encoder.encode r = .ok frame → Carries referenceFormat frame r) ↔
      r.HasWords ∨ 2 ^ 32 ≤ (u.content r).extent := by
  rw [← Request.length_envelope]
  constructor
  · intro h
    by_cases hlen : (u.content r).envelope.length < 2 ^ 32
    · exact Or.inl (h _ ((u.encode_eq_ok_iff r).mpr ⟨hlen, rfl⟩)).hasWords
    · exact Or.inr (not_lt.mp hlen)
  · rintro hcond frame hframe
    obtain ⟨hlen, rfl⟩ := (u.encode_eq_ok_iff r).mp hframe
    rcases hcond with h | h
    · exact h.carries u (hlen.trans (by decide))
    · exact absurd hlen (not_lt.mpr h)

/-- An increment of 2^63 arrives as -2^63, and a lifetime of 2^64 as no number. -/
theorem numbers_changed :
    (¬ ∀ frame, pythonEncoder.encode (.incr "k" (some (2 ^ 63)) none none) = .ok frame →
      Carries referenceFormat frame (.incr "k" (some (2 ^ 63)) none none)) ∧
    (¬ ∀ frame, nodeEncoder.encode (.incr "k" (some (2 ^ 63)) none none) = .ok frame →
      Carries referenceFormat frame (.incr "k" (some (2 ^ 63)) none none)) ∧
    ¬ ∀ frame, pythonEncoder.encode (.set "k" [1] (some (2 ^ 64)) none) = .ok frame →
      Carries referenceFormat frame (.set "k" [1] (some (2 ^ 64)) none) := by
  have hdelta : ¬ (Request.incr "k" (some (2 ^ 63)) none none).HasWords := fun h =>
    absurd (h.1 (2 ^ 63) rfl).2 (lt_irrefl _)
  have httl : ¬ (Request.set "k" [1] (some (2 ^ 64)) none).HasWords := fun h =>
    absurd (h.2 (2 ^ 64) rfl) (lt_irrefl _)
  exact ⟨fun h => hdelta (h _ rfl).hasWords, fun h => hdelta (h _ rfl).hasWords,
    fun h => httl (h _ rfl).hasWords⟩

end Wire

end DittoClient
