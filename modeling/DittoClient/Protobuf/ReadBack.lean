import DittoClient.Protobuf.Canonical
import DittoClient.Protobuf.Primitive

/-!
# Reading back what was written

`Reads read bs a` says that a primitive of a reader takes `bs` for `a`, whatever follows, and
that it takes no proper beginning of `bs` for anything. The varints of a format are read so, and
what is made of the number that a varint holds is read like the varint.
-/

namespace DittoClient

namespace Protobuf

section Reads

variable {α β : Type}

/-- `bs` is read as `a`, and nothing else is read where the bytes end within `bs`. -/
structure Reads (read : Reader → Except DecodeError (α × Reader)) (bs : List UInt8) (a : α) :
    Prop where
  back : ∀ r ys, r.rest = bs ++ ys → read r = .ok (a, r.advance bs.length)
  whole : ∀ r, r.rest <+: bs → r.rest ≠ bs → ∀ x, read r ≠ .ok x

variable {read : Reader → Except DecodeError (α × Reader)} {bs : List UInt8} {a : α} {b : β}

/-- What is made of the value that is read. -/
theorem Reads.bind {f : α → Except DecodeError β} (h : Reads read bs a) (hf : f a = .ok b) :
    Reads (fun r => read r >>= fun x => f x.1 >>= fun b => .ok (b, x.2)) bs b where
  back r ys heq := by
    simp only [h.back r ys heq]
    change (f a >>= fun b => .ok (b, r.advance bs.length)) = _
    rw [hf]
    rfl
  whole r hbegin hne x hx := by
    cases hr : read r with
    | ok y => exact h.whole r hbegin hne y hr
    | error e =>
        rw [hr] at hx
        cases hx

end Reads

namespace Rules

variable {d : Rules} {F : Format} {size n : ℕ} {bs : List UInt8}

/-- A varint is read whole or not at all. -/
theorem Follows.reads (h : d.Follows F size) (hv : F.Varint bs n) : Reads d.readVarint bs n where
  back r ys heq := (h.readVarint_eq_ok r _ n).mpr ⟨bs, ys, hv, heq, rfl⟩
  whole r hbegin hne x hx := by
    obtain ⟨m, r'⟩ := x
    obtain ⟨vs, ys, hvs, heq, -⟩ := (h.readVarint_eq_ok r r' m).mp hx
    obtain ⟨zs, hzs⟩ := hbegin
    have happend : vs ++ (ys ++ zs) = bs ++ [] := by
      rw [← List.append_assoc, ← heq, hzs, List.append_nil]
    obtain ⟨-, -, hnil⟩ := hvs.append_inj hv happend
    rw [(List.append_eq_nil_iff.mp hnil).2, List.append_nil] at hzs
    exact hne hzs

end Rules

/-- No varint that a format takes for a 64-bit number is shorter than the canonical one. -/
theorem Format.Standard.canonical_le {F : Format} (hF : F.Standard) {bs : List UInt8}
    {n : ℕ} (hn : n < 2 ^ 64) (h : F.Varint bs n) : (encodeVarint n).length ≤ bs.length := by
  obtain ⟨m, hm, -, rfl⟩ := h
  by_cases hlt : m < 2 ^ 64
  · rw [hF.word m hlt]
    exact hm.length_encodeVarint_le
  · -- so large a number does not fit in nine bytes
    have hten : 9 < bs.length := by
      rw [← Nat.pow_lt_pow_iff_right (a := 128) (by decide)]
      exact lt_of_lt_of_le (by decide) ((Nat.le_of_not_lt hlt).trans hm.lt.le)
    exact (length_encodeVarint_le hn).trans hten

end Protobuf

end DittoClient
