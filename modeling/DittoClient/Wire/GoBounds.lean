import DittoClient.Protobuf.Calls
import DittoClient.Wire.Agreement

/-!
# Bounds of the Go decoder

The reader of the Go client stays within its slice as long as it skips no fixed-width field
that is cut short, and its decoder panics just at a length whose end does not fit in an `int`.
-/

namespace DittoClient

namespace Wire

open DittoClient.Protobuf
open DittoClient.Transition

/-- The end of a field does not fit in an `int`. -/
def GoFar (off n : ℕ) : Prop :=
  2 ^ 63 ≤ off + n

theorem go_total : goDialect.Total :=
  ⟨fun n => ⟨n, rfl⟩, fun n => ⟨n, rfl⟩, fun bs => ⟨Octets.utf8Lossy bs, rfl⟩⟩

/-- Runs of reader calls that skip no field that is cut short stay within the slice, and every
call advances; a call leaves the slice just when it skips such a field. The decoder panics just
when it comes to a length whose end does not fit in an `int`, and its loops come to an end: with
more fuel than there are bytes they return the same. -/
theorem go_decoder_in_bounds (bs : List UInt8) (hlen : bs.length < 2 ^ 63) :
    (∀ cs r, Run goDialect.perform (fun r c => c.Whole r) ⟨bs, 0⟩ cs r →
      r.buf = bs ∧ r.off ≤ bs.length ∧ cs.length ≤ bs.length ∧
        ∀ c r', goDialect.perform r c = some r' →
          r.off < r'.off ∧ (r'.off ≤ bs.length ↔ c.Whole r)) ∧
    (¬ Broken (goDialect.decodeResponse bs) ↔
      ¬ PayloadFaults goDialect goFormat (fun _ => False) GoFar bs) ∧
    ∀ fuel, bs.length ≤ fuel →
      (∀ (α : Type) (handle : ℕ × ℕ → Reader → α → Option (Except DecodeError (α × Reader)))
        (take : Field → α → Except DecodeError α) (a : α), goDialect.Takes handle take →
        goDialect.fieldsLoop handle fuel ⟨bs, 0⟩ a = goDialect.fields handle bs a) ∧
      goDialect.oneofLoop goDialect.decodeVariant goDialect.absent fuel ⟨bs, 0⟩ =
        goDialect.oneof goDialect.decodeVariant goDialect.absent bs := by
  have hsize : bs.length ≤ 2 ^ 63 - 1 := by omega
  refine ⟨fun cs r hrun => ?_, ?_, fun fuel hfuel => ⟨fun α handle take a ht => ?_, ?_⟩⟩
  · obtain ⟨rfl, hoff, hcalls⟩ := go_follows.run_within hsize hrun
    refine ⟨rfl, hoff, hcalls.trans hoff, fun c r' hr => ?_⟩
    exact (go_follows.perform_within hsize hoff hr).2
  · exact not_congr (go_total.decodeResponse_faults (go_failsAt _) go_follows hsize)
  · exact go_follows.fieldsLoop_fuel ht hsize hfuel le_rfl a
  · exact go_follows.oneofLoop_fuel hsize hfuel le_rfl

/-- A slice with one tag, of a fixed-width field without its bytes. -/
theorem go_decoder_in_bounds_tag :
    [(0x25 : UInt8)].length < 2 ^ 63 ∧
      ∀ cs r, Run goDialect.perform (fun r c => c.Whole r) ⟨[0x25], 0⟩ cs r → r.off ≤ 1 :=
  ⟨by decide, fun cs r hrun => ((go_decoder_in_bounds [0x25] (by decide)).1 cs r hrun).2.1⟩

/-- Skipping the bytes that are missing leaves the slice, and a length of 2⁶⁴ - 1 makes the
decoder panic. -/
theorem go_leaves_slice :
    (∃ r, goDialect.perform ⟨[0x25], 0⟩ .readTag = some r ∧
      ∃ r', goDialect.perform r (.skip 5) = some r' ∧ [(0x25 : UInt8)].length < r'.off) ∧
    Broken (goDialect.decodeResponse
      [0x1A, 0xFF, 0xFF, 0xFF, 0xFF, 0xFF, 0xFF, 0xFF, 0xFF, 0xFF, 0x01]) :=
  ⟨⟨⟨[0x25], 1⟩, rfl, ⟨[0x25], 5⟩, rfl, by decide⟩, "slice bounds out of range", rfl⟩

end Wire

end DittoClient
