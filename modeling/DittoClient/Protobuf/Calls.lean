import DittoClient.Protobuf.Parse
import DittoClient.Transition.Run

/-!
# Calls of a reader

A reader is used through four calls. A call that returns advances the reader; it leaves it
within its byte string, unless it skips a fixed-width field that is not there completely. A run
of calls without such a skip stays within the byte string, and has no more calls than the byte
string has bytes. The loops over the fields come to an end: they return the same with more fuel
than there are bytes.
-/

namespace DittoClient

namespace Protobuf

open DittoClient.Transition

/-- A call of a reader. -/
inductive Call
  | readVarint
  | readTag
  | readLD
  | skip (wire : ℕ)
  deriving DecidableEq, Repr

/-- A call does not skip a fixed-width field that is cut short. -/
def Call.Whole (r : Reader) : Call → Prop
  | .skip wire => ∀ width, fixedWidth wire = some width → r.off + width ≤ r.buf.length
  | _ => True

namespace Rules

/-- The reader after a call that returns no error. -/
def perform (d : Rules) (r : Reader) : Call → Option Reader
  | .readVarint => (d.readVarint r).toOption.map Prod.snd
  | .readTag => (d.readTag r).toOption.map Prod.snd
  | .readLD => (d.readLD r).toOption.map Prod.snd
  | .skip wire => (d.skip wire r).toOption

variable {d : Rules} {F : Format} {size : ℕ} {r r' : Reader} {c : Call}

theorem toOption_eq_some {α : Type} {x : Except DecodeError α} {a : α} :
    x.toOption = some a ↔ x = .ok a := by
  cases x with
  | error e => exact ⟨fun h => (by cases h), fun h => (by cases h)⟩
  | ok b => exact ⟨fun h => congrArg Except.ok (Option.some.inj h),
      fun h => congrArg some (Except.ok.inj h)⟩

/-- Reading bytes stays within the byte string. -/
theorem advance_within {xs ys : List UInt8} (heq : r.rest = xs ++ ys) (hpos : 0 < xs.length) :
    (r.advance xs.length).buf = r.buf ∧ r.off < (r.advance xs.length).off ∧
      (r.advance xs.length).off ≤ r.buf.length :=
  ⟨rfl, Nat.lt_add_of_pos_right hpos, r.off_le heq hpos⟩

theorem length_content_pos {w : ℕ} {xs : List UInt8} {c : Content} (h : IsContent F w xs c) :
    0 < xs.length := by
  cases h with
  | varint hv => exact hv.length_pos
  | fixed64 hlen => omega
  | bytes hl =>
      rw [List.length_append]
      exact Nat.add_pos_left hl.length_pos _
  | fixed32 hlen => omega

/-- A call advances the reader; it stays within the byte string if and only if it does not skip
a field that is cut short. -/
theorem Follows.perform_within (h : d.Follows F size) (hsize : r.buf.length ≤ size)
    (hoff : r.off ≤ r.buf.length) (hr : d.perform r c = some r') :
    r'.buf = r.buf ∧ r.off < r'.off ∧ (r'.off ≤ r.buf.length ↔ c.Whole r) := by
  have hread : ∀ {xs ys : List UInt8}, r.rest = xs ++ ys → 0 < xs.length →
      r' = r.advance xs.length → c.Whole r →
      r'.buf = r.buf ∧ r.off < r'.off ∧ (r'.off ≤ r.buf.length ↔ c.Whole r) := by
    rintro xs ys heq hpos rfl hwhole
    obtain ⟨hbuf, hlt, hle⟩ := advance_within heq hpos
    exact ⟨hbuf, hlt, iff_of_true hle hwhole⟩
  cases c with
  | readVarint =>
      obtain ⟨⟨n, r₁⟩, hx, rfl⟩ := Option.map_eq_some_iff.mp hr
      obtain ⟨vs, ys, hvs, heq, hr'⟩ := (h.readVarint_eq_ok r r₁ n).mp (toOption_eq_some.mp hx)
      exact hread heq hvs.length_pos hr' trivial
  | readTag =>
      obtain ⟨⟨⟨k, w⟩, r₁⟩, hx, rfl⟩ := Option.map_eq_some_iff.mp hr
      obtain ⟨ts, ys, hts, heq, hr'⟩ := (h.readTag_eq_ok r r₁ k w).mp (toOption_eq_some.mp hx)
      exact hread heq hts.length_pos hr' trivial
  | readLD =>
      obtain ⟨⟨bs, r₁⟩, hx, rfl⟩ := Option.map_eq_some_iff.mp hr
      obtain ⟨ls, ys, hls, heq, hr'⟩ :=
        (h.readLD_eq_ok r r₁ hsize bs).mp (toOption_eq_some.mp hx)
      rw [← List.append_assoc] at heq
      rw [← List.length_append] at hr'
      exact hread heq (length_content_pos (.bytes hls)) hr' trivial
  | skip wire =>
      rcases (h.skip_eq_ok r r' wire hsize hoff).mp (toOption_eq_some.mp hr) with
        ⟨xs, ys, c, hc, heq, hr'⟩ | ⟨width, -, hwidth, hlt, rfl⟩
      · refine hread heq (length_content_pos hc) hr' fun width hwidth => ?_
        have hlen := (isContent_fixed hwidth xs).mp ⟨c, hc⟩
        rw [← hlen]
        exact r.off_le heq (length_content_pos hc)
      · rw [Reader.length_rest] at hlt
        refine ⟨rfl, ?_, fun hle => fun width' hwidth' => ?_, fun hwhole => hwhole width hwidth⟩
        · have hpos : 0 < width := by omega
          exact Nat.lt_add_of_pos_right hpos
        · rw [hwidth, Option.some.injEq] at hwidth'
          rwa [← hwidth']

/-- A run of calls that skip no field that is cut short stays within the byte string. -/
theorem Follows.run_within (h : d.Follows F size) {bs : List UInt8} (hsize : bs.length ≤ size)
    {cs : List Call} (hrun : Run d.perform (fun r c => c.Whole r) ⟨bs, 0⟩ cs r) :
    r.buf = bs ∧ r.off ≤ bs.length ∧ cs.length ≤ r.off := by
  induction hrun with
  | nil => exact ⟨rfl, Nat.zero_le _, Nat.zero_le _⟩
  | @snoc t u cs c _ hwhole hstep ih =>
      obtain ⟨hbuf, hoff, hlen⟩ := ih
      rw [← hbuf] at hoff hsize
      obtain ⟨hbuf', hlt, hle⟩ := h.perform_within hsize hoff hstep
      refine ⟨hbuf'.trans hbuf, ?_, ?_⟩
      · rw [← hbuf]
        exact hle.mpr hwhole
      · rw [List.length_append, List.length_singleton]
        omega

section Fuel

variable {α : Type} {handle : ℕ × ℕ → Reader → α → Option (Except DecodeError (α × Reader))}
  {take : Field → α → Except DecodeError α}

/-- A round leaves fewer bytes. -/
theorem Follows.round_shorter (h : d.Follows F size) (ht : d.Takes handle take)
    (hsize : r.buf.length ≤ size) {a a' : α} (hr : d.round handle r a = .ok (a', r')) :
    r'.buf = r.buf ∧ r'.rest.length < r.rest.length := by
  rcases (h.round_eq_ok ht r r' hsize a a').mp hr with
    ⟨xs, ys, f, hf, heq, rfl, -⟩ | ⟨ts, bs, k, w, width, -, hts, -, hlt, heq, rfl, -⟩
  · have hpos := hf.length_pos
    rw [Reader.rest_append r heq, heq, List.length_append]
    exact ⟨rfl, by omega⟩
  · have hpos := hts.length_pos
    have hlen := congrArg List.length heq
    rw [Reader.length_rest, List.length_append] at hlen
    refine ⟨rfl, ?_⟩
    rw [Reader.length_rest, Reader.length_rest, Reader.advance_off, Reader.advance_buf]
    omega

/-- More fuel than there are bytes makes no difference. -/
theorem Follows.fieldsLoop_fuel (h : d.Follows F size) (ht : d.Takes handle take)
    {fuel fuel' : ℕ} (hsize : r.buf.length ≤ size) (hfuel : r.rest.length ≤ fuel)
    (hfuel' : r.rest.length ≤ fuel') (a : α) :
    d.fieldsLoop handle fuel r a = d.fieldsLoop handle fuel' r a := by
  induction fuel generalizing r fuel' a with
  | zero =>
      have hnil := List.length_eq_zero_iff.mp (Nat.le_zero.mp hfuel)
      rw [fieldsLoop_end 0 hnil, fieldsLoop_end fuel' hnil]
  | succ fuel ih =>
      by_cases hnil : r.rest = []
      · rw [fieldsLoop_end _ hnil, fieldsLoop_end _ hnil]
      · cases fuel' with
        | zero => exact absurd (List.length_eq_zero_iff.mp (Nat.le_zero.mp hfuel')) hnil
        | succ fuel' =>
            rw [fieldsLoop_succ fuel hnil, fieldsLoop_succ fuel' hnil]
            cases hround : d.round handle r a with
            | error e => rfl
            | ok y =>
                obtain ⟨hbuf, hlt⟩ := h.round_shorter ht hsize hround
                exact ih (hbuf ▸ hsize) (by omega) (by omega) y.1

/-- The same for the search for a variant. -/
theorem Follows.oneofLoop_fuel (h : d.Follows F size)
    {select : ℕ → List UInt8 → Option (Except DecodeError α)} {absent : String}
    {fuel fuel' : ℕ} (hsize : r.buf.length ≤ size) (hfuel : r.rest.length ≤ fuel)
    (hfuel' : r.rest.length ≤ fuel') :
    d.oneofLoop select absent fuel r = d.oneofLoop select absent fuel' r := by
  induction fuel generalizing r fuel' with
  | zero =>
      have hnil := List.length_eq_zero_iff.mp (Nat.le_zero.mp hfuel)
      rw [oneofLoop_end 0 hnil, oneofLoop_end fuel' hnil]
  | succ fuel ih =>
      by_cases hnil : r.rest = []
      · rw [oneofLoop_end _ hnil, oneofLoop_end _ hnil]
      · cases fuel' with
        | zero => exact absurd (List.length_eq_zero_iff.mp (Nat.le_zero.mp hfuel')) hnil
        | succ fuel' =>
            rw [oneofLoop_succ fuel hnil, oneofLoop_succ fuel' hnil]
            cases hround : d.round d.pick r none with
            | error e => rfl
            | ok y =>
                obtain ⟨hbuf, hlt⟩ := h.round_shorter takes_pick hsize hround
                have hrest : d.oneofLoop select absent fuel y.2 =
                    d.oneofLoop select absent fuel' y.2 :=
                  ih (hbuf ▸ hsize) (by omega) (by omega)
                change Option.getD _ _ = Option.getD _ _
                rw [hrest]

end Fuel

end Rules

end Protobuf

end DittoClient
