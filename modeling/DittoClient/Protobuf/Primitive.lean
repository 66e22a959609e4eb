import DittoClient.Protobuf.Reader
import DittoClient.Protobuf.Format

/-!
# What the primitives of a reader accept

The rules of a reader follow a format (`Rules.Follows`) if its primitives take numbers, tags
and lengths as the format says. Each primitive then returns just when what it reads stands
at the offset, and moves the offset behind it.
-/

namespace DittoClient

namespace Protobuf

/-- The bytes that are left. -/
def Reader.rest (r : Reader) : List UInt8 :=
  r.buf.drop r.off

/-- A reader behind the next `k` bytes. -/
def Reader.advance (r : Reader) (k : ℕ) : Reader :=
  { r with off := r.off + k }

section Reader

variable (r : Reader)

@[simp] theorem Reader.advance_buf (k : ℕ) : (r.advance k).buf = r.buf := rfl

@[simp] theorem Reader.advance_off (k : ℕ) : (r.advance k).off = r.off + k := rfl

@[simp] theorem Reader.advance_advance (k l : ℕ) :
    (r.advance k).advance l = r.advance (k + l) := by
  simp [Reader.advance, Nat.add_assoc]

theorem Reader.rest_advance (k : ℕ) : (r.advance k).rest = r.rest.drop k := by
  simp [Reader.rest, Reader.advance, List.drop_drop]

theorem Reader.rest_append {xs ys : List UInt8} (h : r.rest = xs ++ ys) :
    (r.advance xs.length).rest = ys := by
  rw [Reader.rest_advance, h, List.drop_left]

/-- Where bytes are left, they end with the byte string. -/
theorem Reader.off_le {xs ys : List UInt8} (h : r.rest = xs ++ ys) (hpos : 0 < xs.length) :
    r.off + xs.length ≤ r.buf.length := by
  have hlen := congrArg List.length h
  rw [Reader.rest, List.length_drop, List.length_append] at hlen
  omega

theorem Reader.length_rest : r.rest.length = r.buf.length - r.off :=
  List.length_drop

theorem Reader.more_eq : r.more = decide (r.rest ≠ []) := by
  simp [Reader.more, Reader.rest, List.drop_eq_nil_iff]

theorem Reader.getElem?_off : r.buf[r.off]? = r.rest.head? := by
  rw [Reader.rest, List.head?_drop]

end Reader

namespace Rules

variable (d : Rules)

/-- The number that is accumulated over the bytes of a varint. -/
def accumulateAll : ℕ → ℕ → List UInt8 → Except DecodeError ℕ
  | _, result, [] => .ok result
  | shift, result, b :: bs => do
      let result ← d.accumulate result shift (b.toNat % 128)
      accumulateAll (shift + 7) result bs

/-- A reader takes the numbers in byte strings of at most `size` bytes as a format says. -/
structure Follows (F : Format) (size : ℕ) : Prop where
  limit : F.limit ≤ 11
  word : ∀ bs m n, IsVarint bs m → bs.length ≤ 11 →
    (d.accumulateAll 0 0 bs = .ok n ↔ bs.length ≤ F.limit ∧ n = F.word m)
  tag : ∀ t k w, d.splitTag t = .ok (k, w) ↔ F.number t = some k ∧ w = t % 8
  length : ∀ s off n len, s ≤ size →
    (d.fieldLength s off n = .ok len ↔ len = n ∧ off + n ≤ s)
  cut : d.skipChecked = !F.cut

/-- The loop returns just when a varint stands where it begins. -/
theorem readVarintLoop_eq_ok (fuel shift result : ℕ) (r r' : Reader) (n : ℕ) :
    d.readVarintLoop fuel shift result r = .ok (n, r') ↔ ∃ vs m ys, IsVarint vs m ∧
      vs.length ≤ fuel ∧ d.accumulateAll shift result vs = .ok n ∧ r.rest = vs ++ ys ∧
        r' = r.advance vs.length := by
  induction fuel generalizing shift result r with
  | zero =>
      refine ⟨fun h => (by cases h), fun ⟨vs, m, ys, hv, hlen, _⟩ => ?_⟩
      exact absurd (Nat.le_zero.mp hlen) (Nat.ne_of_gt hv.length_pos)
  | succ fuel ih =>
      unfold readVarintLoop
      rw [Reader.getElem?_off]
      cases hrest : r.rest with
      | nil =>
          refine ⟨fun h => (by cases h), fun ⟨vs, m, ys, hv, _, _, heq, _⟩ => ?_⟩
          exact absurd (List.append_eq_nil_iff.mp heq.symm).1 hv.ne_nil
      | cons b bs =>
          have hnext : (r.advance 1).rest = bs := Reader.rest_append r (show r.rest = [b] ++ bs from hrest)
          simp only [List.head?_cons]
          cases hacc : d.accumulate result shift (b.toNat % 128) with
          | error e =>
              refine ⟨fun h => (by cases h), fun ⟨vs, m, ys, hv, _, hval, heq, _⟩ => ?_⟩
              have hb : ∃ ws, vs = b :: ws := by
                cases hv with
                | last _ =>
                    rw [List.cons_append, List.cons.injEq] at heq
                    exact ⟨[], by rw [heq.1]⟩
                | more _ _ =>
                    rw [List.cons_append, List.cons.injEq] at heq
                    exact ⟨_, by rw [heq.1]⟩
              obtain ⟨ws, rfl⟩ := hb
              simp only [accumulateAll, hacc] at hval
              cases hval
          | ok acc =>
              by_cases hlt : b.toNat < 128
              · have hmod : b.toNat % 128 = b.toNat := Nat.mod_eq_of_lt hlt
                constructor
                · intro h
                  simp only [bind, Except.bind, if_pos hlt, Except.ok.injEq, Prod.mk.injEq] at h
                  obtain ⟨rfl, rfl⟩ := h
                  exact ⟨[b], b.toNat, bs, .last hlt, by simp, by simp [accumulateAll, hacc, bind,
                    Except.bind], rfl, rfl⟩
                · rintro ⟨vs, m, ys, hv, -, hval, heq, rfl⟩
                  obtain ⟨rfl, -, -⟩ := (IsVarint.last hlt).append_inj hv
                    (by rw [List.cons_append, List.nil_append]; exact heq)
                  simp only [accumulateAll, hacc, bind, Except.bind, Except.ok.injEq] at hval
                  simp [bind, Except.bind, hlt, hval, Reader.advance]
              · have hge : 128 ≤ b.toNat := Nat.le_of_not_lt hlt
                have hloop := ih (shift + 7) acc (r.advance 1)
                constructor
                · intro h
                  simp only [bind, Except.bind, if_neg hlt] at h
                  obtain ⟨vs, m, ys, hv, hlen, hval, heq, rfl⟩ := hloop.mp h
                  refine ⟨b :: vs, _, ys, .more hge hv, by simpa using hlen, ?_, ?_, ?_⟩
                  · simpa [accumulateAll, hacc, bind, Except.bind] using hval
                  · rw [List.cons_append, ← heq, hnext]
                  · simp [Nat.add_comm]
                · rintro ⟨vs, m, ys, hv, hlen, hval, heq, rfl⟩
                  cases hv with
                  | last hb =>
                      rw [List.cons_append, List.cons.injEq] at heq
                      rw [heq.1] at hlt
                      exact absurd hb hlt
                  | @more b' vs m' hb hv =>
                      rw [List.cons_append, List.cons.injEq] at heq
                      obtain ⟨rfl, heq⟩ := heq
                      simp only [bind, Except.bind, if_neg hlt]
                      refine hloop.mpr ⟨vs, m', ys, hv, by simpa using hlen, ?_, ?_, ?_⟩
                      · simpa [accumulateAll, hacc, bind, Except.bind] using hval
                      · rw [hnext, heq]
                      · simp [Nat.add_comm]

/-- The bits of a varint are added up group by group; `φ` says which of them are kept. -/
theorem accumulateAll_eq_ok {φ : ℕ → ℕ} {limit : ℕ}
    (hor : ∀ x y, φ (x ||| y) = φ x ||| φ y)
    (hacc : ∀ result k bits, k < limit → bits < 128 →
      d.accumulate result (7 * k) bits = .ok (result ||| φ (bits <<< (7 * k))))
    {bs : List UInt8} {m : ℕ} (h : IsVarint bs m) (k result : ℕ) (hk : k + bs.length ≤ limit) :
    d.accumulateAll (7 * k) result bs = .ok (result ||| φ (m <<< (7 * k))) := by
  induction h generalizing k result with
  | @last b hb =>
      rw [List.length_singleton] at hk
      have hmod : b.toNat % 128 = b.toNat := Nat.mod_eq_of_lt hb
      simp only [accumulateAll, hmod, hacc result k b.toNat (by omega) hb]
      rfl
  | @more b bs n hb _ ih =>
      rw [List.length_cons] at hk
      have hlt : b.toNat % 128 < 128 := Nat.mod_lt _ (by norm_num)
      have hsplit : b.toNat % 128 + 128 * n = b.toNat % 128 ||| n <<< 7 := by
        rw [Nat.or_comm, ← Nat.shiftLeft_add_eq_or_of_lt (i := 7) hlt, Nat.shiftLeft_eq,
          Nat.mul_comm n, Nat.add_comm]
      simp only [accumulateAll, hacc result k _ (by omega) hlt]
      change d.accumulateAll (7 * k + 7) _ bs = _
      rw [show 7 * k + 7 = 7 * (k + 1) from rfl, ih (k + 1) _ (by omega), hsplit,
        Nat.shiftLeft_or_distrib, hor, Nat.or_assoc, ← Nat.shiftLeft_add]
      congr 5
      omega

variable {d} {F : Format} {size : ℕ}

theorem Follows.readVarint_eq_ok (h : d.Follows F size) (r r' : Reader) (n : ℕ) :
    d.readVarint r = .ok (n, r') ↔ ∃ vs ys, F.Varint vs n ∧ r.rest = vs ++ ys ∧
      r' = r.advance vs.length := by
  unfold readVarint
  rw [readVarintLoop_eq_ok]
  constructor
  · rintro ⟨vs, m, ys, hv, hlen, hval, heq, rfl⟩
    obtain ⟨hlimit, rfl⟩ := (h.word vs m n hv hlen).mp hval
    exact ⟨vs, ys, ⟨m, hv, hlimit, rfl⟩, heq, rfl⟩
  · rintro ⟨vs, ys, ⟨m, hv, hlimit, rfl⟩, heq, rfl⟩
    have hlen := hlimit.trans h.limit
    exact ⟨vs, m, ys, hv, hlen, (h.word vs m _ hv hlen).mpr ⟨hlimit, rfl⟩, heq, rfl⟩

theorem Follows.readTag_eq_ok (h : d.Follows F size) (r r' : Reader) (k w : ℕ) :
    d.readTag r = .ok ((k, w), r') ↔ ∃ ts ys, F.Tag ts k w ∧ r.rest = ts ++ ys ∧
      r' = r.advance ts.length := by
  unfold readTag
  constructor
  · intro hr
    cases hv : d.readVarint r with
    | error e =>
        rw [hv] at hr
        cases hr
    | ok x =>
        obtain ⟨t, r₁⟩ := x
        obtain ⟨ts, ys, hts, heq, rfl⟩ := (h.readVarint_eq_ok r r₁ t).mp hv
        rw [hv] at hr
        cases ht : d.splitTag t with
        | error e =>
            simp only [bind, Except.bind, ht] at hr
            cases hr
        | ok kw =>
            simp only [bind, Except.bind, ht, Except.ok.injEq, Prod.mk.injEq] at hr
            obtain ⟨rfl, rfl⟩ := hr
            obtain ⟨hk, hw⟩ := (h.tag t k w).mp ht
            exact ⟨ts, ys, ⟨t, hts, hk, hw⟩, heq, rfl⟩
  · rintro ⟨ts, ys, ⟨t, hts, hk, hw⟩, heq, rfl⟩
    have hv := (h.readVarint_eq_ok r _ t).mpr ⟨ts, ys, hts, heq, rfl⟩
    have ht := (h.tag t k w).mpr ⟨hk, hw⟩
    simp [bind, Except.bind, hv, ht]

theorem Follows.readLD_eq_ok (h : d.Follows F size) (r r' : Reader) (hsize : r.buf.length ≤ size)
    (bs : List UInt8) :
    d.readLD r = .ok (bs, r') ↔ ∃ ls ys, F.Varint ls bs.length ∧ r.rest = ls ++ (bs ++ ys) ∧
      r' = r.advance (ls.length + bs.length) := by
  unfold readLD
  constructor
  · intro hr
    cases hv : d.readVarint r with
    | error e =>
        rw [hv] at hr
        cases hr
    | ok x =>
        obtain ⟨n, r₁⟩ := x
        obtain ⟨ls, ys, hls, heq, rfl⟩ := (h.readVarint_eq_ok r r₁ n).mp hv
        rw [hv] at hr
        cases hl : d.fieldLength r.buf.length (r.off + ls.length) n with
        | error e =>
            simp only [bind, Except.bind, Reader.advance_buf, Reader.advance_off, hl] at hr
            cases hr
        | ok len =>
            obtain ⟨rfl, hle⟩ := (h.length _ _ _ _ hsize).mp hl
            simp only [bind, Except.bind, Reader.advance_buf, Reader.advance_off, hl,
              Except.ok.injEq, Prod.mk.injEq] at hr
            obtain ⟨rfl, rfl⟩ := hr
            have hys : r.buf.drop (r.off + ls.length) = ys := Reader.rest_append r heq
            have hlen : len ≤ ys.length := by
              rw [← hys, List.length_drop]
              omega
            have htake : (ys.take len).length = len := List.length_take_of_le hlen
            rw [hys]
            refine ⟨ls, ys.drop len, by rwa [htake], ?_, ?_⟩
            · rw [List.take_append_drop, heq]
            · simp only [Reader.advance, htake, Nat.add_assoc]
  · rintro ⟨ls, ys, hls, heq, rfl⟩
    have hv := (h.readVarint_eq_ok r _ _).mpr ⟨ls, bs ++ ys, hls, heq, rfl⟩
    have hrest : r.buf.drop (r.off + ls.length) = bs ++ ys := Reader.rest_append r heq
    have hle : r.off + ls.length + bs.length ≤ r.buf.length := by
      have hlen := congrArg List.length heq
      rw [Reader.length_rest, List.length_append, List.length_append] at hlen
      have hpos := hls.length_pos
      omega
    have hl := (h.length _ _ _ _ hsize).mpr ⟨rfl, hle⟩
    simp [bind, Except.bind, hv, hl, hrest, Reader.advance, Nat.add_assoc]

/-- The check behind a skipped field. -/
def present (d : Rules) (r : Reader) : Except DecodeError Reader :=
  if d.skipChecked && decide (r.buf.length < r.off) then
    .error (.malformed "truncated fixed-width field")
  else .ok r

theorem present_of_le {r : Reader} (hle : r.off ≤ r.buf.length) : d.present r = .ok r := by
  have hnot : ¬ r.buf.length < r.off := Nat.not_lt.mpr hle
  simp [present, hnot]

theorem skip_varint (r : Reader) :
    d.skip 0 r = d.readVarint r >>= fun x => d.present x.2 := by
  unfold skip
  cases d.readVarint r with
  | error e => rfl
  | ok x => rfl

theorem skip_bytes (r : Reader) : d.skip 2 r = d.readLD r >>= fun x => d.present x.2 := by
  unfold skip
  cases d.readLD r with
  | error e => rfl
  | ok x => rfl

theorem skip_fixed (r : Reader) {w width : ℕ} (hwidth : fixedWidth w = some width) :
    d.skip w r = d.present (r.advance width) := by
  unfold fixedWidth at hwidth
  split at hwidth
  · cases hwidth
    rfl
  · cases hwidth
    rfl
  · cases hwidth

/-- A wire type that no field has. -/
theorem skip_unsupported (r : Reader) {w : ℕ} (hw : w ≠ 0 ∧ w ≠ 2 ∧ fixedWidth w = none) :
    d.skip w r = .error (.malformed s!"unsupported wire type: {w}") := by
  obtain ⟨h0, h2, hfixed⟩ := hw
  match w with
  | 0 => exact absurd rfl h0
  | 1 => cases hfixed
  | 2 => exact absurd rfl h2
  | 3 => rfl
  | 4 => rfl
  | 5 => cases hfixed
  | w + 6 => rfl

theorem isContent_fixed {w width : ℕ} (hwidth : fixedWidth w = some width) (bs : List UInt8) :
    (∃ c, IsContent F w bs c) ↔ bs.length = width := by
  unfold fixedWidth at hwidth
  split at hwidth
  · cases hwidth
    refine ⟨fun ⟨c, hc⟩ => ?_, fun hlen => ⟨_, .fixed64 hlen⟩⟩
    cases hc with
    | fixed64 hlen => exact hlen
  · cases hwidth
    refine ⟨fun ⟨c, hc⟩ => ?_, fun hlen => ⟨_, .fixed32 hlen⟩⟩
    cases hc with
    | fixed32 hlen => exact hlen
  · cases hwidth

/-- What is skipped is the content of a field. -/
def Skipped (F : Format) (r r' : Reader) (w : ℕ) : Prop :=
  ∃ xs ys c, IsContent F w xs c ∧ r.rest = xs ++ ys ∧ r' = r.advance xs.length

/-- What is skipped is a fixed-width field that is cut short. -/
def CutShort (F : Format) (r r' : Reader) (w : ℕ) : Prop :=
  ∃ width, F.cut = true ∧ fixedWidth w = some width ∧ r.rest.length < width ∧
    r' = r.advance width

theorem Follows.skip_varint_eq_ok (h : d.Follows F size) (r r' : Reader) :
    d.skip 0 r = .ok r' ↔ Skipped F r r' 0 := by
  rw [skip_varint]
  constructor
  · intro hs
    cases hv : d.readVarint r with
    | error e =>
        rw [hv] at hs
        cases hs
    | ok x =>
        obtain ⟨n, r₁⟩ := x
        obtain ⟨vs, ys, hvs, heq, rfl⟩ := (h.readVarint_eq_ok r r₁ n).mp hv
        rw [hv] at hs
        change d.present (r.advance vs.length) = .ok r' at hs
        rw [present_of_le (r.off_le heq hvs.length_pos), Except.ok.injEq] at hs
        exact ⟨vs, ys, _, .varint hvs, heq, hs.symm⟩
  · rintro ⟨vs, ys, c, hc, heq, rfl⟩
    cases hc with
    | varint hvs =>
        rw [(h.readVarint_eq_ok r _ _).mpr ⟨vs, ys, hvs, heq, rfl⟩]
        exact present_of_le (r.off_le heq hvs.length_pos)

theorem Follows.skip_bytes_eq_ok (h : d.Follows F size) (r r' : Reader)
    (hsize : r.buf.length ≤ size) : d.skip 2 r = .ok r' ↔ Skipped F r r' 2 := by
  have hpos : ∀ {ls bs : List UInt8} {n : ℕ}, F.Varint ls n → 0 < (ls ++ bs).length := by
    intro ls bs n hls
    rw [List.length_append]
    exact Nat.add_pos_left hls.length_pos _
  rw [skip_bytes]
  constructor
  · intro hs
    cases hv : d.readLD r with
    | error e =>
        rw [hv] at hs
        cases hs
    | ok x =>
        obtain ⟨bs, r₁⟩ := x
        obtain ⟨ls, ys, hls, heq, rfl⟩ := (h.readLD_eq_ok r r₁ hsize bs).mp hv
        rw [← List.append_assoc] at heq
        rw [hv, ← List.length_append] at hs
        change d.present (r.advance (ls ++ bs).length) = .ok r' at hs
        rw [present_of_le (r.off_le heq (hpos hls)), Except.ok.injEq] at hs
        exact ⟨ls ++ bs, ys, _, .bytes hls, heq, hs.symm⟩
  · rintro ⟨xs, ys, c, hc, heq, rfl⟩
    cases hc with
    | @bytes ls bs hls =>
        rw [(h.readLD_eq_ok r _ hsize bs).mpr ⟨ls, ys, hls, by rw [heq, List.append_assoc],
          rfl⟩, ← List.length_append]
        exact present_of_le (r.off_le heq (hpos hls))

theorem Follows.skip_fixed_eq_ok (h : d.Follows F size) (r r' : Reader) {w width : ℕ}
    (hwidth : fixedWidth w = some width) (hoff : r.off ≤ r.buf.length) :
    d.skip w r = .ok r' ↔ Skipped F r r' w ∨ CutShort F r r' w := by
  rw [skip_fixed r hwidth, present, h.cut]
  rcases Nat.lt_or_ge r.rest.length width with hlt | hge
  · have hbeyond : r.buf.length < (r.advance width).off := by
      rw [Reader.length_rest] at hlt
      rw [Reader.advance_off]
      omega
    have hnot : ¬ Skipped F r r' w := by
      rintro ⟨xs, ys, c, hc, heq, -⟩
      rw [heq, List.length_append, (isContent_fixed hwidth xs).mp ⟨c, hc⟩] at hlt
      omega
    simp only [Reader.advance_buf, hbeyond, decide_true, Bool.and_true, hnot, false_or]
    cases hcut : F.cut with
    | false =>
        refine ⟨fun he => (by cases he), fun ⟨_, htrue, _⟩ => ?_⟩
        rw [hcut] at htrue
        cases htrue
    | true =>
        refine ⟨fun he => ⟨width, hcut, hwidth, hlt, ?_⟩, fun ⟨width', _, hw, _, he⟩ => ?_⟩
        · exact (Except.ok.inj he).symm
        · rw [hwidth, Option.some.injEq] at hw
          rw [he, hw]
          rfl
  · have hwithin : ¬ r.buf.length < (r.advance width).off := by
      rw [Reader.length_rest] at hge
      rw [Reader.advance_off]
      omega
    have htake : (r.rest.take width).length = width := List.length_take_of_le hge
    simp only [Reader.advance_buf, hwithin, decide_false, Bool.and_false, Bool.false_eq_true,
      if_false, Except.ok.injEq]
    constructor
    · rintro rfl
      obtain ⟨c, hc⟩ := (isContent_fixed (F := F) hwidth _).mpr htake
      exact Or.inl ⟨_, _, c, hc, (List.take_append_drop width r.rest).symm, by rw [htake]⟩
    · rintro (⟨xs, ys, c, hc, -, he⟩ | ⟨width', _, hw, hlt, -⟩)
      · rw [he, (isContent_fixed hwidth xs).mp ⟨c, hc⟩]
      · rw [hwidth, Option.some.injEq] at hw
        omega

/-- What is skipped is the content of a field, or a fixed-width field that is cut short. -/
theorem Follows.skip_eq_ok (h : d.Follows F size) (r r' : Reader) (w : ℕ)
    (hsize : r.buf.length ≤ size) (hoff : r.off ≤ r.buf.length) :
    d.skip w r = .ok r' ↔ Skipped F r r' w ∨ CutShort F r r' w := by
  have hcut : fixedWidth w = none → ¬ CutShort F r r' w := fun hnone ⟨_, _, hw, _⟩ => by
    rw [hnone] at hw
    cases hw
  cases hwidth : fixedWidth w with
  | some width => exact h.skip_fixed_eq_ok r r' hwidth hoff
  | none =>
      rw [or_iff_left (hcut hwidth)]
      by_cases h0 : w = 0
      · subst h0
        exact h.skip_varint_eq_ok r r'
      · by_cases h2 : w = 2
        · subst h2
          exact h.skip_bytes_eq_ok r r' hsize
        · rw [skip_unsupported r ⟨h0, h2, hwidth⟩]
          refine ⟨fun hs => (by cases hs), fun ⟨xs, ys, c, hc, _⟩ => ?_⟩
          cases hc with
          | varint _ => exact absurd rfl h0
          | fixed64 _ => cases hwidth
          | bytes _ => exact absurd rfl h2
          | fixed32 _ => cases hwidth

end Rules

end Protobuf

end DittoClient
