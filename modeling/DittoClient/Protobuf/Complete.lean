import DittoClient.Protobuf.Fold

/-!
# Complete fields

A format can be tightened to varints of a limited number of bytes and fixed-width fields that
are there completely. What is read in the tightened format is read the same in the format
itself. Conversely, what is read in the format is read in the tightened one just when no
damaged field is met: one with a longer varint, or one cut short.
-/

namespace DittoClient

namespace Protobuf

/-- A format with a smaller limit, in which no field may be cut short. -/
def Format.strict (F : Format) (limit : ℕ) : Format :=
  { F with limit := limit, cut := false }

/-- At the front of a byte string stands a field with a varint of more bytes than a limit, or
one that is cut short. -/
inductive Damaged (F : Format) (limit : ℕ) : List UInt8 → Prop
  | tag {ts bs : List UInt8} {k w : ℕ} (ht : F.Tag ts k w) (hlong : limit < ts.length) :
      Damaged F limit (ts ++ bs)
  | number {ts vs bs : List UInt8} {k n : ℕ} (ht : F.Tag ts k 0) (hv : F.Varint vs n)
      (hlong : limit < vs.length) : Damaged F limit (ts ++ (vs ++ bs))
  | length {ts ls bs : List UInt8} {k n : ℕ} (ht : F.Tag ts k 2) (hl : F.Varint ls n)
      (hlong : limit < ls.length) : Damaged F limit (ts ++ (ls ++ bs))
  | cut {ts bs : List UInt8} {k w width : ℕ} (ht : F.Tag ts k w)
      (hwidth : fixedWidth w = some width) (hlen : bs.length < width) : Damaged F limit (ts ++ bs)

variable {F : Format} {limit : ℕ} {xs ys bs : List UInt8} {f : Field} {fs : List Field}

section Strict

theorem Format.Varint.of_strict {n : ℕ} (hlimit : limit ≤ F.limit)
    (h : (F.strict limit).Varint bs n) : F.Varint bs n := by
  obtain ⟨m, hm, hlen, hn⟩ := h
  exact ⟨m, hm, hlen.trans hlimit, hn⟩

theorem Format.Varint.strict {n : ℕ} (h : F.Varint bs n) (hlen : bs.length ≤ limit) :
    (F.strict limit).Varint bs n := by
  obtain ⟨m, hm, -, hn⟩ := h
  exact ⟨m, hm, hlen, hn⟩

theorem Format.Tag.of_strict {k w : ℕ} (hlimit : limit ≤ F.limit)
    (h : (F.strict limit).Tag bs k w) : F.Tag bs k w := by
  obtain ⟨t, ht, hk, hw⟩ := h
  exact ⟨t, ht.of_strict hlimit, hk, hw⟩

theorem Format.Tag.strict {k w : ℕ} (h : F.Tag bs k w) (hlen : bs.length ≤ limit) :
    (F.strict limit).Tag bs k w := by
  obtain ⟨t, ht, hk, hw⟩ := h
  exact ⟨t, ht.strict hlen, hk, hw⟩

theorem Format.Tag.length_le {k w : ℕ} (h : F.Tag bs k w) : bs.length ≤ F.limit := by
  obtain ⟨t, ⟨m, -, hlen, -⟩, -, -⟩ := h
  exact hlen

theorem IsField.of_strict (hlimit : limit ≤ F.limit) (h : IsField (F.strict limit) xs f) :
    IsField F xs f := by
  cases h with
  | mk ht hc =>
      have ht := ht.of_strict hlimit
      cases hc with
      | varint hv => exact .mk ht (.varint (hv.of_strict hlimit))
      | fixed64 hlen => exact .mk ht (.fixed64 hlen)
      | bytes hl => exact .mk ht (.bytes (hl.of_strict hlimit))
      | fixed32 hlen => exact .mk ht (.fixed32 hlen)

theorem IsMessage.of_strict (hlimit : limit ≤ F.limit) (h : IsMessage (F.strict limit) bs fs) :
    IsMessage F bs fs := by
  induction h with
  | nil => exact .nil
  | cons hf _ ih => exact .cons (hf.of_strict hlimit) ih
  | cut hcut _ _ _ => cases hcut

theorem Finds.of_strict {Known : ℕ → Prop} {k : ℕ} {inner : List UInt8} (hlimit : limit ≤ F.limit)
    (h : Finds (F.strict limit) Known bs k inner) : Finds F Known bs k inner := by
  induction h with
  | here hf hk => exact .here (hf.of_strict hlimit) hk
  | later hf hskip _ ih => exact .later (hf.of_strict hlimit) hskip ih

end Strict

section Damaged

/-- A field is read in the tightened format, or it is damaged. -/
theorem IsField.strict_or_damaged (limit : ℕ) (h : IsField F xs f) :
    IsField (F.strict limit) xs f ∨ ∀ ys, Damaged F limit (xs ++ ys) := by
  cases h with
  | @mk ts bs k w c ht hc =>
      by_cases hlong : limit < ts.length
      · refine Or.inr fun ys => ?_
        rw [List.append_assoc]
        exact .tag ht hlong
      · have ht' := ht.strict (not_lt.mp hlong)
        cases hc with
        | varint hv =>
            by_cases hlong : limit < bs.length
            · refine Or.inr fun ys => ?_
              rw [List.append_assoc]
              exact .number ht hv hlong
            · exact Or.inl (.mk ht' (.varint (hv.strict (not_lt.mp hlong))))
        | fixed64 hlen => exact Or.inl (.mk ht' (.fixed64 hlen))
        | @bytes ls bs hl =>
            by_cases hlong : limit < ls.length
            · refine Or.inr fun ys => ?_
              rw [List.append_assoc, List.append_assoc]
              exact .length ht hl hlong
            · exact Or.inl (.mk ht' (.bytes (hl.strict (not_lt.mp hlong))))
        | fixed32 hlen => exact Or.inl (.mk ht' (.fixed32 hlen))

/-- A field that is read in the tightened format is not damaged. -/
theorem IsField.not_damaged (hlimit : limit ≤ F.limit) (h : IsField (F.strict limit) xs f) :
    ¬ Damaged F limit (xs ++ ys) := by
  intro hdamaged
  generalize hzs : xs ++ ys = zs at hdamaged
  cases h with
  | mk ht hc =>
      rw [List.append_assoc] at hzs
      cases hdamaged with
      | tag ht' hlong =>
          obtain ⟨rfl, -, -, -⟩ := (ht.of_strict hlimit).append_inj ht' hzs
          exact absurd ht.length_le (not_le.mpr hlong)
      | number ht' hv' hlong =>
          obtain ⟨rfl, rfl, rfl, hzs⟩ := (ht.of_strict hlimit).append_inj ht' hzs
          cases hc with
          | varint hv =>
              obtain ⟨rfl, -, -⟩ := (hv.of_strict hlimit).append_inj hv' hzs
              obtain ⟨m, -, hlen, -⟩ := hv
              exact absurd hlen (not_le.mpr hlong)
      | length ht' hl' hlong =>
          obtain ⟨rfl, rfl, rfl, hzs⟩ := (ht.of_strict hlimit).append_inj ht' hzs
          cases hc with
          | bytes hl =>
              rw [List.append_assoc] at hzs
              obtain ⟨rfl, -, -⟩ := (hl.of_strict hlimit).append_inj hl' hzs
              obtain ⟨m, -, hlen, -⟩ := hl
              exact absurd hlen (not_le.mpr hlong)
      | cut ht' hwidth hlen' =>
          obtain ⟨rfl, rfl, rfl, hzs⟩ := (ht.of_strict hlimit).append_inj ht' hzs
          have hle := congrArg List.length hzs
          rw [List.length_append] at hle
          cases hc with
          | varint _ => cases hwidth
          | fixed64 hlen =>
              cases hwidth
              omega
          | bytes _ => cases hwidth
          | fixed32 hlen =>
              cases hwidth
              omega

theorem not_damaged_nil : ¬ Damaged F limit [] := by
  intro h
  generalize hbs : ([] : List UInt8) = bs at h
  have hne : ∀ {ts ys : List UInt8} {k w : ℕ}, F.Tag ts k w → [] ≠ ts ++ ys := by
    intro ts ys k w ht heq
    have hpos := ht.length_pos
    rw [(List.append_eq_nil_iff.mp heq.symm).1] at hpos
    cases hpos
  cases h with
  | tag ht _ => exact hne ht hbs
  | number ht _ _ => exact hne ht hbs
  | length ht _ _ => exact hne ht hbs
  | cut ht _ _ => exact hne ht hbs

/-- Complete fields that are passed lead to damage. -/
def Spoilt (F : Format) (limit : ℕ) (Passed : Field → Prop) (bs : List UInt8) : Prop :=
  Meets F Passed (fun _ bs => Damaged F limit bs) 0 bs

/-- The offset that is counted from does not matter. -/
theorem Spoilt.meets {Passed : Field → Prop} {off : ℕ}
    (h : Meets F Passed (fun _ bs => Damaged F limit bs) off bs) (off' : ℕ) :
    Meets F Passed (fun _ bs => Damaged F limit bs) off' bs := by
  induction h generalizing off' with
  | here hbad => exact .here hbad
  | later hf hp _ ih => exact .later hf hp (ih _)

/-- A message in the tightened format leads to no damage. -/
theorem IsMessage.not_meets (hlimit : limit ≤ F.limit) (h : IsMessage (F.strict limit) bs fs)
    {Passed : Field → Prop} {off : ℕ} :
    ¬ Meets F Passed (fun _ bs => Damaged F limit bs) off bs := by
  induction h generalizing off with
  | nil =>
      intro hm
      generalize hbs : ([] : List UInt8) = bs at hm
      cases hm with
      | here hbad => exact not_damaged_nil (hbs ▸ hbad)
      | later hf _ _ =>
          have hpos := hf.length_pos
          rw [(List.append_eq_nil_iff.mp hbs.symm).1] at hpos
          cases hpos
  | @cons xs ys f fs hf _ ih =>
      intro hm
      generalize hzs : xs ++ ys = zs at hm
      cases hm with
      | here hbad => exact hf.not_damaged hlimit (hzs ▸ hbad)
      | later hf' _ hm' =>
          obtain ⟨rfl, -, rfl⟩ := (hf.of_strict hlimit).append_inj hf' hzs
          exact ih hm'
  | cut hcut _ _ _ => cases hcut

/-- A message is one in the tightened format if and only if it leads to no damage. -/
theorem IsMessage.strict_iff (hlimit : limit ≤ F.limit) (h : IsMessage F bs fs) :
    IsMessage (F.strict limit) bs fs ↔ ¬ Spoilt F limit (fun _ => True) bs := by
  refine ⟨fun hs => hs.not_meets hlimit, fun hm => ?_⟩
  induction h with
  | nil => exact .nil
  | @cons xs ys f fs hf _ ih =>
      rcases hf.strict_or_damaged limit with hs | hdamaged
      · exact .cons hs (ih fun hrest => hm (.later hf trivial (Spoilt.meets hrest _)))
      · exact absurd (.here (hdamaged ys)) hm
  | cut _ ht hwidth hlen => exact absurd (.here (.cut ht hwidth hlen)) hm

/-- What is found in the tightened format has no damage before it. -/
theorem Finds.not_meets {Known : ℕ → Prop} {k : ℕ} {inner : List UInt8} (hlimit : limit ≤ F.limit)
    (h : Finds (F.strict limit) Known bs k inner) {off : ℕ} :
    ¬ Meets F (Field.Unknown Known) (fun _ bs => Damaged F limit bs) off bs := by
  induction h generalizing off with
  | @here xs ys inner k hf hk =>
      intro hm
      generalize hzs : xs ++ ys = zs at hm
      cases hm with
      | here hbad => exact hf.not_damaged hlimit (hzs ▸ hbad)
      | later hf' hp _ =>
          obtain ⟨-, rfl, -⟩ := (hf.of_strict hlimit).append_inj hf' hzs
          exact hp k inner rfl hk
  | @later xs ys inner k f hf _ _ ih =>
      intro hm
      generalize hzs : xs ++ ys = zs at hm
      cases hm with
      | here hbad => exact hf.not_damaged hlimit (hzs ▸ hbad)
      | later hf' _ hm' =>
          obtain ⟨rfl, -, rfl⟩ := (hf.of_strict hlimit).append_inj hf' hzs
          exact ih hm'

/-- What is found is found in the tightened format if and only if no damage stands before it. -/
theorem Finds.strict_iff {Known : ℕ → Prop} {k : ℕ} {inner : List UInt8} (hlimit : limit ≤ F.limit)
    (h : Finds F Known bs k inner) :
    Finds (F.strict limit) Known bs k inner ↔ ¬ Spoilt F limit (Field.Unknown Known) bs := by
  refine ⟨fun hs => hs.not_meets hlimit, fun hm => ?_⟩
  induction h with
  | @here xs ys inner k hf hk =>
      rcases hf.strict_or_damaged limit with hs | hdamaged
      · exact .here hs hk
      · exact absurd (.here (hdamaged ys)) hm
  | @later xs ys inner k f hf hskip _ ih =>
      rcases hf.strict_or_damaged limit with hs | hdamaged
      · exact .later hs hskip (ih fun hrest => hm (.later hf hskip (Spoilt.meets hrest _)))
      · exact absurd (.here (hdamaged ys)) hm

end Damaged

end Protobuf

end DittoClient
