import DittoClient.Protobuf.Fold

/-!
# What breaks a loop over the fields

A reader breaks with an error of the runtime at a number that is too long for it, or at a
length-delimited field that ends too far away (`Faults`). A loop over the fields breaks just
when complete fields, all of which it takes, lead to such a place or to a field whose own
content breaks (`Rules.FailsAt.fields_broken`). The search for a variant breaks at such a
place before the first variant, or in this variant (`Rules.FailsAt.oneof_broken`).
-/

namespace DittoClient

namespace Protobuf

/-- A decoder ends with an error of the runtime. -/
def Broken {α : Type} (x : Except DecodeError α) : Prop :=
  ∃ m, x = .error (.runtime m)

section Broken

variable {α β : Type}

@[simp] theorem not_broken_ok (a : α) : ¬ Broken (.ok a : Except DecodeError α) :=
  fun ⟨_, h⟩ => by cases h

@[simp] theorem not_broken_malformed (m : String) :
    ¬ Broken (.error (.malformed m) : Except DecodeError α) :=
  fun ⟨_, h⟩ => by cases h

/-- A bind breaks when its first part does, or the rest does. -/
theorem broken_bind {x : Except DecodeError α} {f : α → Except DecodeError β} :
    Broken (x >>= f) ↔ Broken x ∨ ∃ a, x = .ok a ∧ Broken (f a) := by
  cases x with
  | error e =>
      have hnone : ¬ ∃ a, (.error e : Except DecodeError α) = .ok a ∧ Broken (f a) :=
        fun ⟨a, h, _⟩ => by cases h
      rw [or_iff_left hnone]
      exact ⟨fun ⟨m, h⟩ => ⟨m, by cases h; rfl⟩, fun ⟨m, h⟩ => ⟨m, by cases h; rfl⟩⟩
  | ok a =>
      rw [or_iff_right (not_broken_ok a)]
      exact ⟨fun h => ⟨a, rfl, h⟩, fun ⟨a', h, hf⟩ => by cases h; exact hf⟩

/-- A bind whose rest does not break breaks when its first part does. -/
theorem broken_bind_of_not {x : Except DecodeError α} {f : α → Except DecodeError β}
    (hf : ∀ a, ¬ Broken (f a)) : Broken (x >>= f) ↔ Broken x := by
  rw [broken_bind, or_iff_left]
  rintro ⟨a, -, h⟩
  exact hf a h

end Broken

/-- The length of a length-delimited field is too long a number, or leads too far. -/
def FarLength (F : Format) (Long : List UInt8 → Prop) (Far : ℕ → ℕ → Prop) (off : ℕ)
    (bs : List UInt8) : Prop :=
  Long bs ∨ ∃ ls ys n, F.Varint ls n ∧ bs = ls ++ ys ∧ Far (off + ls.length) n

/-- The content of a field with a wire type breaks the reader. -/
def ContentFaults (F : Format) (Long : List UInt8 → Prop) (Far : ℕ → ℕ → Prop) (w off : ℕ)
    (bs : List UInt8) : Prop :=
  w = 0 ∧ Long bs ∨ w = 2 ∧ FarLength F Long Far off bs

/-- The field that starts at an offset breaks the reader. -/
def Faults (F : Format) (Long : List UInt8 → Prop) (Far : ℕ → ℕ → Prop) (off : ℕ)
    (bs : List UInt8) : Prop :=
  Long bs ∨ ∃ ts ys k w, F.Tag ts k w ∧ bs = ts ++ ys ∧
    ContentFaults F Long Far w (off + ts.length) ys

namespace Rules

/-- The rules break at numbers that are too long and at fields that end too far away. -/
structure FailsAt (d : Rules) (size : ℕ) (Long : List UInt8 → Prop) (Far : ℕ → ℕ → Prop) :
    Prop where
  varint : ∀ r, Broken (d.readVarint r) ↔ Long r.rest
  tag : ∀ t, ¬ Broken (d.splitTag t)
  length : ∀ s off n, s ≤ size → (Broken (d.fieldLength s off n) ↔ Far off n)

/-- Whether a field is taken does not depend on the values kept so far. -/
def Steady {α : Type} (take : Field → α → Except DecodeError α) : Prop :=
  ∀ f a a', (take f a).map (fun _ => ()) = (take f a').map fun _ => ()

variable {d : Rules} {F : Format} {size : ℕ} {Long : List UInt8 → Prop} {Far : ℕ → ℕ → Prop}

section Primitive

variable {r : Reader}

theorem not_broken_present : ¬ Broken (d.present r) := by
  unfold present
  split
  · exact not_broken_malformed _
  · exact not_broken_ok _

theorem FailsAt.readTag_broken (hb : d.FailsAt size Long Far) :
    Broken (d.readTag r) ↔ Long r.rest := by
  unfold readTag
  rw [broken_bind, hb.varint, or_iff_left]
  rintro ⟨⟨t, r'⟩, -, h⟩
  rcases broken_bind.mp h with h | ⟨x, -, h⟩
  · exact hb.tag t h
  · exact not_broken_ok _ h

theorem FailsAt.readLD_broken (hb : d.FailsAt size Long Far) (h : d.Follows F size)
    (hsize : r.buf.length ≤ size) :
    Broken (d.readLD r) ↔ FarLength F Long Far r.off r.rest := by
  unfold readLD FarLength
  rw [broken_bind, hb.varint]
  refine or_congr Iff.rfl ?_
  constructor
  · rintro ⟨⟨n, r'⟩, hv, hbroken⟩
    obtain ⟨ls, ys, hls, heq, rfl⟩ := (h.readVarint_eq_ok r r' n).mp hv
    rcases broken_bind.mp hbroken with hfar | ⟨_, -, hok⟩
    · exact ⟨ls, ys, n, hls, heq, (hb.length _ _ _ hsize).mp hfar⟩
    · exact absurd hok (not_broken_ok _)
  · rintro ⟨ls, ys, n, hls, heq, hfar⟩
    refine ⟨(n, r.advance ls.length), (h.readVarint_eq_ok r _ n).mpr ⟨ls, ys, hls, heq, rfl⟩, ?_⟩
    exact broken_bind.mpr (Or.inl ((hb.length _ _ _ hsize).mpr hfar))

theorem FailsAt.skip_broken (hb : d.FailsAt size Long Far) (h : d.Follows F size)
    (hsize : r.buf.length ≤ size) (w : ℕ) :
    Broken (d.skip w r) ↔ ContentFaults F Long Far w r.off r.rest := by
  unfold ContentFaults
  by_cases h0 : w = 0
  · subst h0
    rw [skip_varint, broken_bind_of_not fun _ => not_broken_present, hb.varint]
    simp
  · by_cases h2 : w = 2
    · subst h2
      rw [skip_bytes, broken_bind_of_not fun _ => not_broken_present, hb.readLD_broken h hsize]
      simp
    · refine ⟨fun hbroken => ?_, fun hw => ?_⟩
      · cases hwidth : fixedWidth w with
        | some width =>
            rw [skip_fixed r hwidth] at hbroken
            exact absurd hbroken not_broken_present
        | none =>
            rw [skip_unsupported r ⟨h0, h2, hwidth⟩] at hbroken
            exact absurd hbroken (not_broken_malformed _)
      · rcases hw with ⟨hw, _⟩ | ⟨hw, _⟩
        · exact absurd hw h0
        · exact absurd hw h2

end Primitive

section Fields

variable {α : Type} {handle : ℕ × ℕ → Reader → α → Option (Except DecodeError (α × Reader))}
  {take : Field → α → Except DecodeError α} {r : Reader}

theorem FailsAt.content_broken (hb : d.FailsAt size Long Far) (h : d.Follows F size)
    (ht : d.Takes handle take) (hsize : r.buf.length ≤ size) (k w : ℕ) (a : α) :
    Broken (d.content handle (k, w) r a) ↔ ContentFaults F Long Far w r.off r.rest ∨
      ∃ xs ys c, IsContent F w xs c ∧ r.rest = xs ++ ys ∧ Broken (take ⟨k, c⟩ a) := by
  have hskip : handle (k, w) r a = none →
      (∀ xs c, IsContent F w xs c → take ⟨k, c⟩ a = .ok a) →
      (Broken (d.content handle (k, w) r a) ↔ ContentFaults F Long Far w r.off r.rest ∨
        ∃ xs ys c, IsContent F w xs c ∧ r.rest = xs ++ ys ∧ Broken (take ⟨k, c⟩ a)) := by
    intro hnone hleave
    simp only [content, hnone]
    rw [broken_bind_of_not fun _ => not_broken_ok _, hb.skip_broken h hsize, or_iff_left]
    rintro ⟨xs, ys, c, hc, -, hbroken⟩
    rw [hleave xs c hc] at hbroken
    exact not_broken_ok _ hbroken
  by_cases h0 : w = 0
  · subst h0
    rcases ht.varint k r a with hsome | ⟨hnone, hleave⟩
    · simp only [content, hsome]
      rw [broken_bind, hb.varint]
      refine or_congr (by simp [ContentFaults]) ?_
      constructor
      · rintro ⟨⟨n, r'⟩, hv, hbroken⟩
        obtain ⟨vs, ys, hvs, heq, -⟩ := (h.readVarint_eq_ok r r' n).mp hv
        rcases broken_bind.mp hbroken with htake | ⟨_, -, hok⟩
        · exact ⟨vs, ys, _, .varint hvs, heq, htake⟩
        · exact absurd hok (not_broken_ok _)
      · rintro ⟨vs, ys, c, hc, heq, htake⟩
        cases hc with
        | @varint _ n hvs =>
            exact ⟨(n, _), (h.readVarint_eq_ok r _ n).mpr ⟨vs, ys, hvs, heq, rfl⟩,
              broken_bind.mpr (Or.inl htake)⟩
    · refine hskip hnone fun xs c hc => ?_
      cases hc with
      | varint _ => exact hleave _
  · by_cases h2 : w = 2
    · subst h2
      rcases ht.bytes k r a with hsome | ⟨hnone, hleave⟩
      · simp only [content, hsome]
        rw [broken_bind, hb.readLD_broken h hsize]
        refine or_congr (by simp [ContentFaults]) ?_
        constructor
        · rintro ⟨⟨bs, r'⟩, hv, hbroken⟩
          obtain ⟨ls, ys, hls, heq, -⟩ := (h.readLD_eq_ok r r' hsize bs).mp hv
          rcases broken_bind.mp hbroken with htake | ⟨_, -, hok⟩
          · exact ⟨ls ++ bs, ys, _, .bytes hls, by rw [heq, List.append_assoc], htake⟩
          · exact absurd hok (not_broken_ok _)
        · rintro ⟨xs, ys, c, hc, heq, htake⟩
          cases hc with
          | @bytes ls bs hls =>
              rw [List.append_assoc] at heq
              exact ⟨(bs, _), (h.readLD_eq_ok r _ hsize bs).mpr ⟨ls, ys, hls, heq, rfl⟩,
                broken_bind.mpr (Or.inl htake)⟩
      · refine hskip hnone fun xs c hc => ?_
        cases hc with
        | bytes _ => exact hleave _
    · refine hskip (ht.other k w r a h0 h2) fun xs c hc => ?_
      cases hc with
      | varint _ => exact absurd rfl h0
      | fixed64 _ => exact (ht.fixed k _ a).1
      | bytes _ => exact absurd rfl h2
      | fixed32 _ => exact (ht.fixed k _ a).2

/-- A round breaks at the next field, or in what is made of it. -/
theorem FailsAt.round_broken (hb : d.FailsAt size Long Far) (h : d.Follows F size)
    (ht : d.Takes handle take) (hsize : r.buf.length ≤ size) (a : α) :
    Broken (d.round handle r a) ↔ Faults F Long Far r.off r.rest ∨
      ∃ xs ys f, IsField F xs f ∧ r.rest = xs ++ ys ∧ Broken (take f a) := by
  rw [round, broken_bind, hb.readTag_broken, Faults, or_assoc]
  refine or_congr Iff.rfl ?_
  constructor
  · rintro ⟨⟨⟨k, w⟩, r₁⟩, htag, hcontent⟩
    obtain ⟨ts, zs, hts, heq, rfl⟩ := (h.readTag_eq_ok r r₁ k w).mp htag
    have hrest := Reader.rest_append r heq
    rcases (hb.content_broken (r := r.advance ts.length) h ht hsize k w a).mp hcontent with
      hfault | ⟨xs, ys, c, hc, hzs, htake⟩
    · rw [hrest] at hfault
      exact Or.inl ⟨ts, zs, k, w, hts, heq, hfault⟩
    · rw [hrest] at hzs
      exact Or.inr ⟨ts ++ xs, ys, ⟨k, c⟩, .mk hts hc, by rw [heq, hzs, List.append_assoc], htake⟩
  · rintro (⟨ts, zs, k, w, hts, heq, hfault⟩ | ⟨xs, ys, f, hf, heq, htake⟩)
    · refine ⟨((k, w), r.advance ts.length), (h.readTag_eq_ok r _ k w).mpr
        ⟨ts, zs, hts, heq, rfl⟩, ?_⟩
      refine (hb.content_broken (r := r.advance ts.length) h ht hsize k w a).mpr (Or.inl ?_)
      rwa [Reader.rest_append r heq]
    · cases hf with
      | @mk ts bs k w c hts hc =>
          rw [List.append_assoc] at heq
          refine ⟨((k, w), r.advance ts.length), (h.readTag_eq_ok r _ k w).mpr
            ⟨ts, bs ++ ys, hts, heq, rfl⟩, ?_⟩
          refine (hb.content_broken (r := r.advance ts.length) h ht hsize k w a).mpr
            (Or.inr ⟨bs, ys, c, hc, ?_, htake⟩)
          rw [Reader.rest_append r heq]

/-- A fold over fields none of which breaks. -/
theorem not_broken_foldFields (h : ∀ f a, ¬ Broken (take f a)) (fs : List Field) (a : α) :
    ¬ Broken (foldFields take fs a) := by
  induction fs generalizing a with
  | nil => exact not_broken_ok a
  | cons f fs ih =>
      rw [foldFields_cons, broken_bind]
      rintro (hb | ⟨a', -, hb⟩)
      · exact h f a hb
      · exact ih a' hb

/-- A field that is taken. -/
def Passes (take : Field → α → Except DecodeError α) (f : Field) : Prop :=
  ∃ a b, take f a = .ok b

/-- What a loop over the fields breaks at: a fault of the field, or of what it holds. -/
def Breaks (F : Format) (Long : List UInt8 → Prop) (Far : ℕ → ℕ → Prop)
    (take : Field → α → Except DecodeError α) (off : ℕ) (bs : List UInt8) : Prop :=
  Faults F Long Far off bs ∨
    ∃ xs ys f a, IsField F xs f ∧ bs = xs ++ ys ∧ Broken (take f a)

theorem Steady.passes (hs : Steady take) {f : Field} (hp : Passes take f) (a : α) :
    ∃ b, take f a = .ok b := by
  obtain ⟨a', b, hb⟩ := hp
  have hstatus := hs f a a'
  rw [hb] at hstatus
  cases hx : take f a with
  | error e =>
      rw [hx] at hstatus
      cases hstatus
  | ok b' => exact ⟨b', rfl⟩

theorem Steady.broken (hs : Steady take) {f : Field} {a' : α} (hb : Broken (take f a')) (a : α) :
    Broken (take f a) := by
  obtain ⟨m, hm⟩ := hb
  have hstatus := hs f a a'
  rw [hm] at hstatus
  cases hx : take f a with
  | error e =>
      rw [hx] at hstatus
      cases hstatus
      exact ⟨m, rfl⟩
  | ok b' =>
      rw [hx] at hstatus
      cases hstatus

theorem Meets.ne_nil {Passed : Field → Prop} {Bad : ℕ → List UInt8 → Prop} {off : ℕ}
    {bs : List UInt8} (h : Meets F Passed Bad off bs) (hbad : ∀ off, ¬ Bad off []) : bs ≠ [] := by
  cases h with
  | here hb =>
      rintro rfl
      exact hbad _ hb
  | later hf _ _ =>
      exact List.append_ne_nil_of_left_ne_nil (List.ne_nil_of_length_pos hf.length_pos) _

theorem Meets.imp {Passed Passed' : Field → Prop} {Bad Bad' : ℕ → List UInt8 → Prop} {off : ℕ}
    {bs : List UInt8} (h : Meets F Passed Bad off bs) (hp : ∀ f, Passed f → Passed' f)
    (hbad : ∀ off bs, Bad off bs → Bad' off bs) : Meets F Passed' Bad' off bs := by
  induction h with
  | here hb => exact .here (hbad _ _ hb)
  | later hf hpass _ ih => exact .later hf (hp _ hpass) ih

/-- The same, knowing that all that is met is no longer than the whole. -/
theorem Meets.imp_of_le {Passed Passed' : Field → Prop} {Bad Bad' : ℕ → List UInt8 → Prop}
    {off : ℕ} {bs : List UInt8} (h : Meets F Passed Bad off bs) (hle : bs.length ≤ size)
    (hp : ∀ xs f, IsField F xs f → xs.length ≤ size → Passed f → Passed' f)
    (hbad : ∀ off bs, bs.length ≤ size → Bad off bs → Bad' off bs) :
    Meets F Passed' Bad' off bs := by
  induction h with
  | here hb => exact .here (hbad _ _ hle hb)
  | later hf hpass _ ih =>
      rw [List.length_append] at hle
      exact .later hf (hp _ _ hf (Nat.le_of_add_right_le hle) hpass)
        (ih (Nat.le_of_add_left_le hle))

theorem Meets.congr {Passed Passed' : Field → Prop} {Bad Bad' : ℕ → List UInt8 → Prop} {off : ℕ}
    {bs : List UInt8} (hp : ∀ f, Passed f ↔ Passed' f)
    (hbad : ∀ off bs, Bad off bs ↔ Bad' off bs) :
    Meets F Passed Bad off bs ↔ Meets F Passed' Bad' off bs :=
  ⟨fun h => Meets.imp h (fun f => (hp f).mp) fun off bs => (hbad off bs).mp,
    fun h => Meets.imp h (fun f => (hp f).mpr) fun off bs => (hbad off bs).mpr⟩

theorem faults_ne_nil (hlong : ¬ Long []) (off : ℕ) : ¬ Faults F Long Far off [] := by
  rintro (hl | ⟨ts, ys, k, w, hts, heq, _⟩)
  · exact hlong hl
  · have hpos := hts.length_pos
    rw [(List.append_eq_nil_iff.mp heq.symm).1] at hpos
    cases hpos

theorem breaks_ne_nil (hlong : ¬ Long []) (off : ℕ) : ¬ Breaks F Long Far take off [] := by
  rintro (hfault | ⟨xs, ys, f, a, hf, heq, _⟩)
  · exact faults_ne_nil hlong off hfault
  · have hpos := hf.length_pos
    rw [(List.append_eq_nil_iff.mp heq.symm).1] at hpos
    cases hpos

theorem FailsAt.not_long (hb : d.FailsAt size Long Far) : ¬ Long [] := by
  intro hl
  exact not_broken_malformed _ ((hb.varint ⟨[], 0⟩).mpr hl)

theorem FailsAt.fieldsLoop_broken (hb : d.FailsAt size Long Far) (h : d.Follows F size)
    (ht : d.Takes handle take) (hs : Steady take) (fuel : ℕ) (r : Reader)
    (hsize : r.buf.length ≤ size) (hfuel : r.rest.length ≤ fuel) (a : α) :
    Broken (d.fieldsLoop handle fuel r a) ↔
      Meets F (Passes take) (Breaks F Long Far take) r.off r.rest := by
  have hend : ∀ (fuel : ℕ) (r : Reader) (a : α), r.rest = [] →
      (Broken (d.fieldsLoop handle fuel r a) ↔
        Meets F (Passes take) (Breaks F Long Far take) r.off r.rest) := by
    intro fuel r a hnil
    rw [fieldsLoop_end fuel hnil]
    exact ⟨fun hok => absurd hok (not_broken_ok a), fun hm =>
      absurd hnil (Meets.ne_nil hm (breaks_ne_nil hb.not_long))⟩
  induction fuel generalizing r a with
  | zero => exact hend 0 r a (List.length_eq_zero_iff.mp (Nat.le_zero.mp hfuel))
  | succ fuel ih =>
      by_cases hnil : r.rest = []
      · exact hend (fuel + 1) r a hnil
      have hnext : ∀ {xs ys : List UInt8} (a : α), r.rest = xs ++ ys → 0 < xs.length →
          (Broken (d.fieldsLoop handle fuel (r.advance xs.length) a) ↔
            Meets F (Passes take) (Breaks F Long Far take) (r.off + xs.length) ys) := by
        intro xs ys a heq hpos
        have hys := Reader.rest_append r heq
        have hle : (r.advance xs.length).rest.length ≤ fuel := by
          rw [hys]
          rw [heq, List.length_append] at hfuel
          omega
        have hloop := ih (r.advance xs.length) hsize hle a
        rwa [hys, Reader.advance_off] at hloop
      rw [fieldsLoop_succ fuel hnil, broken_bind, hb.round_broken h ht hsize]
      constructor
      · rintro ((hfault | ⟨xs, ys, f, hf, heq, htake⟩) | ⟨⟨a', r'⟩, hround, hloop⟩)
        · exact .here (Or.inl hfault)
        · exact .here (Or.inr ⟨xs, ys, f, a, hf, heq, htake⟩)
        · rcases (h.round_eq_ok ht r r' hsize a a').mp hround with
            ⟨xs, ys, f, hf, heq, rfl, htake⟩ | ⟨ts, bs, k, w, width, _, _, _, hlt, heq, rfl, rfl⟩
          · rw [heq]
            exact .later hf ⟨a, a', htake⟩ ((hnext a' heq hf.length_pos).mp hloop)
          · have hrest : (r.advance (ts.length + width)).rest = [] := by
              rw [Reader.rest_advance, heq, List.drop_eq_nil_iff, List.length_append]
              omega
            rw [fieldsLoop_end fuel hrest] at hloop
            exact absurd hloop (not_broken_ok _)
      · intro hm
        generalize hrest : r.rest = bs at hm
        cases hm with
        | here hbad =>
            refine Or.inl ?_
            rcases hbad with hfault | ⟨xs, ys, f, a', hf, heq, htake⟩
            · exact Or.inl hfault
            · exact Or.inr ⟨xs, ys, f, hf, heq, hs.broken htake a⟩
        | @later _ xs ys f hf hp hm =>
            obtain ⟨a', htake⟩ := hs.passes hp a
            refine Or.inr ⟨(a', r.advance xs.length), ?_, (hnext a' hrest hf.length_pos).mpr hm⟩
            exact (h.round_eq_ok ht r _ hsize a a').mpr
              (Or.inl ⟨xs, ys, f, hf, hrest, rfl, htake⟩)

/-- The loop breaks just when complete fields that it takes lead to what it breaks at. -/
theorem FailsAt.fields_broken (hb : d.FailsAt size Long Far) (h : d.Follows F size)
    (ht : d.Takes handle take) (hs : Steady take) {bs : List UInt8} (hsize : bs.length ≤ size)
    (a : α) :
    Broken (d.fields handle bs a) ↔ Meets F (Passes take) (Breaks F Long Far take) 0 bs :=
  hb.fieldsLoop_broken h ht hs bs.length ⟨bs, 0⟩ hsize le_rfl a

end Fields

section Oneof

variable {α : Type} {select : ℕ → List UInt8 → Option (Except DecodeError α)} {absent : String}
  {Known : ℕ → Prop}

theorem takeBytes_eq_ok (f : Field) : ∃ y, takeBytes f none = .ok y := by
  obtain ⟨k, c⟩ := f
  cases c <;> exact ⟨_, rfl⟩

theorem not_broken_takeBytes (f : Field) : ¬ Broken (takeBytes f none) := by
  obtain ⟨y, hy⟩ := takeBytes_eq_ok f
  rw [hy]
  exact not_broken_ok y

theorem FailsAt.oneofLoop_broken (hb : d.FailsAt size Long Far) (h : d.Follows F size)
    (hknown : ∀ k inner, (select k inner).isSome = true ↔ Known k) (fuel : ℕ) (r : Reader)
    (hsize : r.buf.length ≤ size) (hfuel : r.rest.length ≤ fuel) :
    Broken (d.oneofLoop select absent fuel r) ↔
      Meets F (Field.Unknown Known) (Faults F Long Far) r.off r.rest ∨
        ∃ k inner x, Finds F Known r.rest k inner ∧ select k inner = some x ∧ Broken x := by
  have hend : ∀ (fuel : ℕ) (r : Reader), r.rest = [] →
      (Broken (d.oneofLoop select absent fuel r) ↔
        Meets F (Field.Unknown Known) (Faults F Long Far) r.off r.rest ∨
          ∃ k inner x, Finds F Known r.rest k inner ∧ select k inner = some x ∧ Broken x) := by
    intro fuel r hnil
    rw [oneofLoop_end fuel hnil]
    refine ⟨fun hm => absurd hm (not_broken_malformed _), ?_⟩
    rintro (hm | ⟨k, inner, x, hfinds, _⟩)
    · exact absurd hnil (Meets.ne_nil hm (faults_ne_nil hb.not_long))
    · exact absurd hnil hfinds.ne_nil
  induction fuel generalizing r with
  | zero => exact hend 0 r (List.length_eq_zero_iff.mp (Nat.le_zero.mp hfuel))
  | succ fuel ih =>
      by_cases hnil : r.rest = []
      · exact hend (fuel + 1) r hnil
      have hnext : ∀ {xs ys : List UInt8}, r.rest = xs ++ ys → 0 < xs.length →
          (Broken (d.oneofLoop select absent fuel (r.advance xs.length)) ↔
            Meets F (Field.Unknown Known) (Faults F Long Far) (r.off + xs.length) ys ∨
              ∃ k inner x, Finds F Known ys k inner ∧ select k inner = some x ∧ Broken x) := by
        intro xs ys heq hpos
        have hys := Reader.rest_append r heq
        have hle : (r.advance xs.length).rest.length ≤ fuel := by
          rw [hys]
          rw [heq, List.length_append] at hfuel
          omega
        have hloop := ih (r.advance xs.length) hsize hle
        rwa [hys, Reader.advance_off] at hloop
      have hround : Broken (d.round d.pick r none) ↔ Faults F Long Far r.off r.rest := by
        rw [hb.round_broken h takes_pick hsize, or_iff_left]
        rintro ⟨_, _, f, _, _, hf⟩
        exact not_broken_takeBytes f hf
      rw [oneofLoop_succ fuel hnil, broken_bind, hround]
      constructor
      · rintro (hfault | ⟨⟨y, r'⟩, hround, hloop⟩)
        · exact Or.inl (.here hfault)
        · rcases (h.round_eq_ok takes_pick r r' hsize none y).mp hround with
            ⟨xs, ys, f, hf, heq, rfl, htake⟩ | ⟨ts, bs, k, w, width, _, _, _, hlt, heq, rfl, rfl⟩
          · cases hsel : y.bind fun x => select x.1 x.2 with
            | some x =>
                simp only [hsel, Option.getD_some] at hloop
                obtain ⟨⟨k, inner⟩, rfl, hx⟩ := Option.bind_eq_some_iff.mp hsel
                obtain ⟨l, c⟩ := f
                cases c with
                | bytes bs =>
                    cases htake
                    have hk : Known k := (hknown k inner).mp (Option.isSome_iff_exists.mpr ⟨x, hx⟩)
                    exact Or.inr ⟨k, inner, x, heq ▸ .here hf hk, hx, hloop⟩
                | _ => cases htake
            | none =>
                simp only [hsel, Option.getD_none] at hloop
                have hskip := (unknown_iff hknown htake).mp hsel
                rw [heq]
                rcases (hnext heq hf.length_pos).mp hloop with hm | ⟨k, inner, x, hfinds, hx⟩
                · exact Or.inl (.later hf hskip hm)
                · exact Or.inr ⟨k, inner, x, .later hf hskip hfinds, hx⟩
          · have hrest : (r.advance (ts.length + width)).rest = [] := by
              rw [Reader.rest_advance, heq, List.drop_eq_nil_iff, List.length_append]
              omega
            simp only [Option.bind_none, Option.getD_none] at hloop
            rw [oneofLoop_end fuel hrest] at hloop
            exact absurd hloop (not_broken_malformed _)
      · have hpass : ∀ {xs ys : List UInt8} {f : Field}, IsField F xs f →
            f.Unknown Known → r.rest = xs ++ ys →
            Broken (d.oneofLoop select absent fuel (r.advance xs.length)) →
            Faults F Long Far r.off r.rest ∨ ∃ x, d.round d.pick r none = .ok x ∧
              Broken ((x.1.bind fun y => select y.1 y.2).getD
                (d.oneofLoop select absent fuel x.2)) := by
          intro xs ys f hf hskip heq hloop
          obtain ⟨y, htake⟩ := takeBytes_eq_ok f
          refine Or.inr ⟨(y, r.advance xs.length), (h.round_eq_ok takes_pick r _ hsize none _).mpr
            (Or.inl ⟨xs, ys, f, hf, heq, rfl, htake⟩), ?_⟩
          simpa only [(unknown_iff hknown htake).mpr hskip, Option.getD_none] using hloop
        rintro (hm | ⟨k, inner, x, hfinds, hx, hbroken⟩)
        · generalize hrest : r.rest = zs at hm
          cases hm with
          | here hfault => exact Or.inl hfault
          | later hf hskip hm =>
              rw [← hrest]
              exact hpass hf hskip hrest ((hnext hrest hf.length_pos).mpr (Or.inl hm))
        · generalize hrest : r.rest = zs at hfinds
          cases hfinds with
          | @here xs ys _ _ hf _ =>
              refine Or.inr ⟨(some (k, inner), r.advance xs.length), (h.round_eq_ok takes_pick r _
                hsize none _).mpr (Or.inl ⟨xs, ys, _, hf, hrest, rfl, rfl⟩), ?_⟩
              simpa [hx] using hbroken
          | later hf hskip hfinds =>
              rw [← hrest]
              exact hpass hf hskip hrest ((hnext hrest hf.length_pos).mpr
                (Or.inr ⟨k, inner, x, hfinds, hx, hbroken⟩))

/-- The search for a variant breaks just when fields that are no variants lead to a fault,
or when the first variant breaks. -/
theorem FailsAt.oneof_broken (hb : d.FailsAt size Long Far) (h : d.Follows F size)
    (hknown : ∀ k inner, (select k inner).isSome = true ↔ Known k) {bs : List UInt8}
    (hsize : bs.length ≤ size) :
    Broken (d.oneof select absent bs) ↔
      Meets F (Field.Unknown Known) (Faults F Long Far) 0 bs ∨
        ∃ k inner x, Finds F Known bs k inner ∧ select k inner = some x ∧ Broken x :=
  hb.oneofLoop_broken h hknown bs.length ⟨bs, 0⟩ hsize le_rfl

end Oneof

section Fold

variable {α β : Type} {get : Field → Option (Except DecodeError β)} {f : Field}
  {take : Field → α → Except DecodeError α} {take' : Field → β → Except DecodeError β}

theorem broken_put (b : β) : Broken (put get f b) ↔ ∃ x, get f = some x ∧ Broken x := by
  unfold put
  cases get f with
  | none => exact ⟨fun h => absurd h (not_broken_ok b), fun ⟨_, h, _⟩ => by cases h⟩
  | some x => exact ⟨fun h => ⟨x, rfl, h⟩, fun ⟨_, h, hx⟩ => by cases h; exact hx⟩

theorem broken_keep (x : α × β) :
    Broken (keep take take' f x) ↔
      Broken (take f x.1) ∨ ∃ a, take f x.1 = .ok a ∧ Broken (take' f x.2) := by
  unfold keep
  rw [broken_bind]
  refine or_congr Iff.rfl (exists_congr fun a => and_congr_right fun _ => ?_)
  rw [broken_bind_of_not fun _ => not_broken_ok _]

theorem passes_put (hget : ∀ f x, get f = some x → ∃ b, x = .ok b) (b : β) :
    ∃ b', put get f b = .ok b' := by
  unfold put
  cases hf : get f with
  | none => exact ⟨b, rfl⟩
  | some x =>
      obtain ⟨b', rfl⟩ := hget f x hf
      exact ⟨b', rfl⟩

theorem passes_keep {x : α × β} :
    (∃ y, keep take take' f x = .ok y) ↔
      (∃ a, take f x.1 = .ok a) ∧ ∃ b, take' f x.2 = .ok b := by
  unfold keep
  constructor
  · rintro ⟨y, hy⟩
    obtain ⟨a, ha, hy⟩ := bind_eq_ok.mp hy
    obtain ⟨b, hb, -⟩ := bind_eq_ok.mp hy
    exact ⟨⟨a, ha⟩, b, hb⟩
  · rintro ⟨⟨a, ha⟩, b, hb⟩
    exact ⟨(a, b), bind_eq_ok.mpr ⟨a, ha, bind_eq_ok.mpr ⟨b, hb, rfl⟩⟩⟩

theorem steady_put : Steady (put get) := by
  intro f b b'
  unfold put
  cases get f with
  | none => rfl
  | some x => rfl

theorem Steady.keep (h : Steady take) (h' : Steady take') : Steady (keep take take') := by
  intro f x x'
  have hfst := h f x.1 x'.1
  have hsnd := h' f x.2 x'.2
  unfold Protobuf.keep
  cases ha : take f x.1 with
  | error e =>
      cases ha' : take f x'.1 with
      | error e' =>
          rw [ha, ha'] at hfst
          cases hfst
          rfl
      | ok a' =>
          rw [ha, ha'] at hfst
          cases hfst
  | ok a =>
      cases ha' : take f x'.1 with
      | error e' =>
          rw [ha, ha'] at hfst
          cases hfst
      | ok a' =>
          change ((take' f x.2).bind fun b => .ok (a, b)).map _ =
            ((take' f x'.2).bind fun b => .ok (a', b)).map _
          cases hb : take' f x.2 with
          | error e =>
              cases hb' : take' f x'.2 with
              | error e' =>
                  rw [hb, hb'] at hsnd
                  cases hsnd
                  rfl
              | ok b' =>
                  rw [hb, hb'] at hsnd
                  cases hsnd
          | ok b =>
              cases hb' : take' f x'.2 with
              | error e' =>
                  rw [hb, hb'] at hsnd
                  cases hsnd
              | ok b' => rfl

theorem not_broken_varintAt {k : ℕ} {read : ℕ → Except DecodeError β}
    (h : ∀ n, ¬ Broken (read n)) (f : Field) (b : β) : ¬ Broken (put (varintAt k read) f b) := by
  rw [broken_put]
  rintro ⟨x, hx, hbroken⟩
  unfold varintAt at hx
  split at hx
  · split at hx
    · cases hx
      exact h _ hbroken
    · cases hx
  · cases hx

theorem not_broken_bytesAt {k : ℕ} {read : List UInt8 → Except DecodeError β}
    (h : ∀ bs, ¬ Broken (read bs)) (f : Field) (b : β) : ¬ Broken (put (bytesAt k read) f b) := by
  rw [broken_put]
  rintro ⟨x, hx, hbroken⟩
  unfold bytesAt at hx
  split at hx
  · split at hx
    · cases hx
      exact h _ hbroken
    · cases hx
  · cases hx

theorem not_broken_keep (h : ∀ a, ¬ Broken (take f a)) (h' : ∀ b, ¬ Broken (take' f b))
    (x : α × β) : ¬ Broken (keep take take' f x) := by
  rw [broken_keep]
  rintro (hb | ⟨_, -, hb⟩)
  · exact h _ hb
  · exact h' _ hb

theorem passes_varintAt {k : ℕ} {read : ℕ → Except DecodeError β} (h : ∀ n, ∃ b, read n = .ok b)
    (f : Field) (b : β) : ∃ b', put (varintAt k read) f b = .ok b' := by
  refine passes_put (fun f x hx => ?_) b
  unfold varintAt at hx
  split at hx
  · split at hx
    · cases hx
      exact h _
    · cases hx
  · cases hx

theorem passes_bytesAt {k : ℕ} {read : List UInt8 → Except DecodeError β}
    (h : ∀ bs, ∃ b, read bs = .ok b) (f : Field) (b : β) :
    ∃ b', put (bytesAt k read) f b = .ok b' := by
  refine passes_put (fun f x hx => ?_) b
  unfold bytesAt at hx
  split at hx
  · split at hx
    · cases hx
      exact h _
    · cases hx
  · cases hx

end Fold

end Rules

end Protobuf

end DittoClient
