import DittoClient.Wire.Accepts

/-!
# What breaks a response decoder

Most decoders break nowhere but in their readers (`Dialect.Quiet`). Such a decoder breaks only
where complete fields lead to a fault, in the envelope, in its payload before the first variant,
in the variant, or in the value of a watch event (`PayloadFaults`); and it does break there if
it takes every number and every text (`Dialect.Total`).
-/

namespace DittoClient

namespace Wire

open DittoClient.Protobuf
open DittoClient.Protobuf.Rules

/-- The variants whose messages are parsed. -/
def Parsed (k : ℕ) : Prop :=
  k ∈ [1, 2, 7, 10, 11, 12, 13, 14]

instance (k : ℕ) : Decidable (Parsed k) :=
  inferInstanceAs (Decidable (_ ∈ _))

section Faults

variable (d : Dialect) (F : Format) (Long : List UInt8 → Prop) (Far : ℕ → ℕ → Prop)

/-- A field that leads to no error: the value of a watch event has to be a message. -/
def OptionalReads (k : ℕ) (f : Field) : Prop :=
  k = 10 → ∀ opt, f = ⟨2, .bytes opt⟩ → ∃ fs, IsMessage F opt fs

/-- The value of a watch event leads to a fault. -/
def OptionalFaults (k : ℕ) (bs : List UInt8) : Prop :=
  k = 10 ∧ ∃ xs ys opt, IsField F xs ⟨2, .bytes opt⟩ ∧ bs = xs ++ ys ∧
    Meets F (fun _ => True) (Faults F Long Far) 0 opt

/-- The message of a variant leads to a fault. -/
def VariantFaults (k : ℕ) (inner : List UInt8) : Prop :=
  Parsed k ∧ Meets F (OptionalReads F k)
    (fun off bs => Faults F Long Far off bs ∨ OptionalFaults F Long Far k bs) 0 inner

/-- A payload leads to a fault, on one of its levels. -/
def PayloadFaults (bs : List UInt8) : Prop :=
  Meets F (fun _ => True) (Faults F Long Far) 0 bs ∨
    ∃ p, d.Opens F bs p ∧ (Meets F (Field.Unknown Variant) (Faults F Long Far) 0 p ∨
      ∃ k inner, Finds F Variant p k inner ∧ VariantFaults F Long Far k inner)

end Faults

namespace Dialect

/-- A dialect whose numbers and texts do not break. -/
structure Quiet (d : Dialect) : Prop where
  number : ∀ n, ¬ Broken (d.number n)
  index : ∀ n, ¬ Broken (d.index n)
  text : ∀ bs, ¬ Broken (d.text bs)

/-- A dialect that takes every number and every text. -/
structure Total (d : Dialect) : Prop where
  number : ∀ n, ∃ v, d.number n = .ok v
  index : ∀ n, ∃ v, d.index n = .ok v
  text : ∀ bs, ∃ s, d.text bs = .ok s

theorem Total.quiet {d : Dialect} (h : d.Total) : d.Quiet where
  number n := by
    obtain ⟨v, hv⟩ := h.number n
    rw [hv]
    exact not_broken_ok v
  index n := by
    obtain ⟨v, hv⟩ := h.index n
    rw [hv]
    exact not_broken_ok v
  text bs := by
    obtain ⟨s, hs⟩ := h.text bs
    rw [hs]
    exact not_broken_ok s

variable {d : Dialect} {F : Format} {size : ℕ} {Long : List UInt8 → Prop} {Far : ℕ → ℕ → Prop}
  {k : ℕ} {inner bs : List UInt8}

section Quiet

variable (hq : d.Quiet) (f : Field)

include hq

theorem Quiet.takeValue (a : String × List UInt8 × ℤ) : ¬ Broken (d.takeValue f a) :=
  not_broken_keep (not_broken_bytesAt hq.text f)
    (not_broken_keep (not_broken_bytesAt (fun _ => not_broken_ok _) f)
      (not_broken_varintAt hq.number f)) a

theorem Quiet.takeNumber (a : ℤ) : ¬ Broken (d.takeNumber f a) :=
  not_broken_varintAt hq.number f a

theorem Quiet.takeError (a : ℤ × String) : ¬ Broken (d.takeError f a) :=
  not_broken_keep (not_broken_varintAt hq.index f) (not_broken_bytesAt hq.text f) a

theorem Quiet.takeEnvelope (a : ℤ × Option (List UInt8)) : ¬ Broken (d.takeEnvelope f a) :=
  not_broken_keep (not_broken_varintAt hq.number f)
    (not_broken_bytesAt (fun _ => not_broken_ok _) f) a

omit hq in
theorem not_broken_takeSetNx (a : Bool × ℤ) : ¬ Broken (d.takeSetNx f a) :=
  not_broken_keep (not_broken_varintAt (fun _ => not_broken_ok _) f)
    (not_broken_varintAt (fun _ => not_broken_ok _) f) a

omit hq in
theorem not_broken_takeCounter (a : ℤ × ℤ) : ¬ Broken (d.takeCounter f a) :=
  not_broken_keep (not_broken_varintAt (fun _ => not_broken_ok _) f)
    (not_broken_varintAt (fun _ => not_broken_ok _) f) a

omit hq in
theorem not_broken_takeOptionalBytes (a : List UInt8) : ¬ Broken (takeOptionalBytes f a) :=
  not_broken_bytesAt (fun _ => not_broken_ok _) f a

/-- A field of a watch event breaks in its value. -/
theorem Quiet.takeWatchEvent (a : String × Option (List UInt8) × ℤ) :
    Broken (d.takeWatchEvent f a) ↔
      ∃ opt, f = ⟨2, .bytes opt⟩ ∧ Broken (d.decodeOptionalBytes opt) := by
  have hmap : ∀ opt, Broken ((d.decodeOptionalBytes opt).map some) ↔
      Broken (d.decodeOptionalBytes opt) := by
    intro opt
    cases d.decodeOptionalBytes opt with
    | error e => exact ⟨fun ⟨m, h⟩ => ⟨m, by cases h; rfl⟩, fun ⟨m, h⟩ => ⟨m, by cases h; rfl⟩⟩
    | ok bs => exact iff_of_false (not_broken_ok _) (not_broken_ok _)
  unfold Dialect.takeWatchEvent
  rw [broken_keep, or_iff_right (not_broken_bytesAt hq.text f a.1)]
  constructor
  · rintro ⟨_, -, hbroken⟩
    rcases (broken_keep _).mp hbroken with hbroken | ⟨_, -, hbroken⟩
    · obtain ⟨x, hx, hbroken⟩ := (broken_put _).mp hbroken
      obtain ⟨l, c⟩ := f
      cases c with
      | bytes opt =>
          change (if l = 2 then some ((d.decodeOptionalBytes opt).map some) else none) = some x at hx
          split at hx
          · next hl =>
              cases hx
              exact ⟨opt, by rw [hl], (hmap opt).mp hbroken⟩
          · cases hx
      | _ => cases hx
    · exact absurd hbroken (not_broken_varintAt hq.number f _)
  · rintro ⟨opt, rfl, hbroken⟩
    refine ⟨a.1, rfl, (broken_keep _).mpr (Or.inl ?_)⟩
    exact (broken_put _).mpr ⟨_, rfl, (hmap opt).mpr hbroken⟩

end Quiet

/-- The value of a watch event breaks where complete fields lead to a fault. -/
theorem decodeOptionalBytes_broken (hb : d.FailsAt size Long Far) (h : d.Follows F size)
    (hsize : bs.length ≤ size) :
    Broken (d.decodeOptionalBytes bs) ↔ Meets F (fun _ => True) (Faults F Long Far) 0 bs := by
  refine (hb.fields_broken h takes_optionalBytes steady_put hsize []).trans ?_
  refine Meets.congr (fun f => iff_of_true ⟨[], ?_⟩ trivial) fun off bs => or_iff_left ?_
  · exact passes_bytesAt (fun bs => ⟨bs, rfl⟩) f []
  · rintro ⟨_, _, f, a, _, _, hbroken⟩
    exact not_broken_takeOptionalBytes f a hbroken

section Variants

variable {α : Type} {take : Field → α → Except DecodeError α}

/-- A variant whose fields do not break. -/
theorem variantFaults_of_breaks (hk : Parsed k) (hne : k ≠ 10)
    (hquiet : ∀ f a, ¬ Broken (take f a)) (h : Meets F (Passes take) (Breaks F Long Far take) 0 inner) :
    VariantFaults F Long Far k inner := by
  refine ⟨hk, Meets.imp h (fun f _ heq => absurd heq hne) fun _ _ hbreaks => ?_⟩
  rcases hbreaks with hfault | ⟨_, _, f, a, _, _, hbroken⟩
  · exact Or.inl hfault
  · exact absurd hbroken (hquiet f a)

/-- A variant that takes every field. -/
theorem breaks_of_variantFaults (hne : k ≠ 10) (htotal : ∀ f, ∃ a b, take f a = .ok b)
    (h : VariantFaults F Long Far k inner) :
    Meets F (Passes take) (Breaks F Long Far take) 0 inner :=
  Meets.imp h.2 (fun f _ => htotal f) fun _ _ hfault =>
    hfault.elim Or.inl fun hopt => absurd hopt.1 hne

end Variants

/-- A watch event is taken if its value is. -/
theorem passes_watchEvent_value (a : String × Option (List UInt8) × ℤ) {opt : List UInt8}
    (hpass : ∃ b, d.takeWatchEvent ⟨2, .bytes opt⟩ a = .ok b) :
    ∃ value, d.decodeOptionalBytes opt = .ok value := by
  obtain ⟨-, hpass⟩ := passes_keep.mp hpass
  obtain ⟨⟨b, hb⟩, -⟩ := passes_keep.mp hpass
  change (d.decodeOptionalBytes opt).map some = .ok b at hb
  cases hv : d.decodeOptionalBytes opt with
  | error e =>
      rw [hv] at hb
      cases hb
  | ok value => exact ⟨value, rfl⟩

theorem Quiet.watchEvent_variantFaults (hq : d.Quiet) (hb : d.FailsAt size Long Far)
    (h : d.Follows F size) (hsize : inner.length ≤ size)
    (hbreaks : d.VariantBreaks F Long Far 10 inner) : VariantFaults F Long Far 10 inner := by
  refine ⟨by decide, Meets.imp_of_le hbreaks hsize (fun xs f hf hle hpass _ opt heq => ?_)
    fun off bs hle hbad => ?_⟩
  · subst heq
    obtain ⟨a, hpass⟩ := hpass
    obtain ⟨value, hvalue⟩ := passes_watchEvent_value a hpass
    obtain ⟨fs, hm, -⟩ := (fields_optionalBytes h (hf.length_le.trans hle) value).mp hvalue
    exact ⟨fs, hm⟩
  · rcases hbad with hfault | ⟨xs, ys, f, a, hf, heq, hbroken⟩
    · exact Or.inl hfault
    · obtain ⟨opt, rfl, hvalue⟩ := (hq.takeWatchEvent f a).mp hbroken
      have hopt : opt.length ≤ size := by
        have hxs := hf.length_le
        rw [heq, List.length_append] at hle
        omega
      exact Or.inr ⟨rfl, xs, ys, opt, hf, heq, (decodeOptionalBytes_broken hb h hopt).mp hvalue⟩

theorem Total.watchEvent_variantBreaks (ht : d.Total) (hb : d.FailsAt size Long Far)
    (h : d.Follows F size) (hsize : inner.length ≤ size)
    (hfaults : VariantFaults F Long Far 10 inner) : d.VariantBreaks F Long Far 10 inner := by
  refine Meets.imp_of_le hfaults.2 hsize (fun xs f hf hle hreads => ⟨("", none, 0), ?_⟩)
    fun off bs hle hbad => ?_
  · refine passes_keep.mpr ⟨passes_bytesAt ht.text f "", passes_keep.mpr
      ⟨?_, passes_varintAt ht.number f 0⟩⟩
    obtain ⟨l, c⟩ := f
    cases c with
    | bytes opt =>
        change ∃ b, (if l = 2 then some ((d.decodeOptionalBytes opt).map some) else none).getD
          (.ok none) = .ok b
        split
        · next hl =>
            obtain ⟨fs, hm⟩ := hreads rfl opt (by rw [hl])
            obtain ⟨value, hvalue⟩ : ∃ value, foldFields takeOptionalBytes fs [] = .ok value := by
              clear hm
              generalize ([] : List UInt8) = b
              induction fs generalizing b with
              | nil => exact ⟨b, rfl⟩
              | cons g fs ih =>
                  obtain ⟨b', hb'⟩ := passes_bytesAt (k := 1) (fun bs => ⟨bs, rfl⟩) g b
                  rw [foldFields_cons]
                  obtain ⟨c, hc⟩ := ih b'
                  exact ⟨c, bind_eq_ok.mpr ⟨b', hb', hc⟩⟩
            have hok := (fields_optionalBytes h (hf.length_le.trans hle) value).mpr ⟨fs, hm, hvalue⟩
            exact ⟨some value, by rw [hok]; rfl⟩
        · exact ⟨none, rfl⟩
    | _ => exact ⟨none, rfl⟩
  · rcases hbad with hfault | ⟨-, xs, ys, opt, hf, heq, hmeets⟩
    · exact Or.inl hfault
    · have hopt : opt.length ≤ size := by
        have hxs := hf.length_le
        rw [heq, List.length_append] at hle
        omega
      exact Or.inr ⟨xs, ys, _, ("", none, 0), hf, heq, (ht.quiet.takeWatchEvent _ _).mpr
        ⟨opt, rfl, (decodeOptionalBytes_broken hb h hopt).mpr hmeets⟩⟩

/-- Where the decoder of a variant breaks, the message leads to a fault. -/
theorem Quiet.variantFaults (hq : d.Quiet) (hb : d.FailsAt size Long Far) (h : d.Follows F size)
    (hsize : inner.length ≤ size) (hbreaks : d.VariantBreaks F Long Far k inner) :
    VariantFaults F Long Far k inner := by
  match k with
  | 1 => exact variantFaults_of_breaks (by decide) (by decide) hq.takeValue hbreaks
  | 2 => exact variantFaults_of_breaks (by decide) (by decide) hq.takeNumber hbreaks
  | 7 => exact variantFaults_of_breaks (by decide) (by decide) hq.takeError hbreaks
  | 11 => exact variantFaults_of_breaks (by decide) (by decide) hq.takeNumber hbreaks
  | 12 => exact variantFaults_of_breaks (by decide) (by decide) hq.takeNumber hbreaks
  | 13 => exact variantFaults_of_breaks (by decide) (by decide) not_broken_takeSetNx hbreaks
  | 14 => exact variantFaults_of_breaks (by decide) (by decide) not_broken_takeCounter hbreaks
  | 10 => exact hq.watchEvent_variantFaults hb h hsize hbreaks
  | 0 => exact hbreaks.elim
  | 3 => exact hbreaks.elim
  | 4 => exact hbreaks.elim
  | 5 => exact hbreaks.elim
  | 6 => exact hbreaks.elim
  | 8 => exact hbreaks.elim
  | 9 => exact hbreaks.elim
  | k + 15 => exact hbreaks.elim

/-- Where the message of a variant leads to a fault, the decoder breaks. -/
theorem Total.variantBreaks (ht : d.Total) (hb : d.FailsAt size Long Far) (h : d.Follows F size)
    (hsize : inner.length ≤ size) (hfaults : VariantFaults F Long Far k inner) :
    d.VariantBreaks F Long Far k inner := by
  have hnumber : ∀ f, ∃ a b, d.takeNumber f a = .ok b := fun f =>
    ⟨0, passes_varintAt ht.number f 0⟩
  have hread : ∀ {β : Type} (g : ℕ → β) (n : ℕ), ∃ b, (.ok (g n) : Except DecodeError β) = .ok b :=
    fun g n => ⟨g n, rfl⟩
  have hk := hfaults.1
  unfold Parsed at hk
  simp only [List.mem_cons, List.not_mem_nil, or_false] at hk
  rcases hk with rfl | rfl | rfl | rfl | rfl | rfl | rfl | rfl
  · refine breaks_of_variantFaults (by decide) (fun f => ⟨("", [], 0), ?_⟩) hfaults
    exact passes_keep.mpr ⟨passes_bytesAt ht.text f "", passes_keep.mpr
      ⟨passes_bytesAt (fun bs => ⟨bs, rfl⟩) f [], passes_varintAt ht.number f 0⟩⟩
  · exact breaks_of_variantFaults (by decide) hnumber hfaults
  · refine breaks_of_variantFaults (by decide) (fun f => ⟨(0, ""), ?_⟩) hfaults
    exact passes_keep.mpr ⟨passes_varintAt ht.index f 0, passes_bytesAt ht.text f ""⟩
  · exact ht.watchEvent_variantBreaks hb h hsize hfaults
  · exact breaks_of_variantFaults (by decide) hnumber hfaults
  · exact breaks_of_variantFaults (by decide) hnumber hfaults
  · refine breaks_of_variantFaults (by decide) (fun f => ⟨(false, 0), ?_⟩) hfaults
    exact passes_keep.mpr ⟨passes_varintAt (hread _) f false, passes_varintAt (hread _) f 0⟩
  · refine breaks_of_variantFaults (by decide) (fun f => ⟨(0, 0), ?_⟩) hfaults
    exact passes_keep.mpr ⟨passes_varintAt (hread _) f 0, passes_varintAt (hread _) f 0⟩

/-- A quiet decoder breaks only where complete fields lead to a fault. -/
theorem Quiet.decodeResponse_faults (hq : d.Quiet) (hb : d.FailsAt size Long Far)
    (h : d.Follows F size) (hsize : bs.length ≤ size) (hbroken : Broken (d.decodeResponse bs)) :
    PayloadFaults d F Long Far bs := by
  rcases (decodeResponse_broken hb h hsize).mp hbroken with henvelope | ⟨p, hopens, hp⟩
  · refine Or.inl (Meets.imp henvelope (fun _ _ => trivial) fun off bs hbreaks => ?_)
    rcases hbreaks with hfault | ⟨_, _, f, a, _, _, hbroken⟩
    · exact hfault
    · exact absurd hbroken (hq.takeEnvelope f a)
  · refine Or.inr ⟨p, hopens, hp.imp_right ?_⟩
    rintro ⟨k, inner, hfinds, hbreaks⟩
    have hinner := (hfinds.length_le.trans hopens.length_le).trans hsize
    exact ⟨k, inner, hfinds, hq.variantFaults hb h hinner hbreaks⟩

/-- A total decoder breaks just where complete fields lead to a fault. -/
theorem Total.decodeResponse_faults (ht : d.Total) (hb : d.FailsAt size Long Far)
    (h : d.Follows F size) (hsize : bs.length ≤ size) :
    Broken (d.decodeResponse bs) ↔ PayloadFaults d F Long Far bs := by
  refine ⟨ht.quiet.decodeResponse_faults hb h hsize, fun hfaults => ?_⟩
  refine (decodeResponse_broken hb h hsize).mpr ?_
  rcases hfaults with henvelope | ⟨p, hopens, hp⟩
  · refine Or.inl (Meets.imp henvelope (fun f _ => ⟨(0, none), ?_⟩) fun _ _ => Or.inl)
    exact passes_keep.mpr ⟨passes_varintAt ht.number f 0,
      passes_bytesAt (fun bs => ⟨some bs, rfl⟩) f none⟩
  · refine Or.inr ⟨p, hopens, hp.imp_right ?_⟩
    rintro ⟨k, inner, hfinds, hfaults⟩
    have hinner := (hfinds.length_le.trans hopens.length_le).trans hsize
    exact ⟨k, inner, hfinds, ht.variantBreaks hb h hinner hfaults⟩

/-- A quiet decoder whose reader never breaks reports every malformed payload. -/
theorem Quiet.not_broken (hq : d.Quiet) (hb : d.FailsAt size (fun _ => False) fun _ _ => False)
    (h : d.Follows F size) (hsize : bs.length ≤ size) : ¬ Broken (d.decodeResponse bs) := by
  have hfault : ∀ off bs, ¬ Faults F (fun _ => False) (fun _ _ => False) off bs := by
    rintro off bs (hlong | ⟨_, _, _, _, _, _, (⟨_, hlong⟩ | ⟨_, hlong | ⟨_, _, _, _, _, hfar⟩⟩)⟩)
    · exact hlong
    · exact hlong
    · exact hlong
    · exact hfar
  have hmeets : ∀ {Passed : Field → Prop} {Bad : ℕ → List UInt8 → Prop} {off : ℕ} {bs : List UInt8},
      (∀ off bs, ¬ Bad off bs) → ¬ Meets F Passed Bad off bs := by
    intro Passed Bad off bs hbad hm
    induction hm with
    | here hb => exact hbad _ _ hb
    | later _ _ _ ih => exact ih
  intro hbroken
  rcases hq.decodeResponse_faults hb h hsize hbroken with henvelope | ⟨p, -, hp | ⟨k, inner, -, -, hv⟩⟩
  · exact hmeets hfault henvelope
  · exact hmeets hfault hp
  · refine hmeets (fun off bs hbad => ?_) hv
    rcases hbad with hbad | ⟨-, _, _, opt, _, _, hopt⟩
    · exact hfault off bs hbad
    · exact hmeets hfault hopt

end Dialect

end Wire

end DittoClient
