import DittoClient.Protobuf.Primitive

/-!
# What a loop over the fields accepts

A loop over the fields of a byte string returns just when the byte string is a message in
the format of the reader, and what it returns is the fold over the fields of the message
(`Rules.Follows.fields_eq_ok`). A search for a variant returns just when complete fields
lead to one (`Rules.Follows.oneof_eq_ok`).
-/

namespace DittoClient

namespace Protobuf

namespace Rules

variable {d : Rules} {F : Format} {size : ℕ}

section Fields

variable {α : Type} {handle : ℕ × ℕ → Reader → α → Option (Except DecodeError (α × Reader))}
  {take : Field → α → Except DecodeError α}

/-- The handler of a loop reads fields as `take` says, and leaves the others to be
skipped. -/
structure Takes (d : Rules)
    (handle : ℕ × ℕ → Reader → α → Option (Except DecodeError (α × Reader)))
    (take : Field → α → Except DecodeError α) : Prop where
  varint : ∀ k r a, (handle (k, 0) r a = some (d.readVarint r >>= fun x =>
      take ⟨k, .varint x.1⟩ a >>= fun a => .ok (a, x.2))) ∨
    (handle (k, 0) r a = none ∧ ∀ n, take ⟨k, .varint n⟩ a = .ok a)
  bytes : ∀ k r a, (handle (k, 2) r a = some (d.readLD r >>= fun x =>
      take ⟨k, .bytes x.1⟩ a >>= fun a => .ok (a, x.2))) ∨
    (handle (k, 2) r a = none ∧ ∀ bs, take ⟨k, .bytes bs⟩ a = .ok a)
  other : ∀ k w r a, w ≠ 0 → w ≠ 2 → handle (k, w) r a = none
  fixed : ∀ k bs a, take ⟨k, .fixed64 bs⟩ a = .ok a ∧ take ⟨k, .fixed32 bs⟩ a = .ok a

/-- Read or skip the content of a field. -/
def content (d : Rules)
    (handle : ℕ × ℕ → Reader → α → Option (Except DecodeError (α × Reader)))
    (tag : ℕ × ℕ) (r : Reader) (a : α) : Except DecodeError (α × Reader) :=
  match handle tag r a with
  | some x => x
  | none => d.skip tag.2 r >>= fun r => .ok (a, r)

/-- Read the tag of a field, and read or skip its content. -/
def round (d : Rules)
    (handle : ℕ × ℕ → Reader → α → Option (Except DecodeError (α × Reader)))
    (r : Reader) (a : α) : Except DecodeError (α × Reader) :=
  d.readTag r >>= fun x => d.content handle x.1 x.2 a

theorem fieldsLoop_end (fuel : ℕ) {r : Reader} (hnil : r.rest = []) (a : α) :
    d.fieldsLoop handle fuel r a = .ok a := by
  cases fuel with
  | zero => rfl
  | succ fuel =>
      rw [fieldsLoop, Reader.more_eq]
      simp [hnil]

theorem fieldsLoop_succ (fuel : ℕ) {r : Reader} (hnil : r.rest ≠ []) (a : α) :
    d.fieldsLoop handle (fuel + 1) r a =
      d.round handle r a >>= fun y => d.fieldsLoop handle fuel y.2 y.1 := by
  rw [fieldsLoop, Reader.more_eq, round]
  simp only [hnil, ne_eq, not_false_eq_true, decide_true, if_true]
  cases d.readTag r with
  | error e => rfl
  | ok x =>
      obtain ⟨tag, r₁⟩ := x
      simp only [bind, Except.bind, content]
      cases handle tag r₁ a with
      | some y => rfl
      | none =>
          simp only
          cases d.skip tag.2 r₁ with
          | error e => rfl
          | ok r₂ => rfl

/-- A bind returns when its first part does. -/
theorem bind_eq_ok {ε β γ : Type} {x : Except ε β} {f : β → Except ε γ} {c : γ} :
    x >>= f = .ok c ↔ ∃ b, x = .ok b ∧ f b = .ok c := by
  cases x with
  | error e => exact ⟨fun h => (by cases h), fun ⟨b, h, _⟩ => (by cases h)⟩
  | ok b => exact ⟨fun h => ⟨b, rfl, h⟩, fun ⟨b', h, hf⟩ => by cases h; exact hf⟩

/-- What a field contributes. -/
def Contributes (F : Format) (take : Field → α → Except DecodeError α) (k w : ℕ)
    (r r' : Reader) (a a' : α) : Prop :=
  ∃ xs ys c, IsContent F w xs c ∧ r.rest = xs ++ ys ∧ r' = r.advance xs.length ∧
    take ⟨k, c⟩ a = .ok a'

theorem Follows.content_eq_ok (h : d.Follows F size) (ht : d.Takes handle take)
    (r r' : Reader) (hsize : r.buf.length ≤ size) (hoff : r.off ≤ r.buf.length) (k w : ℕ)
    (a a' : α) :
    d.content handle (k, w) r a = .ok (a', r') ↔
      Contributes F take k w r r' a a' ∨ CutShort F r r' w ∧ a' = a := by
  have hskip : handle (k, w) r a = none →
      (∀ xs c, IsContent F w xs c → take ⟨k, c⟩ a = .ok a) →
      (d.content handle (k, w) r a = .ok (a', r') ↔
        Contributes F take k w r r' a a' ∨ CutShort F r r' w ∧ a' = a) := by
    intro hnone hleave
    simp only [content, hnone]
    rw [bind_eq_ok]
    constructor
    · rintro ⟨r₁, hs, he⟩
      cases he
      rcases (h.skip_eq_ok r r' w hsize hoff).mp hs with ⟨xs, ys, c, hc, heq, hr⟩ | hcut
      · exact Or.inl ⟨xs, ys, c, hc, heq, hr, hleave xs c hc⟩
      · exact Or.inr ⟨hcut, rfl⟩
    · rintro (⟨xs, ys, c, hc, heq, hr, htake⟩ | ⟨hcut, rfl⟩)
      · rw [hleave xs c hc, Except.ok.injEq] at htake
        subst htake
        exact ⟨r', (h.skip_eq_ok r r' w hsize hoff).mpr (Or.inl ⟨xs, ys, c, hc, heq, hr⟩), rfl⟩
      · exact ⟨r', (h.skip_eq_ok r r' w hsize hoff).mpr (Or.inr hcut), rfl⟩
  have hread : ∀ {β : Type} {x : Except DecodeError (β × Reader)} {f : β → α → Except DecodeError α},
      handle (k, w) r a = some (x >>= fun y => f y.1 a >>= fun a => .ok (a, y.2)) →
      fixedWidth w = none →
      ((∃ b, x = .ok (b, r') ∧ f b a = .ok a') ↔ Contributes F take k w r r' a a') →
      (d.content handle (k, w) r a = .ok (a', r') ↔
        Contributes F take k w r r' a a' ∨ CutShort F r r' w ∧ a' = a) := by
    intro β x f hsome hwidth hiff
    have hcut : ¬ (CutShort F r r' w ∧ a' = a) := fun ⟨⟨_, _, hw, _⟩, _⟩ => by
      rw [hwidth] at hw
      cases hw
    rw [or_iff_left hcut, ← hiff]
    simp only [content, hsome]
    rw [bind_eq_ok]
    constructor
    · rintro ⟨⟨b, r₁⟩, hx, hf⟩
      obtain ⟨a₁, ha, he⟩ := bind_eq_ok.mp hf
      cases he
      exact ⟨b, hx, ha⟩
    · rintro ⟨b, hx, ha⟩
      exact ⟨(b, r'), hx, bind_eq_ok.mpr ⟨a', ha, rfl⟩⟩
  by_cases h0 : w = 0
  · subst h0
    rcases ht.varint k r a with hsome | ⟨hnone, hleave⟩
    · refine hread (f := fun n => take ⟨k, .varint n⟩) hsome rfl ?_
      constructor
      · rintro ⟨n, hv, htake⟩
        obtain ⟨vs, ys, hvs, heq, hr⟩ := (h.readVarint_eq_ok r r' n).mp hv
        exact ⟨vs, ys, _, .varint hvs, heq, hr, htake⟩
      · rintro ⟨vs, ys, c, hc, heq, hr, htake⟩
        cases hc with
        | varint hvs => exact ⟨_, (h.readVarint_eq_ok r r' _).mpr ⟨vs, ys, hvs, heq, hr⟩, htake⟩
    · refine hskip hnone fun xs c hc => ?_
      cases hc with
      | varint _ => exact hleave _
  · by_cases h2 : w = 2
    · subst h2
      rcases ht.bytes k r a with hsome | ⟨hnone, hleave⟩
      · refine hread (f := fun bs => take ⟨k, .bytes bs⟩) hsome rfl ?_
        constructor
        · rintro ⟨bs, hv, htake⟩
          obtain ⟨ls, ys, hls, heq, hr⟩ := (h.readLD_eq_ok r r' hsize bs).mp hv
          exact ⟨ls ++ bs, ys, _, .bytes hls, by rw [heq, List.append_assoc],
            by rw [hr, List.length_append], htake⟩
        · rintro ⟨xs, ys, c, hc, heq, hr, htake⟩
          cases hc with
          | @bytes ls bs hls =>
              exact ⟨bs, (h.readLD_eq_ok r r' hsize bs).mpr ⟨ls, ys, hls,
                by rw [heq, List.append_assoc], by rw [hr, List.length_append]⟩, htake⟩
      · refine hskip hnone fun xs c hc => ?_
        cases hc with
        | bytes _ => exact hleave _
    · refine hskip (ht.other k w r a h0 h2) fun xs c hc => ?_
      cases hc with
      | varint _ => exact absurd rfl h0
      | fixed64 _ => exact (ht.fixed k _ a).1
      | bytes _ => exact absurd rfl h2
      | fixed32 _ => exact (ht.fixed k _ a).2

/-- A field is read, or a fixed-width field that is cut short is skipped. -/
theorem Follows.round_eq_ok (h : d.Follows F size) (ht : d.Takes handle take)
    (r r' : Reader) (hsize : r.buf.length ≤ size) (a a' : α) :
    d.round handle r a = .ok (a', r') ↔
      (∃ xs ys f, IsField F xs f ∧ r.rest = xs ++ ys ∧ r' = r.advance xs.length ∧
        take f a = .ok a') ∨
      ∃ ts bs k w width, F.cut = true ∧ F.Tag ts k w ∧ fixedWidth w = some width ∧
        bs.length < width ∧ r.rest = ts ++ bs ∧ r' = r.advance (ts.length + width) ∧ a' = a := by
  rw [round, bind_eq_ok]
  constructor
  · rintro ⟨⟨⟨k, w⟩, r₁⟩, htag, hcontent⟩
    obtain ⟨ts, zs, hts, heq, rfl⟩ := (h.readTag_eq_ok r r₁ k w).mp htag
    have hoff := r.off_le heq hts.length_pos
    have hrest := Reader.rest_append r heq
    rcases (h.content_eq_ok ht (r.advance ts.length) r' hsize hoff k w a a').mp hcontent with
      ⟨xs, ys, c, hc, hzs, rfl, htake⟩ | ⟨⟨width, hcut, hw, hlt, rfl⟩, ha⟩
    · rw [hrest] at hzs
      rw [hzs, ← List.append_assoc] at heq
      refine Or.inl ⟨ts ++ xs, ys, ⟨k, c⟩, .mk hts hc, heq, ?_, htake⟩
      rw [Reader.advance_advance, List.length_append]
    · rw [hrest] at hlt
      refine Or.inr ⟨ts, zs, k, w, width, hcut, hts, hw, hlt, heq, ?_, ha⟩
      rw [Reader.advance_advance]
  · rintro (⟨xs, ys, f, hf, heq, rfl, htake⟩ | ⟨ts, bs, k, w, width, hcut, hts, hw, hlt, heq,
      rfl, ha⟩)
    · cases hf with
      | @mk ts bs k w c hts hc =>
          rw [List.append_assoc] at heq
          have hoff := r.off_le heq hts.length_pos
          have hrest := Reader.rest_append r heq
          refine ⟨((k, w), r.advance ts.length), (h.readTag_eq_ok r _ k w).mpr
            ⟨ts, bs ++ ys, hts, heq, rfl⟩, ?_⟩
          refine (h.content_eq_ok ht (r.advance ts.length) _ hsize hoff k w a a').mpr
            (Or.inl ⟨bs, ys, c, hc, hrest, ?_, htake⟩)
          rw [Reader.advance_advance, List.length_append]
    · have hoff := r.off_le heq hts.length_pos
      have hrest := Reader.rest_append r heq
      refine ⟨((k, w), r.advance ts.length), (h.readTag_eq_ok r _ k w).mpr
        ⟨ts, bs, hts, heq, rfl⟩, ?_⟩
      refine (h.content_eq_ok ht (r.advance ts.length) _ hsize hoff k w a a').mpr
        (Or.inr ⟨⟨width, hcut, hw, by rwa [hrest], ?_⟩, ha⟩)
      rw [Reader.advance_advance]

/-- The fields of a message, folded. -/
def foldFields (take : Field → α → Except DecodeError α) (fs : List Field) (a : α) :
    Except DecodeError α :=
  fs.foldlM (fun a f => take f a) a

theorem foldFields_cons (f : Field) (fs : List Field) (a : α) :
    foldFields take (f :: fs) a = take f a >>= fun a => foldFields take fs a :=
  List.foldlM_cons

theorem Follows.fieldsLoop_eq_ok (h : d.Follows F size) (ht : d.Takes handle take) (fuel : ℕ)
    (r : Reader) (hsize : r.buf.length ≤ size) (hfuel : r.rest.length ≤ fuel) (a b : α) :
    d.fieldsLoop handle fuel r a = .ok b ↔
      ∃ fs, IsMessage F r.rest fs ∧ foldFields take fs a = .ok b := by
  by_cases hnil : r.rest = []
  · rw [fieldsLoop_end fuel hnil, hnil]
    exact ⟨fun he => ⟨[], .nil, he⟩, fun ⟨fs, hm, he⟩ => by
      rw [isMessage_nil_iff.mp hm] at he
      exact he⟩
  · induction fuel generalizing r a with
    | zero => exact absurd (List.length_eq_zero_iff.mp (Nat.le_zero.mp hfuel)) hnil
    | succ fuel ih =>
        have hloop : ∀ (r' : Reader) (a' : α), r'.buf.length ≤ size → r'.rest.length ≤ fuel →
            (d.fieldsLoop handle fuel r' a' = .ok b ↔
              ∃ fs, IsMessage F r'.rest fs ∧ foldFields take fs a' = .ok b) := by
          intro r' a' hsize' hfuel'
          by_cases hnil' : r'.rest = []
          · rw [fieldsLoop_end fuel hnil', hnil']
            exact ⟨fun he => ⟨[], .nil, he⟩, fun ⟨fs, hm, he⟩ => by
              rw [isMessage_nil_iff.mp hm] at he
              exact he⟩
          · exact ih r' hsize' hfuel' a' hnil'
        have hnext : ∀ {xs ys : List UInt8}, r.rest = xs ++ ys → 0 < xs.length →
            ys.length ≤ fuel := by
          intro xs ys heq hpos
          rw [heq, List.length_append] at hfuel
          omega
        rw [fieldsLoop_succ fuel hnil, bind_eq_ok]
        constructor
        · rintro ⟨⟨a', r'⟩, hround, hrun⟩
          rcases (h.round_eq_ok ht r r' hsize a a').mp hround with
            ⟨xs, ys, f, hf, heq, rfl, htake⟩ | ⟨ts, bs, k, w, width, hcut, hts, hw, hlt, heq, rfl, rfl⟩
          · have hys := Reader.rest_append r heq
            have hle : (r.advance xs.length).rest.length ≤ fuel :=
              hys ▸ hnext heq hf.length_pos
            obtain ⟨fs, hm, hfold⟩ := (hloop (r.advance xs.length) a' hsize hle).mp hrun
            rw [hys] at hm
            refine ⟨f :: fs, heq ▸ .cons hf hm, ?_⟩
            rw [foldFields_cons]
            exact bind_eq_ok.mpr ⟨a', htake, hfold⟩
          · refine ⟨[], heq ▸ .cut hcut hts hw hlt, ?_⟩
            have hend : (r.advance (ts.length + width)).rest = [] := by
              rw [Reader.rest_advance, heq, List.drop_eq_nil_iff, List.length_append]
              omega
            rw [← hrun]
            exact (fieldsLoop_end fuel hend a').symm
        · rintro ⟨fs, hm, hfold⟩
          generalize hrest : r.rest = bs at hm
          cases hm with
          | nil => exact absurd hrest hnil
          | @cons xs ys f fs hf hm =>
              rw [foldFields_cons] at hfold
              obtain ⟨a', htake, hfold⟩ := bind_eq_ok.mp hfold
              have hys := Reader.rest_append r hrest
              have hle : (r.advance xs.length).rest.length ≤ fuel :=
                hys ▸ hnext hrest hf.length_pos
              refine ⟨(a', r.advance xs.length), (h.round_eq_ok ht r _ hsize a a').mpr
                (Or.inl ⟨xs, ys, f, hf, hrest, rfl, htake⟩), ?_⟩
              refine (hloop (r.advance xs.length) a' hsize hle).mpr ?_
              rw [hys]
              exact ⟨fs, hm, hfold⟩
          | @cut ts bs k w width hcut hts hw hlt =>
              have hend : (r.advance (ts.length + width)).rest = [] := by
                rw [Reader.rest_advance, hrest, List.drop_eq_nil_iff, List.length_append]
                omega
              refine ⟨(a, r.advance (ts.length + width)), (h.round_eq_ok ht r _ hsize a a).mpr
                (Or.inr ⟨ts, bs, k, w, width, hcut, hts, hw, hlt, hrest, rfl, rfl⟩), ?_⟩
              rw [fieldsLoop_end fuel hend]
              exact hfold

/-- The loop over the fields accepts just the messages, and folds over their fields. -/
theorem Follows.fields_eq_ok (h : d.Follows F size) (ht : d.Takes handle take)
    {bs : List UInt8} (hsize : bs.length ≤ size) (a b : α) :
    d.fields handle bs a = .ok b ↔
      ∃ fs, IsMessage F bs fs ∧ foldFields take fs a = .ok b :=
  h.fieldsLoop_eq_ok ht bs.length ⟨bs, 0⟩ hsize le_rfl a b

/-- A loop over the fields, and what is made of its result. -/
theorem Follows.fields_bind_eq_ok {γ : Type} (h : d.Follows F size)
    (take : Field → α → Except DecodeError α) (ht : d.Takes handle take) {bs : List UInt8}
    (hsize : bs.length ≤ size) {a : α} {g : α → Except DecodeError γ} {c : γ} :
    (d.fields handle bs a >>= g) = .ok c ↔
      ∃ fs, IsMessage F bs fs ∧ (foldFields take fs a >>= g) = .ok c := by
  simp only [bind_eq_ok, h.fields_eq_ok ht hsize]
  exact ⟨fun ⟨b, ⟨fs, hm, hfold⟩, hg⟩ => ⟨fs, hm, b, hfold, hg⟩,
    fun ⟨fs, hm, b, hfold, hg⟩ => ⟨b, ⟨fs, hm, hfold⟩, hg⟩⟩

theorem Follows.round_of_field (h : d.Follows F size) (ht : d.Takes handle take) (r : Reader)
    (hsize : r.buf.length ≤ size) {xs ys : List UInt8} {f : Field} (hf : IsField F xs f)
    (heq : r.rest = xs ++ ys) (a : α) :
    d.round handle r a = take f a >>= fun a => .ok (a, r.advance xs.length) := by
  cases htake : take f a with
  | ok a' =>
      exact (h.round_eq_ok ht r _ hsize a a').mpr (Or.inl ⟨xs, ys, f, hf, heq, rfl, htake⟩)
  | error e =>
      cases hf with
      | @mk ts bs k w c hts hc =>
          rw [List.append_assoc] at heq
          have hrest := Reader.rest_append r heq
          rw [round, (h.readTag_eq_ok r _ k w).mpr ⟨ts, bs ++ ys, hts, heq, rfl⟩]
          change d.content handle (k, w) (r.advance ts.length) a = .error e
          unfold content
          cases hc with
          | @varint _ n hvs =>
              rcases ht.varint k (r.advance ts.length) a with hsome | ⟨-, hleave⟩
              · simp only [hsome]
                rw [(h.readVarint_eq_ok (r.advance ts.length) _ n).mpr ⟨bs, ys, hvs, hrest, rfl⟩]
                simp only [bind, Except.bind, htake]
              · rw [hleave n] at htake
                cases htake
          | @bytes ls bs hls =>
              rcases ht.bytes k (r.advance ts.length) a with hsome | ⟨-, hleave⟩
              · rw [List.append_assoc] at hrest
                simp only [hsome]
                rw [(h.readLD_eq_ok (r.advance ts.length) _ hsize bs).mpr ⟨ls, ys, hls, hrest, rfl⟩]
                simp only [bind, Except.bind, htake]
              · rw [hleave bs] at htake
                cases htake
          | fixed64 _ =>
              rw [(ht.fixed k bs a).1] at htake
              cases htake
          | fixed32 _ =>
              rw [(ht.fixed k bs a).2] at htake
              cases htake

theorem Follows.fieldsLoop_of_message (h : d.Follows F size) (ht : d.Takes handle take) (fuel : ℕ)
    (r : Reader) (hsize : r.buf.length ≤ size) (hfuel : r.rest.length ≤ fuel) {fs : List Field}
    (hm : IsMessage F r.rest fs) (a : α) :
    d.fieldsLoop handle fuel r a = foldFields take fs a := by
  cases hfold : foldFields take fs a with
  | ok b => exact (h.fieldsLoop_eq_ok ht fuel r hsize hfuel a b).mpr ⟨fs, hm, hfold⟩
  | error e =>
      induction fuel generalizing r fs a with
      | zero =>
          rw [List.length_eq_zero_iff.mp (Nat.le_zero.mp hfuel)] at hm
          rw [isMessage_nil_iff.mp hm] at hfold
          cases hfold
      | succ fuel ih =>
          by_cases hnil : r.rest = []
          · rw [hnil] at hm
            rw [isMessage_nil_iff.mp hm] at hfold
            cases hfold
          generalize hrest : r.rest = bs at hm
          cases hm with
          | nil => exact absurd hrest hnil
          | cut _ _ _ _ => cases hfold
          | @cons xs ys f fs hf hm =>
              have hys := Reader.rest_append r hrest
              have hpos := hf.length_pos
              rw [fieldsLoop_succ fuel hnil, h.round_of_field ht r hsize hf hrest]
              rw [foldFields_cons] at hfold
              cases htake : take f a with
              | error e' =>
                  rw [htake] at hfold
                  exact hfold
              | ok a' =>
                  rw [htake] at hfold
                  refine ih (r.advance xs.length) hsize ?_ (hys.symm ▸ hm) a' hfold
                  rw [hys]
                  rw [hrest, List.length_append] at hfuel
                  omega

/-- On a message the loop is the fold over its fields, also where this fails. -/
theorem Follows.fields_of_message (h : d.Follows F size) (ht : d.Takes handle take)
    {bs : List UInt8} (hsize : bs.length ≤ size) {fs : List Field} (hm : IsMessage F bs fs) (a : α) :
    d.fields handle bs a = foldFields take fs a :=
  h.fieldsLoop_of_message ht bs.length ⟨bs, 0⟩ hsize le_rfl hm a

end Fields

section Oneof

variable {α : Type} {select : ℕ → List UInt8 → Option (Except DecodeError α)} {absent : String}
  {Known : ℕ → Prop}

theorem oneofLoop_end (fuel : ℕ) {r : Reader} (hnil : r.rest = []) :
    d.oneofLoop select absent fuel r = .error (.malformed absent) := by
  cases fuel with
  | zero => rfl
  | succ fuel =>
      rw [oneofLoop, Reader.more_eq]
      simp [hnil]

/-- A round of the search reads the length-delimited fields. -/
def pick (d : Rules) (tag : ℕ × ℕ) (r : Reader) (_ : Option (ℕ × List UInt8)) :
    Option (Except DecodeError (Option (ℕ × List UInt8) × Reader)) :=
  if tag.2 = 2 then some (d.readLD r >>= fun x => .ok (some (tag.1, x.1), x.2)) else none

/-- The number and the content of a length-delimited field. -/
def takeBytes : Field → Option (ℕ × List UInt8) → Except DecodeError (Option (ℕ × List UInt8))
  | ⟨k, .bytes bs⟩, _ => .ok (some (k, bs))
  | _, a => .ok a

theorem takes_pick : d.Takes d.pick takeBytes where
  varint k r a := Or.inr ⟨rfl, fun _ => rfl⟩
  bytes k r a := Or.inl rfl
  other k w r a _ h2 := by simp [pick, h2]
  fixed k bs a := ⟨rfl, rfl⟩

theorem oneofLoop_succ (fuel : ℕ) {r : Reader} (hnil : r.rest ≠ []) :
    d.oneofLoop select absent (fuel + 1) r = d.round d.pick r none >>= fun y =>
      (y.1.bind fun x => select x.1 x.2).getD (d.oneofLoop select absent fuel y.2) := by
  rw [oneofLoop, Reader.more_eq, round]
  simp only [hnil, ne_eq, not_false_eq_true, decide_true, if_true]
  cases d.readTag r with
  | error e => rfl
  | ok x =>
      simp only [bind, Except.bind, content, pick]
      split
      · cases d.readLD x.2 with
        | error e => rfl
        | ok y =>
            simp only [Option.bind]
            cases select x.1.1 y.1 with
            | none => rfl
            | some z => rfl
      · cases d.skip x.1.2 x.2 with
        | error e => rfl
        | ok r₂ => rfl

/-- A field that is passed is no variant. -/
theorem unknown_iff (hknown : ∀ k inner, (select k inner).isSome = true ↔ Known k) {f : Field}
    {y : Option (ℕ × List UInt8)} (htake : takeBytes f none = .ok y) :
    (y.bind fun x => select x.1 x.2) = none ↔ f.Unknown Known := by
  obtain ⟨k, c⟩ := f
  cases c with
  | bytes bs =>
      cases htake
      simp only [Option.bind_some, ← Option.not_isSome_iff_eq_none, hknown]
      refine ⟨fun hk l bs' he => ?_, fun h => h k bs rfl⟩
      cases he
      exact hk
  | _ =>
      cases htake
      exact ⟨fun _ l bs he => (by cases he), fun _ => rfl⟩

theorem Follows.oneofLoop_eq_ok (h : d.Follows F size)
    (hknown : ∀ k inner, (select k inner).isSome = true ↔ Known k) (fuel : ℕ) (r : Reader)
    (hsize : r.buf.length ≤ size) (hfuel : r.rest.length ≤ fuel) (b : α) :
    d.oneofLoop select absent fuel r = .ok b ↔
      ∃ k inner, Finds F Known r.rest k inner ∧ select k inner = some (.ok b) := by
  have hend : ∀ (fuel : ℕ) (r : Reader), r.rest = [] →
      (d.oneofLoop select absent fuel r = .ok b ↔
        ∃ k inner, Finds F Known r.rest k inner ∧ select k inner = some (.ok b)) := by
    intro fuel r hnil
    rw [oneofLoop_end fuel hnil]
    exact ⟨fun he => (by cases he), fun ⟨k, inner, hfinds, _⟩ => absurd hnil hfinds.ne_nil⟩
  induction fuel generalizing r with
  | zero => exact hend 0 r (List.length_eq_zero_iff.mp (Nat.le_zero.mp hfuel))
  | succ fuel ih =>
      by_cases hnil : r.rest = []
      · exact hend (fuel + 1) r hnil
      rw [oneofLoop_succ fuel hnil, bind_eq_ok]
      have hnext : ∀ {xs ys : List UInt8}, r.rest = xs ++ ys → 0 < xs.length →
          (d.oneofLoop select absent fuel (r.advance xs.length) = .ok b ↔
            ∃ k inner, Finds F Known ys k inner ∧ select k inner = some (.ok b)) := by
        intro xs ys heq hpos
        have hys := Reader.rest_append r heq
        rw [← hys]
        refine ih (r.advance xs.length) hsize ?_
        rw [hys]
        rw [heq, List.length_append] at hfuel
        omega
      constructor
      · rintro ⟨⟨y, r'⟩, hround, hrun⟩
        rcases (h.round_eq_ok takes_pick r r' hsize none y).mp hround with
          ⟨xs, ys, f, hf, heq, rfl, htake⟩ | ⟨ts, bs, k, w, width, _, _, _, hlt, heq, rfl, rfl⟩
        · cases hsel : y.bind fun x => select x.1 x.2 with
          | some x =>
              simp only [hsel, Option.getD_some] at hrun
              obtain ⟨⟨k, inner⟩, rfl, hx⟩ := Option.bind_eq_some_iff.mp hsel
              have hfield : f = ⟨k, .bytes inner⟩ := by
                obtain ⟨l, c⟩ := f
                cases c with
                | bytes bs =>
                    cases htake
                    rfl
                | _ => cases htake
              subst hfield
              refine ⟨k, inner, heq ▸ .here hf ((hknown k inner).mp ?_), hrun ▸ hx⟩
              exact Option.isSome_iff_exists.mpr ⟨x, hx⟩
          | none =>
              simp only [hsel, Option.getD_none] at hrun
              obtain ⟨k, inner, hfinds, hx⟩ := (hnext heq hf.length_pos).mp hrun
              exact ⟨k, inner, heq ▸ .later hf ((unknown_iff hknown htake).mp hsel) hfinds, hx⟩
        · have hrest : (r.advance (ts.length + width)).rest = [] := by
            rw [Reader.rest_advance, heq, List.drop_eq_nil_iff, List.length_append]
            omega
          simp only [Option.bind_none, Option.getD_none] at hrun
          rw [oneofLoop_end fuel hrest] at hrun
          cases hrun
      · rintro ⟨k, inner, hfinds, hx⟩
        generalize hrest : r.rest = zs at hfinds
        cases hfinds with
        | @here xs ys _ _ hf _ =>
            refine ⟨(some (k, inner), r.advance xs.length), (h.round_eq_ok takes_pick r _ hsize
              none _).mpr (Or.inl ⟨xs, ys, _, hf, hrest, rfl, rfl⟩), ?_⟩
            simp [hx]
        | @later xs ys _ _ f hf hskip hfinds =>
            obtain ⟨y, htake⟩ : ∃ y, takeBytes f none = .ok y := by
              obtain ⟨l, c⟩ := f
              cases c with
              | _ => exact ⟨_, rfl⟩
            refine ⟨(y, r.advance xs.length), (h.round_eq_ok takes_pick r _ hsize none _).mpr
              (Or.inl ⟨xs, ys, f, hf, hrest, rfl, htake⟩), ?_⟩
            simp only [(unknown_iff hknown htake).mpr hskip, Option.getD_none]
            exact (hnext hrest hf.length_pos).mpr ⟨k, inner, hfinds, hx⟩

/-- The search for a variant returns just when complete fields lead to one. -/
theorem Follows.oneof_eq_ok (h : d.Follows F size)
    (hknown : ∀ k inner, (select k inner).isSome = true ↔ Known k) {bs : List UInt8}
    (hsize : bs.length ≤ size) (b : α) :
    d.oneof select absent bs = .ok b ↔
      ∃ k inner, Finds F Known bs k inner ∧ select k inner = some (.ok b) :=
  h.oneofLoop_eq_ok hknown bs.length ⟨bs, 0⟩ hsize le_rfl b

theorem Follows.oneofLoop_of_finds (h : d.Follows F size)
    (hknown : ∀ k inner, (select k inner).isSome = true ↔ Known k) (fuel : ℕ) (r : Reader)
    (hsize : r.buf.length ≤ size) (hfuel : r.rest.length ≤ fuel) {k : ℕ} {inner : List UInt8}
    (hfinds : Finds F Known r.rest k inner) {x : Except DecodeError α}
    (hx : select k inner = some x) : d.oneofLoop select absent fuel r = x := by
  induction fuel generalizing r with
  | zero =>
      exact absurd (List.length_eq_zero_iff.mp (Nat.le_zero.mp hfuel)) hfinds.ne_nil
  | succ fuel ih =>
      rw [oneofLoop_succ fuel hfinds.ne_nil]
      generalize hrest : r.rest = zs at hfinds
      cases hfinds with
      | here hf _ =>
          rw [h.round_of_field takes_pick r hsize hf hrest]
          change ((select k inner).getD _) = x
          rw [hx]
          rfl
      | @later xs ys _ _ f hf hskip hfinds =>
          have hys := Reader.rest_append r hrest
          have hpos := hf.length_pos
          obtain ⟨y, htake⟩ : ∃ y, takeBytes f none = .ok y := by
            obtain ⟨l, c⟩ := f
            cases c with
            | _ => exact ⟨_, rfl⟩
          rw [h.round_of_field takes_pick r hsize hf hrest, htake]
          change ((y.bind fun x => select x.1 x.2).getD
            (d.oneofLoop select absent fuel (r.advance xs.length))) = x
          rw [(unknown_iff hknown htake).mpr hskip]
          refine ih (r.advance xs.length) hsize ?_ (hys.symm ▸ hfinds)
          rw [hys]
          rw [hrest, List.length_append] at hfuel
          omega

/-- The search returns what the first variant is selected to. -/
theorem Follows.oneof_of_finds (h : d.Follows F size)
    (hknown : ∀ k inner, (select k inner).isSome = true ↔ Known k) {bs : List UInt8}
    (hsize : bs.length ≤ size) {k : ℕ} {inner : List UInt8} (hfinds : Finds F Known bs k inner)
    {x : Except DecodeError α} (hx : select k inner = some x) :
    d.oneof select absent bs = x :=
  h.oneofLoop_of_finds hknown bs.length ⟨bs, 0⟩ hsize le_rfl hfinds hx

end Oneof

end Rules

end Protobuf

end DittoClient
