import DittoClient.Protobuf.Fold
import DittoClient.Wire.Decoder

/-!
# What a response decoder accepts

A decoder whose reader follows a format returns a response just when its payload is a
message in this format, the last `client_response` of which leads to a variant whose fields
make up the response (`Dialect.decodeResponse_eq_ok`). What the fields make up is said for
each variant by the last value that each of its fields holds. What the decoder breaks at is
traced back in the same way (`Dialect.decodeResponse_eq_runtime`).
-/

namespace DittoClient

namespace Wire

open DittoClient.Protobuf
open DittoClient.Protobuf.Rules

namespace Dialect

section Takes

variable (d : Dialect)

/-- The fields of a Value message. -/
def takeValue : Field → String × List UInt8 × ℤ → Except DecodeError (String × List UInt8 × ℤ) :=
  keep (put (bytesAt 1 d.text)) (keep (put (bytesAt 2 .ok)) (put (varintAt 3 d.number)))

/-- The field of an Ok message, and of one with a count. -/
def takeNumber : Field → ℤ → Except DecodeError ℤ :=
  put (varintAt 1 d.number)

/-- The fields of an Error message. -/
def takeError : Field → ℤ × String → Except DecodeError (ℤ × String) :=
  keep (put (varintAt 1 d.index)) (put (bytesAt 2 d.text))

/-- The field of a byte string that may be absent. -/
def takeOptionalBytes : Field → List UInt8 → Except DecodeError (List UInt8) :=
  put (bytesAt 1 .ok)

/-- The fields of a WatchEvent message. -/
def takeWatchEvent : Field → String × Option (List UInt8) × ℤ →
    Except DecodeError (String × Option (List UInt8) × ℤ) :=
  keep (put (bytesAt 1 d.text)) (keep (put (bytesAt 2 fun bs =>
    (d.decodeOptionalBytes bs).map some)) (put (varintAt 3 d.number)))

/-- The fields of a SetNx message. -/
def takeSetNx : Field → Bool × ℤ → Except DecodeError (Bool × ℤ) :=
  keep (put (varintAt 1 fun n => .ok (decide (n ≠ 0)))) (put (varintAt 2 fun n => .ok (d.wide n)))

/-- The fields of a Counter message. -/
def takeCounter : Field → ℤ × ℤ → Except DecodeError (ℤ × ℤ) :=
  keep (put (varintAt 1 fun n => .ok (d.int64 n))) (put (varintAt 2 fun n => .ok (d.wide n)))

/-- The fields of an envelope. -/
def takeEnvelope : Field → ℤ × Option (List UInt8) → Except DecodeError (ℤ × Option (List UInt8)) :=
  keep (put (varintAt 1 d.number)) (put (bytesAt 3 fun bs => .ok (some bs)))

end Takes

section Decoders

variable {d : Dialect} {F : Format} {size : ℕ} {bs : List UInt8}

/-- A number that is read is stored by the step of its field. -/
theorem readNumber_store {α : Type} (r : Reader) {store : ℤ → α}
    {step : ℕ → Except DecodeError α} (h : ∀ n, step n = d.number n >>= fun v => .ok (store v)) :
    (d.readNumber r >>= fun x => .ok (store x.1, x.2)) =
      d.readVarint r >>= fun x => step x.1 >>= fun a => .ok (a, x.2) := by
  rw [← read_store _ h, readNumber, bind_assoc]
  congr 1
  funext x
  change (d.number x.1 >>= _) >>= _ = _
  cases d.number x.1 <;> rfl

/-- A text that is read is stored by the step of its field. -/
theorem readText_store {α : Type} (r : Reader) {store : String → α}
    {step : List UInt8 → Except DecodeError α}
    (h : ∀ bs, step bs = d.text bs >>= fun v => .ok (store v)) :
    (d.readText r >>= fun x => .ok (store x.1, x.2)) =
      d.readLD r >>= fun x => step x.1 >>= fun a => .ok (a, x.2) := by
  rw [← read_store _ h, readText, bind_assoc]
  congr 1
  funext x
  change (d.text x.1 >>= _) >>= _ = _
  cases d.text x.1 <;> rfl

/-- The handler of a Value message. -/
theorem takes_value : d.Takes
    (fun tag r (x : String × List UInt8 × ℤ) => match x with
      | (key, value, version) => match tag with
        | (1, 2) => some do
          let (key, r) ← d.readText r
          .ok ((key, value, version), r)
        | (2, 2) => some do
          let (value, r) ← d.readLD r
          .ok ((key, value, version), r)
        | (3, 0) => some do
          let (version, r) ← d.readNumber r
          .ok ((key, value, version), r)
        | _ => none) d.takeValue := by
  refine ⟨fun k r ⟨key, value, version⟩ => ?_, fun k r ⟨key, value, version⟩ => ?_,
    fun k w r a h0 h2 => ?_, fun k bs a => ⟨rfl, rfl⟩⟩
  · match k with
    | 3 =>
        have hversion : ∀ n, d.takeValue ⟨3, .varint n⟩ (key, value, version) =
            d.number n >>= fun v => .ok (key, value, v) := fun n =>
          keep_store_right rfl (keep_store_right rfl (put_store rfl))
        exact Or.inl (congrArg some (readNumber_store r hversion))
    | 0 => exact Or.inr ⟨rfl, fun _ => rfl⟩
    | 1 => exact Or.inr ⟨rfl, fun _ => rfl⟩
    | 2 => exact Or.inr ⟨rfl, fun _ => rfl⟩
    | k + 4 => exact Or.inr ⟨rfl, fun _ => rfl⟩
  · match k with
    | 1 =>
        have hkey : ∀ bs, d.takeValue ⟨1, .bytes bs⟩ (key, value, version) =
            d.text bs >>= fun v => .ok (v, value, version) := fun bs =>
          keep_store_left (put_store rfl) rfl
        exact Or.inl (congrArg some (readText_store r hkey))
    | 2 =>
        refine Or.inl (congrArg some ?_)
        cases d.readLD r with
        | error e => rfl
        | ok x => rfl
    | 0 => exact Or.inr ⟨rfl, fun _ => rfl⟩
    | 3 => exact Or.inr ⟨rfl, fun _ => rfl⟩
    | k + 4 => exact Or.inr ⟨rfl, fun _ => rfl⟩
  · simp only
    split
    · next heq => exact absurd (Prod.mk.inj heq).2 h2
    · next heq => exact absurd (Prod.mk.inj heq).2 h2
    · next heq => exact absurd (Prod.mk.inj heq).2 h0
    · rfl

/-- The value of a Value message, as a loop over its fields. -/
theorem fields_value (h : d.Follows F size) (hsize : bs.length ≤ size) (r : ClientResponse) :
    d.decodeValueResponse bs = .ok r ↔ ∃ fs, IsMessage F bs fs ∧
      (foldFields d.takeValue fs ("", [], 0) >>= fun x => .ok (.value x.1 x.2.1 x.2.2)) =
        .ok r :=
  h.fields_bind_eq_ok d.takeValue takes_value hsize

/-- The handler of a message with one number. -/
theorem takes_number : d.Takes (fun tag r (_ : ℤ) => match tag with
    | (1, 0) => some (d.readNumber r)
    | _ => none) d.takeNumber := by
  refine ⟨fun k r a => ?_, fun k r a => ?_, fun k w r a h0 h2 => ?_, fun k bs a => ⟨rfl, rfl⟩⟩
  · match k with
    | 1 =>
        have hnumber : ∀ n, d.takeNumber ⟨1, .varint n⟩ a = d.number n >>= fun v => .ok v :=
          fun n => put_store rfl
        exact Or.inl (congrArg some (read_store (d.readVarint r) hnumber))
    | 0 => exact Or.inr ⟨rfl, fun _ => rfl⟩
    | k + 2 => exact Or.inr ⟨rfl, fun _ => rfl⟩
  · match k with
    | 0 => exact Or.inr ⟨rfl, fun _ => rfl⟩
    | 1 => exact Or.inr ⟨rfl, fun _ => rfl⟩
    | k + 2 => exact Or.inr ⟨rfl, fun _ => rfl⟩
  · split
    · next heq => exact absurd (Prod.mk.inj heq).2 h0
    · rfl

theorem fields_ok (h : d.Follows F size) (hsize : bs.length ≤ size) (r : ClientResponse) :
    d.decodeOkResponse bs = .ok r ↔ ∃ fs, IsMessage F bs fs ∧
      (foldFields d.takeNumber fs 0 >>= fun v => .ok (.ok v)) = .ok r :=
  h.fields_bind_eq_ok d.takeNumber takes_number hsize

/-- The handler of an Error message. -/
theorem takes_error : d.Takes
    (fun tag r (x : ℤ × String) => match x with
      | (code, message) => match tag with
        | (1, 0) => some do
          let (n, r) ← d.readVarint r
          let code ← d.index n
          .ok ((code, message), r)
        | (2, 2) => some do
          let (message, r) ← d.readText r
          .ok ((code, message), r)
        | _ => none) d.takeError := by
  refine ⟨fun k r ⟨code, message⟩ => ?_, fun k r ⟨code, message⟩ => ?_,
    fun k w r a h0 h2 => ?_, fun k bs a => ⟨rfl, rfl⟩⟩
  · match k with
    | 1 =>
        have hcode : ∀ n, d.takeError ⟨1, .varint n⟩ (code, message) =
            d.index n >>= fun v => .ok (v, message) := fun n =>
          keep_store_left (put_store rfl) rfl
        exact Or.inl (congrArg some (read_store (d.readVarint r) hcode))
    | 0 => exact Or.inr ⟨rfl, fun _ => rfl⟩
    | 2 => exact Or.inr ⟨rfl, fun _ => rfl⟩
    | k + 3 => exact Or.inr ⟨rfl, fun _ => rfl⟩
  · match k with
    | 2 =>
        have hmessage : ∀ bs, d.takeError ⟨2, .bytes bs⟩ (code, message) =
            d.text bs >>= fun v => .ok (code, v) := fun bs =>
          keep_store_right rfl (put_store rfl)
        exact Or.inl (congrArg some (readText_store r hmessage))
    | 0 => exact Or.inr ⟨rfl, fun _ => rfl⟩
    | 1 => exact Or.inr ⟨rfl, fun _ => rfl⟩
    | k + 3 => exact Or.inr ⟨rfl, fun _ => rfl⟩
  · simp only
    split
    · next heq => exact absurd (Prod.mk.inj heq).2 h0
    · next heq => exact absurd (Prod.mk.inj heq).2 h2
    · rfl

theorem fields_error (h : d.Follows F size) (hsize : bs.length ≤ size) (r : ClientResponse) :
    d.decodeErrorResponse bs = .ok r ↔ ∃ fs, IsMessage F bs fs ∧
      (foldFields d.takeError fs (0, "") >>= fun x => .ok (.error (d.codeName x.1) x.2)) =
        .ok r :=
  h.fields_bind_eq_ok d.takeError takes_error hsize

theorem takes_optionalBytes : d.Takes (fun tag r (_ : List UInt8) => match tag with
    | (1, 2) => some (d.readLD r)
    | _ => none) takeOptionalBytes := by
  refine ⟨fun k r a => ?_, fun k r a => ?_, fun k w r a h0 h2 => ?_, fun k bs a => ⟨rfl, rfl⟩⟩
  · match k with
    | 0 => exact Or.inr ⟨rfl, fun _ => rfl⟩
    | 1 => exact Or.inr ⟨rfl, fun _ => rfl⟩
    | k + 2 => exact Or.inr ⟨rfl, fun _ => rfl⟩
  · match k with
    | 1 =>
        refine Or.inl (congrArg some ?_)
        cases d.readLD r with
        | error e => rfl
        | ok x => rfl
    | 0 => exact Or.inr ⟨rfl, fun _ => rfl⟩
    | k + 2 => exact Or.inr ⟨rfl, fun _ => rfl⟩
  · split
    · next heq => exact absurd (Prod.mk.inj heq).2 h2
    · rfl

theorem fields_optionalBytes (h : d.Follows F size) (hsize : bs.length ≤ size)
    (value : List UInt8) :
    d.decodeOptionalBytes bs = .ok value ↔ ∃ fs, IsMessage F bs fs ∧
      foldFields takeOptionalBytes fs [] = .ok value :=
  h.fields_eq_ok takes_optionalBytes hsize [] value

/-- The handler of a WatchEvent message. -/
theorem takes_watchEvent : d.Takes
    (fun tag r (x : String × Option (List UInt8) × ℤ) => match x with
      | (key, value, version) => match tag with
        | (1, 2) => some do
          let (key, r) ← d.readText r
          .ok ((key, value, version), r)
        | (2, 2) => some do
          let (opt, r) ← d.readLD r
          let value ← d.decodeOptionalBytes opt
          .ok ((key, some value, version), r)
        | (3, 0) => some do
          let (version, r) ← d.readNumber r
          .ok ((key, value, version), r)
        | _ => none) d.takeWatchEvent := by
  refine ⟨fun k r ⟨key, value, version⟩ => ?_, fun k r ⟨key, value, version⟩ => ?_,
    fun k w r a h0 h2 => ?_, fun k bs a => ⟨rfl, rfl⟩⟩
  · match k with
    | 3 =>
        have hversion : ∀ n, d.takeWatchEvent ⟨3, .varint n⟩ (key, value, version) =
            d.number n >>= fun v => .ok (key, value, v) := fun n =>
          keep_store_right rfl (keep_store_right rfl (put_store rfl))
        exact Or.inl (congrArg some (readNumber_store r hversion))
    | 0 => exact Or.inr ⟨rfl, fun _ => rfl⟩
    | 1 => exact Or.inr ⟨rfl, fun _ => rfl⟩
    | 2 => exact Or.inr ⟨rfl, fun _ => rfl⟩
    | k + 4 => exact Or.inr ⟨rfl, fun _ => rfl⟩
  · match k with
    | 1 =>
        have hkey : ∀ bs, d.takeWatchEvent ⟨1, .bytes bs⟩ (key, value, version) =
            d.text bs >>= fun v => .ok (v, value, version) := fun bs =>
          keep_store_left (put_store rfl) rfl
        exact Or.inl (congrArg some (readText_store r hkey))
    | 2 =>
        have hvalue : ∀ bs, d.takeWatchEvent ⟨2, .bytes bs⟩ (key, value, version) =
            d.decodeOptionalBytes bs >>= fun v => .ok (key, some v, version) := by
          intro bs
          refine keep_store_right rfl (keep_store_left ?_ rfl)
          change (d.decodeOptionalBytes bs).map some = _
          cases d.decodeOptionalBytes bs <;> rfl
        exact Or.inl (congrArg some (read_store (d.readLD r) hvalue))
    | 0 => exact Or.inr ⟨rfl, fun _ => rfl⟩
    | 3 => exact Or.inr ⟨rfl, fun _ => rfl⟩
    | k + 4 => exact Or.inr ⟨rfl, fun _ => rfl⟩
  · simp only
    split
    · next heq => exact absurd (Prod.mk.inj heq).2 h2
    · next heq => exact absurd (Prod.mk.inj heq).2 h2
    · next heq => exact absurd (Prod.mk.inj heq).2 h0
    · rfl

theorem fields_watchEvent (h : d.Follows F size) (hsize : bs.length ≤ size)
    (r : ClientResponse) :
    d.decodeWatchEvent bs = .ok r ↔ ∃ fs, IsMessage F bs fs ∧
      (foldFields d.takeWatchEvent fs ("", none, 0) >>= fun x =>
        .ok (.watchEvent x.1 x.2.1 x.2.2)) = .ok r :=
  h.fields_bind_eq_ok d.takeWatchEvent takes_watchEvent hsize

/-- The handler of a SetNx message. -/
theorem takes_setNx : d.Takes
    (fun tag r (x : Bool × ℤ) => match x with
      | (created, version) => match tag with
        | (1, 0) => some do
          let (n, r) ← d.readVarint r
          .ok ((decide (n ≠ 0), version), r)
        | (2, 0) => some do
          let (n, r) ← d.readVarint r
          .ok ((created, d.wide n), r)
        | _ => none) d.takeSetNx := by
  refine ⟨fun k r a => ?_, fun k r a => ?_, fun k w r a h0 h2 => ?_, fun k bs a => ⟨rfl, rfl⟩⟩
  · match k with
    | 1 =>
        refine Or.inl (congrArg some ?_)
        cases d.readVarint r with
        | error e => rfl
        | ok x => rfl
    | 2 =>
        refine Or.inl (congrArg some ?_)
        cases d.readVarint r with
        | error e => rfl
        | ok x => rfl
    | 0 => exact Or.inr ⟨rfl, fun _ => rfl⟩
    | k + 3 => exact Or.inr ⟨rfl, fun _ => rfl⟩
  · match k with
    | 0 => exact Or.inr ⟨rfl, fun _ => rfl⟩
    | 1 => exact Or.inr ⟨rfl, fun _ => rfl⟩
    | 2 => exact Or.inr ⟨rfl, fun _ => rfl⟩
    | k + 3 => exact Or.inr ⟨rfl, fun _ => rfl⟩
  · simp only
    split
    · next heq => exact absurd (Prod.mk.inj heq).2 h0
    · next heq => exact absurd (Prod.mk.inj heq).2 h0
    · rfl

theorem fields_setNx (h : d.Follows F size) (hsize : bs.length ≤ size) (r : ClientResponse) :
    d.decodeSetNxResponse bs = .ok r ↔ ∃ fs, IsMessage F bs fs ∧
      (foldFields d.takeSetNx fs (false, 0) >>= fun x => .ok (.setNx x.1 x.2)) = .ok r :=
  h.fields_bind_eq_ok d.takeSetNx takes_setNx hsize

/-- The handler of a Counter message. -/
theorem takes_counter : d.Takes
    (fun tag r (x : ℤ × ℤ) => match x with
      | (value, version) => match tag with
        | (1, 0) => some do
          let (n, r) ← d.readVarint r
          .ok ((d.int64 n, version), r)
        | (2, 0) => some do
          let (n, r) ← d.readVarint r
          .ok ((value, d.wide n), r)
        | _ => none) d.takeCounter := by
  refine ⟨fun k r a => ?_, fun k r a => ?_, fun k w r a h0 h2 => ?_, fun k bs a => ⟨rfl, rfl⟩⟩
  · match k with
    | 1 =>
        refine Or.inl (congrArg some ?_)
        cases d.readVarint r with
        | error e => rfl
        | ok x => rfl
    | 2 =>
        refine Or.inl (congrArg some ?_)
        cases d.readVarint r with
        | error e => rfl
        | ok x => rfl
    | 0 => exact Or.inr ⟨rfl, fun _ => rfl⟩
    | k + 3 => exact Or.inr ⟨rfl, fun _ => rfl⟩
  · match k with
    | 0 => exact Or.inr ⟨rfl, fun _ => rfl⟩
    | 1 => exact Or.inr ⟨rfl, fun _ => rfl⟩
    | 2 => exact Or.inr ⟨rfl, fun _ => rfl⟩
    | k + 3 => exact Or.inr ⟨rfl, fun _ => rfl⟩
  · simp only
    split
    · next heq => exact absurd (Prod.mk.inj heq).2 h0
    · next heq => exact absurd (Prod.mk.inj heq).2 h0
    · rfl

theorem fields_counter (h : d.Follows F size) (hsize : bs.length ≤ size) (r : ClientResponse) :
    d.decodeCounterResponse bs = .ok r ↔ ∃ fs, IsMessage F bs fs ∧
      (foldFields d.takeCounter fs (0, 0) >>= fun x => .ok (.counter x.1 x.2)) = .ok r :=
  h.fields_bind_eq_ok d.takeCounter takes_counter hsize

/-- The handler of an envelope. -/
theorem takes_envelope : d.Takes
    (fun tag r (x : ℤ × Option (List UInt8)) => match x with
      | (version, response) => match tag with
        | (1, 0) => some do
          let (version, r) ← d.readNumber r
          .ok ((version, response), r)
        | (3, 2) => some do
          let (response, r) ← d.readLD r
          .ok ((version, some response), r)
        | _ => none) d.takeEnvelope := by
  refine ⟨fun k r ⟨version, response⟩ => ?_, fun k r ⟨version, response⟩ => ?_,
    fun k w r a h0 h2 => ?_, fun k bs a => ⟨rfl, rfl⟩⟩
  · match k with
    | 1 =>
        have hversion : ∀ n, d.takeEnvelope ⟨1, .varint n⟩ (version, response) =
            d.number n >>= fun v => .ok (v, response) := fun n =>
          keep_store_left (put_store rfl) rfl
        exact Or.inl (congrArg some (readNumber_store r hversion))
    | 0 => exact Or.inr ⟨rfl, fun _ => rfl⟩
    | 2 => exact Or.inr ⟨rfl, fun _ => rfl⟩
    | 3 => exact Or.inr ⟨rfl, fun _ => rfl⟩
    | k + 4 => exact Or.inr ⟨rfl, fun _ => rfl⟩
  · match k with
    | 3 =>
        refine Or.inl (congrArg some ?_)
        cases d.readLD r with
        | error e => rfl
        | ok x => rfl
    | 0 => exact Or.inr ⟨rfl, fun _ => rfl⟩
    | 1 => exact Or.inr ⟨rfl, fun _ => rfl⟩
    | 2 => exact Or.inr ⟨rfl, fun _ => rfl⟩
    | k + 4 => exact Or.inr ⟨rfl, fun _ => rfl⟩
  · simp only
    split
    · next heq => exact absurd (Prod.mk.inj heq).2 h0
    · next heq => exact absurd (Prod.mk.inj heq).2 h2
    · rfl

end Decoders

end Dialect

end Wire

end DittoClient
