import DittoClient.Http.Answers
import DittoClient.Text.Lower

/-!
# The readers of the five clients

All five clients read the answers of a server (`reads`). A number is the one of the server in
Python, Go and Rust. It is taken to 64 bits with a sign in Java, where the numbers of the atomic
operations are refused beyond them, and it is rounded in JavaScript, but for the numbers of the
atomic operations.
-/

namespace DittoClient

namespace Http

open DittoClient.Octets
open DittoClient.Text
open DittoClient.Wire

section Texts

variable {space : Char → Bool} {s : String} {bs : List UInt8}

theorem visible_toString (z : ℤ) : ∀ c ∈ (toString z).toList, visible c = true := by
  intro c hc
  rcases mem_toString_int hc with h | rfl
  · refine visible_of_isAlphanum ?_
    rw [Char.isAlphanum, h, Bool.or_true]
  · decide

theorem visible_base64 (bs : List UInt8) : ∀ c ∈ base64Encode bs, visible c = true :=
  forall_mem_base64Encode (by decide) (by decide) bs

theorem visible_ofList (bs : List UInt8) :
    ∀ c ∈ (String.ofList (base64Encode bs)).toList, visible c = true := by
  rw [String.toList_ofList]
  exact visible_base64 bs

/-- A text without spaces has none at its ends. -/
theorem trim_of_visible (hspace : ∀ c, visible c = true → space c = false)
    (h : ∀ c ∈ s.toList, visible c = true) : trim space s = s :=
  trim_eq_self (fun c hc => hspace c (h c (List.mem_of_mem_head? hc)))
    fun c hc => hspace c (h c (List.mem_of_mem_getLast? hc))

theorem base64_ne_empty (h : bs ≠ []) : String.ofList (base64Encode bs) ≠ "" := by
  intro heq
  have hlist := congrArg String.toList heq
  rw [String.toList_ofList] at hlist
  exact base64Encode_ne_nil h hlist

theorem decode_base64 (bs : List UInt8) :
    base64Decode (String.ofList (base64Encode bs)).toList = some bs := by
  rw [String.toList_ofList, base64Decode_encode]

/-- The fields of a value with its bytes in base64. -/
theorem mem_value (version : Json) (bs : List UInt8) :
    ("value", Json.string (utf8Lossy bs)) ∈ [("version", version),
      ("value", .string (utf8Lossy bs)),
      ("value_base64", .string (String.ofList (base64Encode bs)))] :=
  List.mem_cons_of_mem _ List.mem_cons_self

theorem mem_base64 (version : Json) (bs : List UInt8) :
    ("value_base64", Json.string (String.ofList (base64Encode bs))) ∈ [("version", version),
      ("value", .string (utf8Lossy bs)),
      ("value_base64", .string (String.ofList (base64Encode bs)))] :=
  List.mem_cons_of_mem _ (List.mem_cons_of_mem _ List.mem_cons_self)

end Texts

section Numbers

variable {n : ℕ} {z : ℤ}

theorem integral_number (z : ℤ) : Json.integral (.number z) = some z := by
  rw [Json.integral, if_pos (Rat.den_intCast z), Rat.num_intCast]

theorem filter_uint64 (h : n < 2 ^ 64) :
    (some (n : ℤ)).filter (fun n => decide (0 ≤ n ∧ n < 2 ^ 64)) = some (n : ℤ) := by
  rw [Option.filter_some, if_pos]
  exact decide_eq_true ⟨Int.natCast_nonneg n, by exact_mod_cast h⟩

theorem filter_int64 (hlo : -2 ^ 63 ≤ z) (hhi : z < 2 ^ 63) :
    (some z).filter (fun n => decide (-2 ^ 63 ≤ n ∧ n < 2 ^ 63)) = some z := by
  rw [Option.filter_some, if_pos (decide_eq_true ⟨hlo, hhi⟩)]

end Numbers

theorem alive_of_status {h : Response} (hok : h.ok = false) : decide (h.status = 200) = false := by
  refine decide_eq_false fun hstatus => ?_
  rw [Response.ok, hstatus] at hok
  cases hok

section Python

variable {members fields : List (String × Json)} {absent : List String} {bs : List UInt8} {v : Json}

theorem Python.subscript_eq {name : String} (h : Contains members fields absent)
    (hmem : (name, v) ∈ fields) : Python.subscript name (.object members) = some v :=
  h.lookup hmem

theorem Python.int_digits (z : ℤ) : Python.int (digits z) = some z := by
  rw [digits, Python.int, trim_of_visible (fun _ => pythonSpace_of_visible) (visible_toString z),
    signed?_toString]

theorem Python.valueBytes_eq (hfields : ValueFields bs fields absent)
    (h : Contains members (("version", v) :: fields) absent) :
    Python.valueBytes members = some bs := by
  cases hfields with
  | text s hs =>
      rw [Python.valueBytes, h.lookup_absent (List.mem_singleton_self _) (by decide),
        h.lookup (List.mem_cons_of_mem _ (List.mem_singleton_self _))]
      exact congrArg some hs
  | base64 =>
      rw [Python.valueBytes, h.lookup (mem_value v bs), h.lookup (mem_base64 v bs)]
      by_cases hbs : bs = []
      · rw [hbs]
        rfl
      · change (if decide _ = true then base64Decode (String.ofList _).toList else _) = _
        rw [if_pos (decide_eq_true (base64_ne_empty hbs)), decode_base64]

theorem Python.reads : Python.results.Reads (fun n => n) fun n => some n where
  alive _ hstatus := decide_eq_true hstatus
  dead _ hok := alive_of_status hok
  pong members h := by
    change some (isTrue (Json.lookup "pong" members)) = _
    rw [h.lookup (List.mem_singleton_self _)]
    rfl
  get members fields absent bs n _ hfields h := by
    change (Python.valueBytes members).bind (fun value =>
      (Json.lookup "version" members).bind fun version => some (Outcome.value value version)) = _
    rw [Python.valueBytes_eq hfields h, h.lookup List.mem_cons_self]
    rfl
  set members n _ h := by
    change (Python.subscript "version" _).map Outcome.version = _
    rw [Python.subscript_eq h (List.mem_singleton_self _)]
    rfl
  setNx members b n _ h := by
    change (Python.subscript "created" _).bind (fun created =>
      ((Python.subscript "version" _).bind Python.int).bind fun version =>
        some (Outcome.created (.bool created.truthy) version)) = _
    rw [Python.subscript_eq h List.mem_cons_self,
      Python.subscript_eq h (List.mem_cons_of_mem _ List.mem_cons_self)]
    rw [Option.bind_some, Option.bind_some, Python.int_digits]
    rfl
  incr members z _ _ n _ h := by
    change ((Python.subscript "value" _).bind Python.int).bind (fun value =>
      ((Python.subscript "version" _).bind Python.int).bind fun version =>
        some (Outcome.counter value version)) = _
    rw [Python.subscript_eq h List.mem_cons_self,
      Python.subscript_eq h (List.mem_cons_of_mem _ List.mem_cons_self)]
    rw [Option.bind_some, Option.bind_some, Python.int_digits, Python.int_digits]
    rfl
  deleteByPattern members n _ h := by
    change (Python.subscript "deleted" _).map Outcome.count = _
    rw [Python.subscript_eq h (List.mem_singleton_self _)]
    rfl
  setTtlByPattern members n _ h := by
    change (Python.subscript "updated" _).map Outcome.count = _
    rw [Python.subscript_eq h (List.mem_singleton_self _)]
    rfl

end Python

section Go

variable {members fields : List (String × Json)} {absent : List String} {bs : List UInt8}
  {v : Json} {n : ℕ}

theorem Go.uint64_count (h : n < 2 ^ 64) : Go.uint64 (count n) = some (n : ℤ) := by
  rw [Go.uint64, count, integral_number, filter_uint64 h]

theorem Go.parseUint_digits (h : n < 2 ^ 64) : Go.parseUint (toString (n : ℤ)) = some (n : ℤ) := by
  have hread : natural? (toString (n : ℤ)).toList = some n := by
    rw [toList_toString_natural, natural?_toDigits]
  rw [Go.parseUint, hread, Option.filter_some, if_pos (decide_eq_true h)]
  rfl

theorem Go.parseInt_digits {z : ℤ} (hlo : -2 ^ 63 ≤ z) (hhi : z < 2 ^ 63) :
    Go.parseInt (toString z) = some z := by
  rw [Go.parseInt, signed?_toString, filter_int64 hlo hhi]

/-- A number in a field. -/
theorem Go.number_eq {name : String} (h : Contains members fields absent)
    (hmem : (name, count n) ∈ fields) (hname : Go.isField name name = true) (hn : n < 2 ^ 64) :
    Go.number name (.object members) = some (.number (n : ℤ)) := by
  change (Go.field name Go.uint64 0 members).bind (fun n => some (Json.number n)) = _
  rw [h.field hmem hname (by rintro ⟨⟩), Go.uint64_count hn]
  rfl

theorem Go.valueBytes_eq (bs : List UInt8) :
    Go.valueBytes (utf8Lossy bs) (String.ofList (base64Encode bs)) = some bs := by
  by_cases hbs : bs = []
  · rw [hbs]
    rfl
  · rw [Go.valueBytes, if_pos (base64_ne_empty hbs), decode_base64]

theorem Go.reads : Go.results.Reads (fun n => n) fun n => some n where
  alive _ hstatus := decide_eq_true hstatus
  dead _ hok := alive_of_status hok
  pong members h := by
    change Go.field "pong" Go.bool false members = _
    rw [h.field (List.mem_singleton_self _) (by decide) (by rintro ⟨⟩)]
    rfl
  get members fields absent bs n hn hfields h := by
    change (Go.field "value" Json.text? "" members).bind (fun value =>
      (Go.field "value_base64" Json.text? "" members).bind fun valueBase64 =>
        (Go.field "version" Go.uint64 0 members).bind fun version =>
          (Go.valueBytes value valueBase64).bind fun bytes =>
            some (Outcome.value bytes (.number version))) = _
    rw [h.field List.mem_cons_self (by decide) (by rintro ⟨⟩), Go.uint64_count hn]
    cases hfields with
    | text s hs =>
        rw [h.field_absent (List.mem_singleton_self _),
          h.field (List.mem_cons_of_mem _ (List.mem_singleton_self _)) (by decide) (by rintro ⟨⟩)]
        exact congrArg (fun bs => some (Outcome.value bs _)) hs
    | base64 =>
        rw [h.field (mem_value _ bs) (by decide) (by rintro ⟨⟩),
          h.field (mem_base64 _ bs) (by decide) (by rintro ⟨⟩)]
        change (Go.valueBytes (utf8Lossy bs) (String.ofList (base64Encode bs))).bind _ = _
        rw [Go.valueBytes_eq]
        rfl
  set members n hn h := by
    change (Go.number "version" _).map Outcome.version = _
    rw [Go.number_eq h (List.mem_singleton_self _) (by decide) hn]
    rfl
  setNx members b n hn h := by
    change (Go.field "created" Go.bool false members).bind (fun created =>
      ((Go.field "version" Json.text? "" members).bind Go.parseUint).bind fun version =>
        some (Outcome.created (.bool created) version)) = _
    rw [h.field List.mem_cons_self (by decide) (by rintro ⟨⟩),
      h.field (List.mem_cons_of_mem _ List.mem_cons_self) (by decide) (by rintro ⟨⟩)]
    change ((Go.parseUint (toString (n : ℤ))).bind fun version =>
      some (Outcome.created (.bool b) version)) = _
    rw [Go.parseUint_digits hn]
    rfl
  incr members z hlo hhi n hn h := by
    change ((Go.field "value" Json.text? "" members).bind Go.parseInt).bind (fun value =>
      ((Go.field "version" Json.text? "" members).bind Go.parseUint).bind fun version =>
        some (Outcome.counter value version)) = _
    rw [h.field List.mem_cons_self (by decide) (by rintro ⟨⟩),
      h.field (List.mem_cons_of_mem _ List.mem_cons_self) (by decide) (by rintro ⟨⟩)]
    change ((Go.parseInt (toString z)).bind fun value =>
      (Go.parseUint (toString (n : ℤ))).bind fun version =>
        some (Outcome.counter value version)) = _
    rw [Go.parseInt_digits hlo hhi, Go.parseUint_digits hn]
    rfl
  deleteByPattern members n hn h := by
    change (Go.number "deleted" _).map Outcome.count = _
    rw [Go.number_eq h (List.mem_singleton_self _) (by decide) hn]
    rfl
  setTtlByPattern members n hn h := by
    change (Go.number "updated" _).map Outcome.count = _
    rw [Go.number_eq h (List.mem_singleton_self _) (by decide) hn]
    rfl

end Go

section Rust

variable {members fields : List (String × Json)} {absent : List String} {bs : List UInt8}
  {v : Json} {n : ℕ}

theorem Rust.u64_count (h : n < 2 ^ 64) : Rust.u64 (count n) = some (n : ℤ) := by
  rw [Rust.u64, count, integral_number, filter_uint64 h]

theorem Rust.parseU64Field_digits (h : n < 2 ^ 64) :
    Rust.parseU64Field (toString (n : ℤ)) = some (n : ℤ) := by
  have hread : unsigned? (toString (n : ℤ)).toList = some n := by
    rw [toList_toString_natural, unsigned?_of_ne (head?_toDigits n), natural?_toDigits]
  rw [Rust.parseU64Field, hread, Option.filter_some, if_pos (decide_eq_true h)]
  rfl

theorem Rust.parseI64Field_digits {z : ℤ} (hlo : -2 ^ 63 ≤ z) (hhi : z < 2 ^ 63) :
    Rust.parseI64Field (toString z) = some z := by
  rw [Rust.parseI64Field, signed?_toString, filter_int64 hlo hhi]

theorem Rust.number_eq {name : String} (h : Contains members fields absent)
    (hmem : (name, count n) ∈ fields) (hn : n < 2 ^ 64) :
    Rust.number name (.object members) = some (.number (n : ℤ)) := by
  have hfields : Rust.derived [name] (.object members) = some [some (count n)] := by
    rw [Rust.derived, List.mapM_cons, h.single hmem]
    rfl
  simp only [Rust.number, hfields, Rust.u64_count hn, Option.map_some]

/-- Two fields that are there. -/
theorem Rust.derived_two {name name' : String} {v' : Json} (h : Contains members fields absent)
    (hmem : (name, v) ∈ fields) (hmem' : (name', v') ∈ fields) :
    Rust.derived [name, name'] (.object members) = some [some v, some v'] := by
  rw [Rust.derived, List.mapM_cons, List.mapM_cons, h.single hmem, h.single hmem']
  rfl

theorem Rust.valueBytes_eq (bs : List UInt8) : Rust.valueBytes (some (utf8Lossy bs))
    (some (String.ofList (base64Encode bs))) = some bs := by
  by_cases hbs : bs = []
  · rw [hbs]
    rfl
  · rw [Rust.valueBytes, Rust.present, Option.filter_some,
      if_pos (decide_eq_true (base64_ne_empty hbs))]
    change base64Decode (trim whiteSpace (String.ofList (base64Encode bs))).toList = _
    rw [trim_of_visible (fun _ => whiteSpace_of_visible) (visible_ofList bs), decode_base64]

theorem Rust.reads : Rust.results.Reads (fun n => n) fun n => some n where
  alive _ hstatus := decide_eq_true hstatus
  dead _ hok := alive_of_status hok
  pong members h := by
    have hfields : Rust.derived ["pong"] (.object members) = some [some (.bool true)] := by
      rw [Rust.derived, List.mapM_cons, h.single (List.mem_singleton_self _)]
      rfl
    simp only [Rust.results, hfields]
  get members fields absent bs n hn hfields h := by
    cases hfields with
    | text s hs =>
        have hderived : Rust.derived ["value", "value_base64", "version"] (.object members) =
            some [some (.string s), none, some (count n)] := by
          rw [Rust.derived, List.mapM_cons, List.mapM_cons, List.mapM_cons,
            h.single (List.mem_cons_of_mem _ (List.mem_singleton_self _)),
            h.single_absent (List.mem_singleton_self _) (by decide), h.single List.mem_cons_self]
          rfl
        have hbytes : Rust.valueBytes (some s) none = some bs := congrArg some hs
        simp only [Rust.results, hderived, Option.bind_eq_bind, Option.bind_some, Rust.optional,
          Rust.optionString, Rust.u64_count hn, hbytes]
    | base64 =>
        have hderived : Rust.derived ["value", "value_base64", "version"] (.object members) =
            some [some (.string (utf8Lossy bs)),
              some (.string (String.ofList (base64Encode bs))), some (count n)] := by
          rw [Rust.derived, List.mapM_cons, List.mapM_cons, List.mapM_cons,
            h.single (mem_value _ bs), h.single (mem_base64 _ bs), h.single List.mem_cons_self]
          rfl
        simp only [Rust.results, hderived, Option.bind_eq_bind, Option.bind_some, Rust.optional,
          Rust.optionString, Rust.u64_count hn, Rust.valueBytes_eq]
  set members n hn h := by
    change (Rust.number "version" _).map Outcome.version = _
    rw [Rust.number_eq h (List.mem_singleton_self _) hn]
    rfl
  setNx members b n hn h := by
    have hderived := Rust.derived_two h List.mem_cons_self
      (List.mem_cons_of_mem _ List.mem_cons_self)
    simp only [Rust.results, hderived, digits, Rust.parseU64Field_digits hn, Option.map_some]
  incr members z hlo hhi n hn h := by
    have hderived := Rust.derived_two h List.mem_cons_self
      (List.mem_cons_of_mem _ List.mem_cons_self)
    simp only [Rust.results, hderived, digits, Rust.parseI64Field_digits hlo hhi,
      Rust.parseU64Field_digits hn, Option.bind_eq_bind, Option.bind_some, Option.map_some]
  deleteByPattern members n hn h := by
    change (Rust.number "deleted" _).map Outcome.count = _
    rw [Rust.number_eq h (List.mem_singleton_self _) hn]
    rfl
  setTtlByPattern members n hn h := by
    change (Rust.number "updated" _).map Outcome.count = _
    rw [Rust.number_eq h (List.mem_singleton_self _) hn]
    rfl

end Rust

section Java

variable {members fields : List (String × Json)} {absent : List String} {bs : List UInt8}
  {v : Json} {n : ℕ}

/-- A number of an atomic operation, which is refused beyond 63 bits. -/
def Java.long (n : ℕ) : Option ℤ :=
  if n < 2 ^ 63 then some n else none

theorem Java.longValue_count (h : n < 2 ^ 64) : Java.longValue (count n) = some (signed64 n) := by
  have hmod : (n : ℤ) % 2 ^ 64 = n := Int.emod_eq_of_lt (Int.natCast_nonneg n) (by exact_mod_cast h)
  rw [count, Java.longValue, if_pos (Rat.den_intCast n), Rat.num_intCast, hmod, Int.toNat_natCast]

theorem Java.number_eq {name : String} (h : Contains members fields absent)
    (hmem : (name, count n) ∈ fields) (hn : n < 2 ^ 64) :
    Java.number name (.object members) = some (.number (signed64 n)) := by
  change ((Json.lookup name members).bind Java.longValue).map _ = _
  rw [h.lookup hmem, Option.bind_some, Java.longValue_count hn]
  rfl

theorem Java.parseLong_digits {z : ℤ} (hlo : -2 ^ 63 ≤ z) (hhi : z < 2 ^ 63) :
    Java.parseLong (some (digits z)) = some z := by
  change (signed? (toString z).toList).filter _ = _
  rw [signed?_toString, filter_int64 hlo hhi]

theorem Java.parseLong_version (n : ℕ) : Java.parseLong (some (digits n)) = Java.long n := by
  by_cases hn : n < 2 ^ 63
  · rw [Java.long, if_pos hn, Java.parseLong_digits (by omega) (by exact_mod_cast hn)]
  · have hnot : ¬ (-2 ^ 63 ≤ (n : ℤ) ∧ (n : ℤ) < 2 ^ 63) := fun h => hn (by exact_mod_cast h.2)
    change (signed? (toString (n : ℤ)).toList).filter _ = _
    rw [Java.long, if_neg hn, signed?_toString, Option.filter_some, if_neg]
    exact fun h => hnot (of_decide_eq_true h)

theorem Java.valueBytes_eq (hfields : ValueFields bs fields absent)
    (h : Contains members (("version", v) :: fields) absent) :
    Java.valueBytes members = some bs := by
  cases hfields with
  | text s hs =>
      rw [Java.valueBytes, h.lookup_absent (List.mem_singleton_self _) (by decide),
        h.lookup (List.mem_cons_of_mem _ (List.mem_singleton_self _))]
      exact congrArg some hs
  | base64 =>
      rw [Java.valueBytes, h.lookup (mem_value v bs), h.lookup (mem_base64 v bs)]
      by_cases hbs : bs = []
      · rw [hbs]
        rfl
      · have hblank : blank javaSpace (String.ofList (base64Encode bs)) = false := by
          rw [blank_eq_decide, trim_of_visible (fun _ => javaSpace_of_visible) (visible_ofList bs)]
          exact decide_eq_false (base64_ne_empty hbs)
        simp only [Java.castString, Option.bind_eq_bind, Option.bind_some, Option.filter_some,
          hblank, Bool.not_false, if_true, decode_base64]

theorem Java.reads : Java.results.Reads signed64 Java.long where
  alive _ hstatus := decide_eq_true hstatus
  dead _ hok := alive_of_status hok
  pong members h := by
    change some (isTrue (Json.lookup "pong" members)) = _
    rw [h.lookup (List.mem_singleton_self _)]
    rfl
  get members fields absent bs n hn hfields h := by
    change (Java.number "version" (.object members)).bind (fun version =>
      (Java.valueBytes members).bind fun value => some (Outcome.value value version)) = _
    rw [Java.number_eq h List.mem_cons_self hn, Java.valueBytes_eq hfields h]
    rfl
  set members n hn h := by
    change (Java.number "version" _).map Outcome.version = _
    rw [Java.number_eq h (List.mem_singleton_self _) hn]
    rfl
  setNx members b n _ h := by
    change (Java.parseLong (Json.lookup "version" members)).bind (fun version =>
      some (Outcome.created (.bool (isTrue (Json.lookup "created" members))) version)) = _
    rw [h.lookup (List.mem_cons_of_mem _ List.mem_cons_self), h.lookup List.mem_cons_self,
      Java.parseLong_version, Option.map_eq_bind]
    rfl
  incr members z hlo hhi n _ h := by
    change (Java.parseLong (Json.lookup "value" members)).bind (fun value =>
      (Java.parseLong (Json.lookup "version" members)).bind fun version =>
        some (Outcome.counter value version)) = _
    rw [h.lookup List.mem_cons_self, h.lookup (List.mem_cons_of_mem _ List.mem_cons_self),
      Java.parseLong_digits hlo hhi, Java.parseLong_version, Option.map_eq_bind]
    rfl
  deleteByPattern members n hn h := by
    change (Java.number "deleted" _).map Outcome.count = _
    rw [Java.number_eq h (List.mem_singleton_self _) hn]
    rfl
  setTtlByPattern members n hn h := by
    change (Java.number "updated" _).map Outcome.count = _
    rw [Java.number_eq h (List.mem_singleton_self _) hn]
    rfl

end Java

section Node

variable {members fields : List (String × Json)} {absent : List String} {bs : List UInt8}
  {v : Json} {n : ℕ}

/-- A double holds the integers up to 53 bits. -/
theorem Node.double_of_lt (h : n < 2 ^ 53) : Node.double n = n := by
  have hlog : Nat.log2 n - 52 = 0 := by
    by_cases hn : n = 0
    · rw [hn]
      rfl
    · have hlt := (Nat.log2_lt hn).mpr h
      omega
  rw [Node.double, hlog]
  simp only [pow_zero, Nat.mod_one, Nat.div_one, Nat.mul_one]
  exact if_neg (by omega)

theorem Node.parsed_number (n : ℕ) : Node.parsed (count n) = .number (Node.double n : ℤ) := by
  have hsign : (n : ℤ).sign * (Node.double n : ℤ) = (Node.double n : ℤ) := by
    by_cases hn : n = 0
    · rw [hn]
      rfl
    · rw [Int.sign_eq_one_of_pos (by omega), Int.one_mul]
  rw [count, Node.parsed, if_pos (Rat.den_intCast n), Rat.num_intCast, Int.natAbs_natCast, hsign]

theorem Node.property_eq {name : String} (h : Contains members fields absent)
    (hmem : (name, count n) ∈ fields) :
    Node.property name members = .number (Node.double n : ℤ) := by
  rw [Node.property, h.lookup hmem, Option.map_some, Node.parsed_number]
  rfl

theorem Node.number_eq {name : String} (h : Contains members fields absent)
    (hmem : (name, count n) ∈ fields) :
    Node.number name (.object members) = some (.number (Node.double n : ℤ)) :=
  congrArg some (Node.property_eq h hmem)

theorem Node.bigInt_digits (z : ℤ) : Node.bigInt (some (digits z)) = some z := by
  have htrim := trim_of_visible (fun _ => nodeSpace_of_visible) (visible_toString z)
  have hne : toString z ≠ "" := by
    intro hempty
    have hread := signed?_toString z
    rw [hempty] at hread
    cases hread
  rw [digits, Node.bigInt, htrim, if_neg hne, signed?_toString]

theorem Node.valueBytes_eq (hfields : ValueFields bs fields absent)
    (h : Contains members (("version", v) :: fields) absent) :
    Node.valueBytes members = some bs := by
  cases hfields with
  | text s hs =>
      rw [Node.valueBytes, h.lookup_absent (List.mem_singleton_self _) (by decide),
        h.lookup (List.mem_cons_of_mem _ (List.mem_singleton_self _))]
      exact congrArg some hs
  | base64 =>
      rw [Node.valueBytes, h.lookup (mem_value v bs), h.lookup (mem_base64 v bs)]
      by_cases hbs : bs = []
      · rw [hbs]
        rfl
      · change (if decide _ = true then base64Decode (String.ofList _).toList else _) = _
        rw [if_pos (decide_eq_true (base64_ne_empty hbs)), decode_base64]

theorem Node.reads : Node.results.Reads (fun n => Node.double n) fun n => some n where
  alive h hstatus := by
    change h.ok = true
    rw [Response.ok, hstatus]
    rfl
  dead _ hok := hok
  pong members h := by
    change some (isTrue (Json.lookup "pong" members)) = _
    rw [h.lookup (List.mem_singleton_self _)]
    rfl
  get members fields absent bs n _ hfields h := by
    change (Node.valueBytes members).bind (fun value =>
      some (Outcome.value value (Node.property "version" members))) = _
    rw [Node.valueBytes_eq hfields h, Node.property_eq h List.mem_cons_self]
    rfl
  set members n _ h := by
    change (Node.number "version" (.object members)).map Outcome.version = _
    rw [Node.number_eq h (List.mem_singleton_self _)]
    rfl
  setNx members b n _ h := by
    change (Node.bigInt (Json.lookup "version" members)).bind (fun version =>
      some (Outcome.created (Node.property "created" members) version)) = _
    rw [Node.property, h.lookup (List.mem_cons_of_mem _ List.mem_cons_self),
      h.lookup List.mem_cons_self, Node.bigInt_digits]
    rfl
  incr members z _ _ n _ h := by
    change (Node.bigInt (Json.lookup "value" members)).bind (fun value =>
      (Node.bigInt (Json.lookup "version" members)).bind fun version =>
        some (Outcome.counter value version)) = _
    rw [h.lookup List.mem_cons_self, h.lookup (List.mem_cons_of_mem _ List.mem_cons_self),
      Node.bigInt_digits, Node.bigInt_digits]
    rfl
  deleteByPattern members n _ h := by
    change (Node.number "deleted" (.object members)).map Outcome.count = _
    rw [Node.number_eq h (List.mem_singleton_self _)]
    rfl
  setTtlByPattern members n _ h := by
    change (Node.number "updated" (.object members)).map Outcome.count = _
    rw [Node.number_eq h (List.mem_singleton_self _)]
    rfl

end Node

/-- What a client makes of a number of the server. -/
def narrow : Wire.Sdk → ℕ → ℤ
  | .java => signed64
  | .node => fun n => Node.double n
  | _ => fun n => n

/-- What a client makes of a number of an atomic operation. -/
def wide : Wire.Sdk → ℕ → Option ℤ
  | .java => Java.long
  | _ => fun n => some n

/-- All five clients read the answers of a server. -/
theorem reads (sdk : Wire.Sdk) : (results sdk).Reads (narrow sdk) (wide sdk) := by
  cases sdk with
  | python => exact Python.reads
  | go => exact Go.reads
  | rust => exact Rust.reads
  | java => exact Java.reads
  | node => exact Node.reads

end Http

end DittoClient
