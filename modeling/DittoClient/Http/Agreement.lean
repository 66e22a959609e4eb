import DittoClient.Http.Readers
import DittoClient.LockStep.Rust
import DittoClient.Wire.Agreement

/-!
# Results over HTTP and over TCP

The clients of one language return the same over HTTP and over TCP, apart from a few numbers, which
one of the two refuses, and from the ping of Rust. `results_agree_iff` says exactly when.
-/

namespace DittoClient

namespace Http

open DittoClient.LockStep
open DittoClient.Octets
open DittoClient.Protobuf
open DittoClient.Wire

/-- The decoder of the TCP client. -/
def dialect (overflowChecks : Bool) : Wire.Sdk → Dialect
  | .python => pythonDialect
  | .go => goDialect
  | .rust => rustDialect overflowChecks
  | .java => javaDialect
  | .node => nodeDialect

/-- What a ping of the TCP client makes of a response. -/
def acceptPing : Wire.Sdk → ClientResponse → Except (Failure (LockStep.Rust.Fault Empty)) Result
  | .rust => LockStep.Rust.acceptPing
  | _ => LockStep.acceptPing

/-- What a call of the TCP client makes of a response. -/
def accept (sdk : Wire.Sdk) (c : LockStep.Call) (y : ClientResponse) : Option Result :=
  (c.accept (acceptPing sdk) y).toOption

/-- A result of the TCP client as one of the HTTP client. -/
def outcome : Result → Option Outcome
  | .bool b => some (.bool b)
  | .value none => some .missing
  | .value (some (bytes, version)) => some (.value bytes (.number version))
  | .version version => some (.version (.number version))
  | .created created version => some (.created (.bool created) version)
  | .counter value version => some (.counter value version)
  | .count n => some (.count (.number n))
  | _ => none

/-- What a call of the TCP client returns of what the server means. -/
def returnedTcp (overflowChecks : Bool) (sdk : Wire.Sdk) (c : LockStep.Call) (x : ServerResponse) :
    Option Outcome :=
  match (dialect overflowChecks sdk).meaning x with
  | .ok y => (accept sdk c y).bind outcome
  | .error _ => none

/-- The numbers in a response are the same for both clients of a language, and they agree on whether
a ping fails with an error. -/
def Same (sdk : Wire.Sdk) (r : Wire.Request) : ServerResponse → Prop
  | .value _ _ version => sdk = .node → version.toNat ≤ maxSafeInteger
  | .ok version => sdk = .node → version.toNat ≤ maxSafeInteger
  | .patternDeleted n => sdk = .node → n.toNat ≤ maxSafeInteger
  | .patternTtlUpdated n => sdk = .node → n.toNat ≤ maxSafeInteger
  | .setNx _ version => sdk = .java → version.toNat < 2 ^ 63
  | .counter _ version => sdk = .java → version.toNat < 2 ^ 63
  | .error code _ => r = .ping → sdk ≠ .rust ∧ (sdk = .java → code.toNat < 2 ^ 31) ∧
      (sdk = .node → code.toNat ≤ maxSafeInteger)
  | _ => True

section Numbers

variable {overflowChecks : Bool} {sdk : Wire.Sdk} {n : ℕ}

/-- The number of a version or a count, as the decoder of a client has it. -/
theorem number_iff : some (narrow sdk n) = ((dialect overflowChecks sdk).number n).toOption ↔
    (sdk = .node → n ≤ maxSafeInteger) := by
  cases sdk with
  | python => exact iff_of_true rfl (fun h => by cases h)
  | go => exact iff_of_true rfl (fun h => by cases h)
  | rust => exact iff_of_true rfl (fun h => by cases h)
  | java => exact iff_of_true rfl (fun h => by cases h)
  | node =>
      change some (Node.double n : ℤ) = ((asNumber n).map Int.ofNat).toOption ↔ _
      by_cases hn : n ≤ maxSafeInteger
      · have hlt : n < 2 ^ 53 := lt_of_le_of_lt hn (by decide)
        rw [asNumber, if_neg (Nat.not_lt.mpr hn), Node.double_of_lt hlt]
        exact iff_of_true rfl fun _ => hn
      · rw [asNumber, if_pos (Nat.lt_of_not_le hn)]
        exact iff_of_false (fun h => by cases h) fun h => hn (h rfl)

/-- The number of an atomic operation. -/
theorem wide_iff : wide sdk n = some ((dialect overflowChecks sdk).wide n) ↔
    (sdk = .java → n < 2 ^ 63) := by
  cases sdk with
  | python => exact iff_of_true rfl (fun h => by cases h)
  | go => exact iff_of_true rfl (fun h => by cases h)
  | rust => exact iff_of_true rfl (fun h => by cases h)
  | node => exact iff_of_true rfl (fun h => by cases h)
  | java =>
      change Java.long n = some (signed64 n) ↔ _
      by_cases hlt : n < 2 ^ 63
      · rw [Java.long, if_pos hlt, signed64, if_pos hlt]
        exact iff_of_true rfl fun _ => hlt
      · rw [Java.long, if_neg hlt]
        exact iff_of_false (fun h => by cases h) fun h => hlt (h rfl)

theorem int64_eq (overflowChecks : Bool) (sdk : Wire.Sdk) (n : Int64) :
    (dialect overflowChecks sdk).int64 n.toUInt64.toNat = n.toInt := by
  cases sdk with
  | node =>
      change signed64 (n.toUInt64.toNat % 2 ^ 64) = n.toInt
      rw [Nat.mod_eq_of_lt n.toUInt64.toNat_lt, signed64_toUInt64]
  | _ => exact signed64_toUInt64 n

theorem number_injective : Function.Injective fun n : ℤ => Json.number n := by
  intro m n h
  exact Int.cast_injective (Json.number.inj h)

theorem some_eq_map_iff {α β : Type} {f : α → β} (hf : Function.Injective f) {a : α}
    {o : Option α} : some (f a) = o.map f ↔ some a = o := by
  rw [← Option.map_some, (Option.map_injective hf).eq_iff]

theorem map_eq_some_iff {α β : Type} {f : α → β} (hf : Function.Injective f) {a : α}
    {o : Option α} : o.map f = some (f a) ↔ o = some a := by
  rw [← Option.map_some, (Option.map_injective hf).eq_iff]

end Numbers

section Results

variable {overflowChecks : Bool} {sdk : Wire.Sdk} {c : LockStep.Call} {r : Wire.Request}
  {x : ServerResponse} {h : Response}

/-- A response with a number that the decoder may refuse. -/
theorem returnedTcp_of_number {e : Except DecodeError ℤ} {f : ℤ → ClientResponse} {g : ℤ → Outcome}
    (hmeaning : (dialect overflowChecks sdk).meaning x = e.bind fun n => .ok (f n))
    (haccept : ∀ n, (accept sdk c (f n)).bind outcome = some (g n)) :
    returnedTcp overflowChecks sdk c x = e.toOption.map g := by
  rw [returnedTcp, hmeaning]
  cases e with
  | error err => rfl
  | ok n => exact haccept n

/-- An error fails every call but a ping, whether its code can be decoded or not. -/
theorem returnedTcp_error (hc : c ≠ .ping) (code : UInt64) (message : String) :
    returnedTcp overflowChecks sdk c (.error code message) = none := by
  have hfails : ∀ name, accept sdk c (.error name message) = none := by
    intro name
    cases c with
    | ping => exact absurd rfl hc
    | _ => rfl
  rw [returnedTcp, Dialect.meaning]
  cases (dialect overflowChecks sdk).index code.toNat with
  | error err => rfl
  | ok n => exact congrArg (fun res => Option.bind res outcome) (hfails _)

/-- A ping that is answered with an error fails in both clients, unless it throws. -/
theorem returnedTcp_ping_error (code : UInt64) (message : String) :
    some (.bool false) = returnedTcp overflowChecks sdk .ping (.error code message) ↔
      sdk ≠ .rust ∧ (sdk = .java → code.toNat < 2 ^ 31) ∧
        (sdk = .node → code.toNat ≤ maxSafeInteger) := by
  cases sdk with
  | python => exact iff_of_true rfl ⟨by rintro ⟨⟩, by rintro ⟨⟩, by rintro ⟨⟩⟩
  | go => exact iff_of_true rfl ⟨by rintro ⟨⟩, by rintro ⟨⟩, by rintro ⟨⟩⟩
  | rust => exact iff_of_false (by rintro ⟨⟩) fun h => h.1 rfl
  | java =>
      have hindex : (dialect overflowChecks .java).index code.toNat =
          (asInt code.toNat).map Int.ofNat := rfl
      rw [returnedTcp, Dialect.meaning, hindex, asInt]
      by_cases hlt : code.toNat < 2 ^ 31
      · rw [if_pos hlt]
        exact iff_of_true rfl ⟨by rintro ⟨⟩, fun _ => hlt, by rintro ⟨⟩⟩
      · rw [if_neg hlt]
        exact iff_of_false (by rintro ⟨⟩) fun h => hlt (h.2.1 rfl)
  | node =>
      have hindex : (dialect overflowChecks .node).index code.toNat =
          (asNumber code.toNat).map Int.ofNat := rfl
      rw [returnedTcp, Dialect.meaning, hindex, asNumber]
      by_cases hlt : maxSafeInteger < code.toNat
      · rw [if_pos hlt]
        exact iff_of_false (by rintro ⟨⟩) fun h => Nat.not_le_of_lt hlt (h.2.2 rfl)
      · rw [if_neg hlt]
        exact iff_of_true rfl ⟨by rintro ⟨⟩, by rintro ⟨⟩, fun _ => Nat.le_of_not_lt hlt⟩

/-- The results for an error. -/
theorem error_agree_iff (hc : c.request? = some r) (code : UInt64) (message : String) :
    returned (narrow sdk) (wide sdk) r (.error code message) =
      returnedTcp overflowChecks sdk c (.error code message) ↔
        Same sdk r (.error code message) := by
  by_cases hping : c = .ping
  · subst hping
    cases hc
    exact (returnedTcp_ping_error code message).trans ⟨fun h _ => h, fun h => h rfl⟩
  · have hne : r ≠ .ping := by
      rintro rfl
      cases c with
      | ping => exact hping rfl
      | _ => cases hc
    rw [returnedTcp_error hping]
    refine iff_of_true ?_ fun h => absurd h hne
    cases r with
    | ping => exact absurd rfl hne
    | _ => rfl

/-- What is returned over HTTP and over TCP. -/
theorem returned_eq_iff (hc : c.request? = some r) (hanswers : Answers r x h) :
    returned (narrow sdk) (wide sdk) r x = returnedTcp overflowChecks sdk c x ↔ Same sdk r x := by
  have hvalue : ∀ bytes, Function.Injective fun n : ℤ => Outcome.value bytes (.number n) :=
    fun bytes m n heq => number_injective (Outcome.value.inj heq).2
  have hversion : Function.Injective fun n : ℤ => Outcome.version (.number n) :=
    fun m n heq => number_injective (Outcome.version.inj heq)
  have hcount : Function.Injective fun n : ℤ => Outcome.count (.number n) :=
    fun m n heq => number_injective (Outcome.count.inj heq)
  have hcreated : ∀ b, Function.Injective fun n : ℤ => Outcome.created (.bool b) n :=
    fun b m n heq => (Outcome.created.inj heq).2
  unfold Answers at hanswers
  split at hanswers
  · cases c with
    | ping => exact iff_of_true (by cases sdk <;> rfl) trivial
    | _ => cases hc
  · cases c with
    | get key ns =>
        rw [returnedTcp_of_number rfl fun n => rfl]
        exact (some_eq_map_iff (hvalue _)).trans number_iff
    | _ => cases hc
  · cases c with
    | get key ns => exact iff_of_true rfl trivial
    | _ => cases hc
  · cases c with
    | set key value ttlSecs ns =>
        rw [returnedTcp_of_number rfl fun n => rfl]
        exact (some_eq_map_iff hversion).trans number_iff
    | _ => cases hc
  · cases c with
    | setNx key value ttlSecs ns => exact (map_eq_some_iff (hcreated _)).trans wide_iff
    | _ => cases hc
  · next n version =>
      cases c with
      | incr key delta ttlSecsOnCreate ns =>
          have hcounter : Function.Injective fun v : ℤ => Outcome.counter n.toInt v :=
            fun v w heq => (Outcome.counter.inj heq).2
          have hreturned : returnedTcp overflowChecks sdk (.incr key delta ttlSecsOnCreate ns)
              (.counter n version) = some (.counter n.toInt
                ((dialect overflowChecks sdk).wide version.toNat)) := by
            rw [← int64_eq overflowChecks sdk n]
            rfl
          rw [hreturned]
          exact (map_eq_some_iff hcounter).trans wide_iff
      | _ => cases hc
  · cases c with
    | delete key ns => exact iff_of_true rfl trivial
    | _ => cases hc
  · cases c with
    | delete key ns => exact iff_of_true rfl trivial
    | _ => cases hc
  · cases c with
    | deleteByPattern pattern ns =>
        rw [returnedTcp_of_number rfl fun n => rfl]
        exact (some_eq_map_iff hcount).trans number_iff
    | _ => cases hc
  · cases c with
    | setTtlByPattern pattern ttlSecs ns =>
        rw [returnedTcp_of_number rfl fun n => rfl]
        exact (some_eq_map_iff hcount).trans number_iff
    | _ => cases hc
  · exact error_agree_iff hc _ _
  · exact hanswers.elim

/-- The clients of a language return the same over HTTP and over TCP if and only if the numbers in
the response are the same for both, and a ping is not answered with an error in Rust. -/
theorem results_agree_iff (hc : c.request? = some r) (hanswers : Answers r x h) :
    (results sdk).result r h = returnedTcp overflowChecks sdk c x ↔ Same sdk r x := by
  rw [(reads sdk).result_eq hanswers]
  exact returned_eq_iff hc hanswers

/-- The response to an increment with a version of 64 bits. -/
def wideResponse : Response where
  status := 200
  statusText := "OK"
  text := ""
  json := some (.object [("version", digits 9223372036854775808), ("value", digits 1)])

/-- The HTTP client of Java refuses this version, and the TCP client returns it with a minus
sign. -/
theorem results_differ_java :
    Java.results.result (.incr "k" (some 1) none none) wideResponse ≠
      returnedTcp false .java (.incr "k" (some 1) none none) (.counter 1 9223372036854775808) := by
  have hanswers : Answers (.incr "k" (some 1) none none) (.counter 1 9223372036854775808)
      wideResponse := by
    refine ⟨rfl, _, rfl, by decide, ?_, List.forall_mem_nil _⟩
    refine List.forall_mem_cons.mpr ⟨List.mem_cons_of_mem _ List.mem_cons_self, ?_⟩
    exact List.forall_mem_singleton.mpr List.mem_cons_self
  intro h
  have hsame : Same .java _ _ := (results_agree_iff rfl hanswers).mp h
  exact absurd (hsame rfl) (by decide)

end Results

end Http

end DittoClient
