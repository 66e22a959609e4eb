import DittoClient.Wire.Formats
import DittoClient.Wire.Server

/-!
# The five decoders on what the server sends

On the canonical encoding of a response, the Python, Go and Rust decoders return this
response, up to the names that Rust has for some error codes. The Java decoder returns it
with its numbers read as signed, and refuses the indices of error codes that are no `int`.
The Node.js decoder returns it unless one of its numbers is not a safe integer, and refuses
it then.
-/

namespace DittoClient

namespace Wire

open DittoClient.Octets
open DittoClient.Protobuf
open DittoClient.Protobuf.Rules

section Standard

theorem wrapped_of_lt {n : ℕ} (h : n < 2 ^ 64) : wrapped n = n := by
  have hhigh : n >>> 70 = 0 := by
    rw [Nat.shiftRight_eq_div_pow]
    exact Nat.div_eq_of_lt (by omega)
  rw [wrapped, hhigh, Nat.mod_eq_of_lt h, Nat.zero_shiftLeft, Nat.or_zero]

theorem python_standard : pythonFormat.Standard where
  limit := by decide
  word _ _ := rfl
  number k w _ hw := congrArg some (by omega)

theorem node_standard : nodeFormat.Standard where
  limit := by decide
  word _ _ := rfl
  number k w hk hw := by
    have hsafe : ¬ maxSafeInteger < k * 8 + w := by
      unfold maxSafeInteger
      omega
    exact (if_neg hsafe).trans (congrArg some (by omega))

theorem go_standard : goFormat.Standard where
  limit := by decide
  word n hn := Nat.mod_eq_of_lt hn
  number k w _ hw := congrArg some (by omega)

theorem java_standard : javaFormat.Standard where
  limit := by decide
  word n hn := wrapped_of_lt hn
  number k w hk hw := congrArg some (by omega)

theorem rust_standard (overflowChecks : Bool) : (rustFormat overflowChecks).Standard where
  limit := by cases overflowChecks <;> decide
  word n hn := by
    cases overflowChecks with
    | false => exact wrapped_of_lt hn
    | true => exact Nat.mod_eq_of_lt hn
  number k w hk hw := congrArg some (by omega)

end Standard

section Plain

theorem python_plain : pythonDialect.Plain where
  text s := by
    simp only [pythonDialect, utf8Bytes, utf8?_chars]
  number := rfl
  supported := rfl
  index := rfl
  wide := rfl
  int64 := rfl

theorem node_plain : nodeDialect.Plain where
  text s := congrArg Except.ok (utf8Lossy_chars s)
  number := rfl
  supported := rfl
  index := rfl
  wide := rfl
  int64 := rfl

theorem go_plain : goDialect.Plain where
  text s := congrArg Except.ok (utf8Lossy_chars s)
  number := rfl
  supported := rfl
  index := rfl
  wide := rfl
  int64 := rfl

theorem java_plain : javaDialect.Plain where
  text s := congrArg Except.ok (utf8Lossy_chars s)
  number := rfl
  supported := rfl
  index := rfl
  wide := rfl
  int64 := rfl

theorem rust_plain (overflowChecks : Bool) : (rustDialect overflowChecks).Plain where
  text s := congrArg Except.ok (utf8Lossy_chars s)
  number := rfl
  supported := rfl
  index := rfl
  wide := rfl
  int64 := rfl

end Plain

section Quiet

theorem node_quiet : nodeDialect.Quiet where
  number n := by
    change ¬ Broken ((asNumber n).map Int.ofNat)
    unfold asNumber
    split
    · exact not_broken_malformed _
    · exact not_broken_ok _
  index n := by
    change ¬ Broken ((asNumber n).map Int.ofNat)
    unfold asNumber
    split
    · exact not_broken_malformed _
    · exact not_broken_ok _
  text _ := not_broken_ok _

theorem java_quiet : javaDialect.Quiet where
  number _ := not_broken_ok _
  index n := by
    change ¬ Broken ((asInt n).map Int.ofNat)
    unfold asInt
    split
    · exact not_broken_ok _
    · exact not_broken_malformed _
  text _ := not_broken_ok _

end Quiet

namespace ServerResponse

/-- The response of a client that has the numbers of versions and counts as `number` says. -/
def responseWith (number : UInt64 → ℤ) : ServerResponse → ClientResponse
  | .value key bs version => .value key bs (number version)
  | .ok version => .ok (number version)
  | .deleted => .deleted
  | .notFound => .notFound
  | .pong => .pong
  | .authOk => .authOk
  | .error code message => .error (codeNameIn errorCodeNames code.toNat) message
  | .watching => .watching
  | .unwatched => .unwatched
  | .watchEvent key bs version => .watchEvent key bs (number version)
  | .patternDeleted count => .patternDeleted (number count)
  | .patternTtlUpdated count => .patternTtlUpdated (number count)
  | .setNx created version => .setNx created (number version)
  | .counter n version => .counter n.toInt (number version)

/-- The response with its numbers as they are. -/
def response (x : ServerResponse) : ClientResponse :=
  x.responseWith fun n => n.toNat

/-- The response with its versions and counts read as signed numbers. -/
def signedResponse (x : ServerResponse) : ClientResponse :=
  x.responseWith fun n => n.toInt64.toInt

/-- The index of the code of an error. -/
def errorCode : ServerResponse → Option UInt64
  | .error code _ => some code
  | _ => none

/-- The number that the Node.js client has in a double. -/
def inDouble : ServerResponse → Option UInt64
  | .value _ _ version => some version
  | .ok version => some version
  | .error code _ => some code
  | .watchEvent _ _ version => some version
  | .patternDeleted count => some count
  | .patternTtlUpdated count => some count
  | _ => none

end ServerResponse

/-- The decoders of the five clients, for Rust with and without overflow checks. -/
def dialects : List Dialect :=
  [pythonDialect, rustDialect true, rustDialect false, goDialect, javaDialect, nodeDialect]

/-- All decoders make the same response of the canonical encoding of a response. -/
def Agree (x : ServerResponse) : Prop :=
  ∃ r, ∀ d ∈ dialects, d.decodeResponse x.encode = .ok r

section Meaning

theorem signed64_toNat (n : UInt64) : signed64 n.toNat = n.toInt64.toInt := by
  unfold signed64
  change _ = n.toBitVec.toInt
  rw [BitVec.toInt_eq_toNat_cond]
  change _ = if 2 * n.toNat < 2 ^ 64 then _ else _
  split
  · next h => rw [if_pos (by omega)]; rfl
  · next h => rw [if_neg (by omega)]; rfl

theorem signed64_toUInt64 (n : Int64) : signed64 n.toUInt64.toNat = n.toInt := by
  rw [signed64_toNat]
  rfl

/-- A dialect makes a response of what it takes and names as the others do. -/
theorem meaning_eq {d : Dialect} {x : ServerResponse} (number : UInt64 → ℤ)
    (hnumber : ∀ n, x.inDouble = some n → d.number n.toNat = .ok (number n))
    (hwide : ∀ n : UInt64, d.wide n.toNat = number n) (hint : ∀ n : Int64, d.int64 n.toUInt64.toNat = n.toInt)
    (herror : ∀ n, x.errorCode = some n → ∃ i, d.index n.toNat = .ok i ∧
      d.codeName i = codeNameIn errorCodeNames n.toNat) :
    d.meaning x = .ok (x.responseWith number) := by
  cases x with
  | value key bs version =>
      rw [Dialect.meaning, hnumber version rfl]
      rfl
  | ok version =>
      rw [Dialect.meaning, hnumber version rfl]
      rfl
  | error code message =>
      obtain ⟨i, hi, hname⟩ := herror code rfl
      rw [Dialect.meaning, hi]
      exact congrArg (fun name => Except.ok (ClientResponse.error name message)) hname
  | watchEvent key bs version =>
      rw [Dialect.meaning, hnumber version rfl]
      rfl
  | patternDeleted count =>
      rw [Dialect.meaning, hnumber count rfl]
      rfl
  | patternTtlUpdated count =>
      rw [Dialect.meaning, hnumber count rfl]
      rfl
  | setNx created version =>
      rw [Dialect.meaning, hwide]
      rfl
  | counter n version =>
      rw [Dialect.meaning, hwide, hint]
      rfl
  | _ => rfl

theorem python_meaning (x : ServerResponse) : pythonDialect.meaning x = .ok x.response :=
  meaning_eq _ (fun _ _ => rfl) (fun _ => rfl) signed64_toUInt64 fun n _ => ⟨n.toNat, rfl, rfl⟩

theorem go_meaning (x : ServerResponse) : goDialect.meaning x = .ok x.response :=
  meaning_eq _ (fun _ _ => rfl) (fun _ => rfl) signed64_toUInt64 fun n _ => ⟨n.toNat, rfl, rfl⟩

/-- Rust has the names of the other clients outside of the indices that it has moved. -/
theorem rust_codeName {n : ℕ} (h : n < 11 ∨ 15 ≤ n) :
    codeNameIn (errorCodeNames.insertIdx 11 "AccessDenied") n = codeNameIn errorCodeNames n := by
  have hsmall : ∀ n < 11, (errorCodeNames.insertIdx 11 "AccessDenied").getD n "InternalError" =
      errorCodeNames.getD n "InternalError" := by decide
  unfold codeNameIn
  rw [if_pos (Int.natCast_nonneg n), if_pos (Int.natCast_nonneg n), Int.toNat_natCast]
  rcases h with hlt | hge
  · exact hsmall n hlt
  · have hlong : (errorCodeNames.insertIdx 11 "AccessDenied").length ≤ n := hge
    have hshort : errorCodeNames.length ≤ n := Nat.le_trans (by decide) hge
    rw [List.getD_eq_getElem?_getD, List.getD_eq_getElem?_getD, List.getElem?_eq_none hlong,
      List.getElem?_eq_none hshort]

theorem rust_meaning (overflowChecks : Bool) {x : ServerResponse}
    (h : ∀ n, x.errorCode = some n → n.toNat < 11 ∨ 15 ≤ n.toNat) :
    (rustDialect overflowChecks).meaning x = .ok x.response :=
  meaning_eq _ (fun _ _ => rfl) (fun _ => rfl) signed64_toUInt64 fun n hn =>
    ⟨n.toNat, rfl, rust_codeName (h n hn)⟩

theorem java_meaning {x : ServerResponse} (h : ∀ n, x.errorCode = some n → n.toNat < 2 ^ 31) :
    javaDialect.meaning x = .ok x.signedResponse := by
  refine meaning_eq _ (fun n _ => congrArg Except.ok (signed64_toNat n)) signed64_toNat
    signed64_toUInt64 fun n hn => ⟨n.toNat, ?_, rfl⟩
  change (asInt n.toNat).map Int.ofNat = .ok (n.toNat : ℤ)
  rw [asInt, if_pos (h n hn)]
  rfl

theorem java_meaning_error {code : UInt64} (message : String) (h : ¬ code.toNat < 2 ^ 31)
    (r : ClientResponse) : javaDialect.meaning (.error code message) ≠ .ok r := by
  change ((asInt code.toNat).map Int.ofNat >>= _) ≠ _
  rw [asInt, if_neg h]
  exact fun he => by cases he

theorem node_meaning {x : ServerResponse}
    (h : ∀ n, x.inDouble = some n → n.toNat ≤ maxSafeInteger) :
    nodeDialect.meaning x = .ok x.response := by
  have hnumber : ∀ n, x.inDouble = some n → (asNumber n.toNat).map Int.ofNat = .ok (n.toNat : ℤ) := by
    intro n hn
    rw [asNumber, if_neg (Nat.not_lt.mpr (h n hn))]
    rfl
  have hint : ∀ n : Int64, signed64 (n.toUInt64.toNat % 2 ^ 64) = n.toInt := by
    intro n
    rw [Nat.mod_eq_of_lt n.toUInt64.toNat_lt, signed64_toUInt64]
  refine meaning_eq _ hnumber (fun _ => rfl) hint fun n hn => ⟨n.toNat, hnumber n ?_, rfl⟩
  cases x with
  | error code message => exact hn
  | _ => cases hn

theorem node_meaning_error {x : ServerResponse} {n : UInt64} (hn : x.inDouble = some n)
    (h : ¬ n.toNat ≤ maxSafeInteger) (r : ClientResponse) : nodeDialect.meaning x ≠ .ok r := by
  have hnumber : (asNumber n.toNat).map Int.ofNat =
      .error (.malformed s!"varint {n.toNat} exceeds Number.MAX_SAFE_INTEGER") := by
    rw [asNumber, if_pos (Nat.lt_of_not_le h)]
    rfl
  have hbind : ∀ g : ℤ → Except DecodeError ClientResponse,
      ((asNumber n.toNat).map Int.ofNat >>= g) ≠ .ok r := by
    intro g
    rw [hnumber]
    exact fun he => by cases he
  cases x with
  | value key bs version =>
      cases hn
      exact hbind _
  | ok version =>
      cases hn
      exact hbind _
  | error code message =>
      cases hn
      exact hbind _
  | watchEvent key bs version =>
      cases hn
      exact hbind _
  | patternDeleted count =>
      cases hn
      exact hbind _
  | patternTtlUpdated count =>
      cases hn
      exact hbind _
  | _ => cases hn

end Meaning

section Agreement

/-- A decoder that makes nothing of a response refuses it, if it does not break. -/
theorem malformed_of_meaning {d : Dialect} {bs : List UInt8} (hbroken : ¬ Broken (d.decodeResponse bs))
    (hnot : ∀ r, d.decodeResponse bs ≠ .ok r) :
    ∃ m, d.decodeResponse bs = .error (.malformed m) := by
  cases hx : d.decodeResponse bs with
  | ok r => exact absurd hx (hnot r)
  | error e =>
      cases e with
      | malformed m => exact ⟨m, rfl⟩
      | runtime m => exact absurd ⟨m, hx⟩ hbroken

/-- What the five decoders make of the canonical encoding of a response. Python and Go return
the response, Rust does apart from the indices of error codes that it has other names for.
Java returns it with signed versions and counts, and refuses an index that is no `int`.
Node.js returns it unless a number that it has in a double is not a safe integer, and refuses
it then. -/
theorem decoders_agree (x : ServerResponse) (hsize : x.encode.length < 2 ^ 31) :
    pythonDialect.decodeResponse x.encode = .ok x.response ∧
    goDialect.decodeResponse x.encode = .ok x.response ∧
    ((∀ n, x.errorCode = some n → n.toNat < 11 ∨ 15 ≤ n.toNat) → ∀ overflowChecks,
      (rustDialect overflowChecks).decodeResponse x.encode = .ok x.response) ∧
    ((∀ n, x.errorCode = some n → n.toNat < 2 ^ 31) →
      javaDialect.decodeResponse x.encode = .ok x.signedResponse) ∧
    ((∃ n, x.errorCode = some n ∧ 2 ^ 31 ≤ n.toNat) →
      ∃ m, javaDialect.decodeResponse x.encode = .error (.malformed m)) ∧
    ((∀ n, x.inDouble = some n → n.toNat ≤ maxSafeInteger) →
      nodeDialect.decodeResponse x.encode = .ok x.response) ∧
    ((∃ n, x.inDouble = some n ∧ maxSafeInteger < n.toNat) →
      ∃ m, nodeDialect.decodeResponse x.encode = .error (.malformed m)) := by
  have h64 : x.encode.length < 2 ^ 64 := hsize.trans (by decide)
  have hjava : x.encode.length ≤ 2 ^ 31 - 1 := Nat.le_of_lt_succ hsize
  have hnode : x.encode.length ≤ maxSafeInteger := hjava.trans (by decide)
  have decodesJava := Dialect.decodeResponse_encodes java_follows java_plain hjava
    (encodes_encode java_standard x h64)
  have decodesNode := Dialect.decodeResponse_encodes node_follows node_plain hnode
    (encodes_encode node_standard x h64)
  refine ⟨?_, ?_, fun hcode overflowChecks => ?_, fun hcode => ?_, fun hcode => ?_, fun hsafe => ?_,
    fun hlarge => ?_⟩
  · exact (Dialect.decodeResponse_encodes (python_follows _) python_plain le_rfl
      (encodes_encode python_standard x h64) _).mpr (python_meaning x)
  · exact (Dialect.decodeResponse_encodes go_follows go_plain (hjava.trans (by decide))
      (encodes_encode go_standard x h64) _).mpr (go_meaning x)
  · exact (Dialect.decodeResponse_encodes (rust_follows _) (rust_plain _) (hjava.trans (by decide))
      (encodes_encode (rust_standard _) x h64) _).mpr (rust_meaning overflowChecks hcode)
  · exact (decodesJava _).mpr (java_meaning hcode)
  · obtain ⟨n, hn, hge⟩ := hcode
    cases x with
    | error code message =>
        cases hn
        have hbroken := java_quiet.not_broken_error java_follows java_plain hjava
          (encodes_encode java_standard _ h64)
        exact malformed_of_meaning hbroken fun r hr =>
          java_meaning_error message (Nat.not_lt.mpr hge) r ((decodesJava r).mp hr)
    | _ => cases hn
  · exact (decodesNode _).mpr (node_meaning hsafe)
  · obtain ⟨n, hn, hlt⟩ := hlarge
    have hbroken := node_quiet.not_broken node_failsAt node_follows hnode
    exact malformed_of_meaning hbroken fun r hr =>
      node_meaning_error hn (Nat.not_le.mpr hlt) r ((decodesNode r).mp hr)

/-- A watch event with an empty value. -/
theorem decoders_agree_watchEvent :
    pythonDialect.decodeResponse (ServerResponse.watchEvent "k" (some []) 5).encode =
        .ok (.watchEvent "k" (some []) 5) ∧
      goDialect.decodeResponse (ServerResponse.watchEvent "k" (some []) 5).encode =
        .ok (.watchEvent "k" (some []) 5) :=
  ⟨(decoders_agree (.watchEvent "k" (some []) 5) (by decide)).1,
    (decoders_agree (.watchEvent "k" (some []) 5) (by decide)).2.1⟩

/-- The Node.js decoder refuses the first version that is not a safe integer. -/
theorem not_agree_large_version : ¬ Agree (.ok 9007199254740992) := by
  rintro ⟨r, hr⟩
  have hlen : (ServerResponse.ok 9007199254740992).encode.length ≤ maxSafeInteger := by decide
  have hnode := (Dialect.decodeResponse_encodes node_follows node_plain hlen
    (encodes_encode node_standard _ (by decide)) r).mp (hr nodeDialect (by simp [dialects]))
  exact node_meaning_error rfl (by decide) r hnode

end Agreement

end Wire

end DittoClient
