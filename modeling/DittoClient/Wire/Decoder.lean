import Mathlib.Algebra.Group.Nat.Defs
import Mathlib.Algebra.Group.Int.Defs
import DittoClient.Octets.Utf8
import DittoClient.Protobuf.Reader
import DittoClient.Wire.Message

/-!
# Response decoders

The five response decoders walk over an envelope, take the last `client_response` field,
and hand its first known variant to a decoder for this variant. They differ in the rules
of their readers, in the integer types they store numbers in, in how they decode text and
in two error texts, which are the fields of a `Dialect`. A key or a message that was not set
is null in Java, and represented by the empty text.
-/

namespace DittoClient

namespace Wire

open DittoClient.Octets
open DittoClient.Protobuf

/-- A response decoder. -/
abbrev Decoder := List UInt8 → Except DecodeError ClientResponse

/-- What the response decoders of the clients disagree on. -/
structure Dialect extends Rules where
  /-- A version or a count, as the number type stores it. -/
  number : ℕ → Except DecodeError ℤ
  /-- The index of an error code. -/
  index : ℕ → Except DecodeError ℤ
  /-- A number of a SetNx or Counter response. -/
  wide : ℕ → ℤ
  /-- A varint read as a signed 64-bit number. -/
  int64 : ℕ → ℤ
  text : List UInt8 → Except DecodeError String
  codeName : ℤ → String
  missing : String
  absent : String

namespace Dialect

variable (d : Dialect)

def readNumber (r : Reader) : Except DecodeError (ℤ × Reader) := do
  let (n, r) ← d.readVarint r
  let v ← d.number n
  .ok (v, r)

def readText (r : Reader) : Except DecodeError (String × Reader) := do
  let (bs, r) ← d.readLD r
  let s ← d.text bs
  .ok (s, r)

def decodeValueResponse (bs : List UInt8) : Except DecodeError ClientResponse := do
  let (key, value, version) ← d.fields (fun tag r (key, value, version) =>
    match tag with
    | (1, 2) => some do
      let (key, r) ← d.readText r
      .ok ((key, value, version), r)
    | (2, 2) => some do
      let (value, r) ← d.readLD r
      .ok ((key, value, version), r)
    | (3, 0) => some do
      let (version, r) ← d.readNumber r
      .ok ((key, value, version), r)
    | _ => none) bs ("", [], 0)
  .ok (.value key value version)

def decodeOkResponse (bs : List UInt8) : Except DecodeError ClientResponse := do
  let version ← d.fields (fun tag r (_ : ℤ) =>
    match tag with
    | (1, 0) => some (d.readNumber r)
    | _ => none) bs 0
  .ok (.ok version)

def decodeErrorResponse (bs : List UInt8) : Except DecodeError ClientResponse := do
  let (code, message) ← d.fields (fun tag r (code, message) =>
    match tag with
    | (1, 0) => some do
      let (n, r) ← d.readVarint r
      let code ← d.index n
      .ok ((code, message), r)
    | (2, 2) => some do
      let (message, r) ← d.readText r
      .ok ((code, message), r)
    | _ => none) bs ((0 : ℤ), "")
  .ok (.error (d.codeName code) message)

def decodeOptionalBytes (bs : List UInt8) : Except DecodeError (List UInt8) :=
  d.fields (fun tag r _ =>
    match tag with
    | (1, 2) => some (d.readLD r)
    | _ => none) bs []

def decodeWatchEvent (bs : List UInt8) : Except DecodeError ClientResponse := do
  let (key, value, version) ← d.fields (fun tag r (key, value, version) =>
    match tag with
    | (1, 2) => some do
      let (key, r) ← d.readText r
      .ok ((key, value, version), r)
    | (2, 2) => some do
      let (opt, r) ← d.readLD r
      let value ← d.decodeOptionalBytes opt
      .ok ((key, some value, version), r)
    | (3, 0) => some do
      let (version, r) ← d.readNumber r
      .ok ((key, value, version), r)
    | _ => none) bs ("", none, 0)
  .ok (.watchEvent key value version)

def decodeSetNxResponse (bs : List UInt8) : Except DecodeError ClientResponse := do
  let (created, version) ← d.fields (fun tag r (created, version) =>
    match tag with
    | (1, 0) => some do
      let (n, r) ← d.readVarint r
      .ok ((decide (n ≠ 0), version), r)
    | (2, 0) => some do
      let (n, r) ← d.readVarint r
      .ok ((created, d.wide n), r)
    | _ => none) bs (false, (0 : ℤ))
  .ok (.setNx created version)

def decodeCounterResponse (bs : List UInt8) : Except DecodeError ClientResponse := do
  let (value, version) ← d.fields (fun tag r (value, version) =>
    match tag with
    | (1, 0) => some do
      let (n, r) ← d.readVarint r
      .ok ((d.int64 n, version), r)
    | (2, 0) => some do
      let (n, r) ← d.readVarint r
      .ok ((value, d.wide n), r)
    | _ => none) bs ((0 : ℤ), (0 : ℤ))
  .ok (.counter value version)

def decodeCount (bs : List UInt8) : Except DecodeError ℤ :=
  d.fields (fun tag r (_ : ℤ) =>
    match tag with
    | (1, 0) => some (d.readNumber r)
    | _ => none) bs 0

/-- The decoder of the variant with a field number. -/
def decodeVariant (field : ℕ) (inner : List UInt8) :
    Option (Except DecodeError ClientResponse) :=
  match field with
  | 1 => some (d.decodeValueResponse inner)
  | 2 => some (d.decodeOkResponse inner)
  | 3 => some (.ok .deleted)
  | 4 => some (.ok .notFound)
  | 5 => some (.ok .pong)
  | 6 => some (.ok .authOk)
  | 7 => some (d.decodeErrorResponse inner)
  | 8 => some (.ok .watching)
  | 9 => some (.ok .unwatched)
  | 10 => some (d.decodeWatchEvent inner)
  | 11 => some ((d.decodeCount inner).map .patternDeleted)
  | 12 => some ((d.decodeCount inner).map .patternTtlUpdated)
  | 13 => some (d.decodeSetNxResponse inner)
  | 14 => some (d.decodeCounterResponse inner)
  | _ => none

/-- Decode an envelope with a client response. -/
def decodeResponse : Decoder := fun bs => do
  let (version, response) ← d.fields (fun tag r (version, response) =>
    match tag with
    | (1, 0) => some do
      let (version, r) ← d.readNumber r
      .ok ((version, response), r)
    | (3, 2) => some do
      let (response, r) ← d.readLD r
      .ok ((version, some response), r)
    | _ => none) bs ((0 : ℤ), none)
  if version ≠ 0 ∧ version ≠ 1 then
    .error (.malformed s!"unsupported protocol version: {version}")
  else
    match response with
    | none => .error (.malformed d.missing)
    | some response => d.oneof d.decodeVariant d.absent response

end Dialect

/-- The names of the error codes, by index. -/
def errorCodeNames : List String :=
  ["NodeInactive", "NoQuorum", "KeyNotFound", "InternalError", "WriteTimeout",
    "ValueTooLarge", "KeyLimitReached", "RateLimited", "CircuitOpen",
    "NamespaceQuotaExceeded", "AuthFailed", "UnsupportedRequest", "TypeMismatch",
    "Overflow"]

/-- The name of the error code with an index in a table. -/
def codeNameIn (names : List String) (index : ℤ) : String :=
  if 0 ≤ index then names.getD index.toNat "InternalError" else "InternalError"

/-- The two's complement reading of a 64-bit number. -/
def signed64 (n : ℕ) : ℤ :=
  if n < 2 ^ 63 then n else (n : ℤ) - 2 ^ 64

/-- Add bits to an unbounded number. -/
def orShifted (result shift bits : ℕ) : ℕ :=
  result ||| (bits <<< shift)

/-- The check that a length-delimited field is there completely. -/
def checkedLength (size off n : ℕ) : Except DecodeError ℕ :=
  if size < off + n then .error (.malformed "truncated length-delimited field") else .ok n

/-- The Python decoder: integers are unbounded, and text must be valid UTF-8. -/
def pythonDialect : Dialect where
  accumulate result shift bits := .ok (orShifted result shift bits)
  splitTag t := .ok (t / 8, t % 8)
  fieldLength := checkedLength
  skipChecked := false
  number n := .ok n
  index n := .ok n
  wide n := n
  int64 := signed64
  text bs := match utf8? bs with
    | some s => .ok s
    | none => .error (.malformed "invalid utf-8")
  codeName := codeNameIn errorCodeNames
  missing := "Envelope is missing client_response payload"
  absent := "ClientResponse oneof has no active field"

/-- The largest integer below which a double holds every integer. -/
def maxSafeInteger : ℕ := 2 ^ 53 - 1

/-- A number that has to be held in a double. -/
def asNumber (n : ℕ) : Except DecodeError ℕ :=
  if maxSafeInteger < n then
    .error (.malformed s!"varint {n} exceeds Number.MAX_SAFE_INTEGER")
  else .ok n

/-- The Node.js decoder: tags, lengths, versions, counts and indices are doubles, the
numbers of SetNx and Counter responses are bigints, and a tag is shifted as an unsigned
32-bit number. -/
def nodeDialect : Dialect where
  accumulate result shift bits := .ok (orShifted result shift bits)
  splitTag t := do
    let t ← asNumber t
    .ok (t % 2 ^ 32 / 8, t % 8)
  fieldLength size off n := do
    let n ← asNumber n
    checkedLength size off n
  skipChecked := false
  number n := (asNumber n).map Int.ofNat
  index n := (asNumber n).map Int.ofNat
  wide n := n
  int64 n := signed64 (n % 2 ^ 64)
  text bs := .ok (utf8Lossy bs)
  codeName := codeNameIn errorCodeNames
  missing := "Envelope is missing client_response payload"
  absent := "ClientResponse oneof has no active field"

/-- The Rust decoder: numbers are unsigned 64-bit, a tag is truncated to 32 bits. In a
build with overflow checks an eleventh byte of a varint overflows its shift; without them
the shift is taken modulo 64. An end of a field beyond the address space is a panic in
either. -/
def rustDialect (overflowChecks : Bool) : Dialect where
  accumulate result shift bits :=
    if shift < 64 then .ok (result ||| (bits <<< shift) % 2 ^ 64)
    else if overflowChecks then .error (.runtime "attempt to shift left with overflow")
    else .ok (result ||| (bits <<< (shift % 64)) % 2 ^ 64)
  splitTag t := .ok (t % 2 ^ 32 / 8, t % 8)
  fieldLength size off n :=
    if off + n < 2 ^ 64 then checkedLength size off n
    else .error (.runtime "slice index out of range")
  skipChecked := true
  number n := .ok n
  index n := .ok n
  wide n := n
  int64 := signed64
  text bs := .ok (utf8Lossy bs)
  codeName := codeNameIn (errorCodeNames.insertIdx 11 "AccessDenied")
  missing := "envelope is missing client_response payload"
  absent := "client_response oneof has no active field"

/-- The Go decoder: numbers are unsigned 64-bit, offsets and lengths are signed 64-bit. A
length is converted before it is added to the offset, so that an end from `2 ^ 63` on turns
negative, passes the check, and the slice expression panics. A shift of 64 or more leaves
nothing. A text is kept as it is; where it is no valid UTF-8, it is represented here with
its invalid parts replaced. -/
def goDialect : Dialect where
  accumulate result shift bits := .ok (result ||| (bits <<< shift) % 2 ^ 64)
  splitTag t := .ok (t / 8, t % 8)
  fieldLength size off n :=
    if off + n < 2 ^ 63 then checkedLength size off n
    else .error (.runtime "slice bounds out of range")
  skipChecked := false
  number n := .ok n
  index n := .ok n
  wide n := n
  int64 := signed64
  text bs := .ok (utf8Lossy bs)
  codeName := codeNameIn errorCodeNames
  missing := "envelope is missing client_response payload"
  absent := "ClientResponse oneof has no active field"

/-- A number that has to be held in a signed 32-bit integer. -/
def asInt (n : ℕ) : Except DecodeError ℕ :=
  if n < 2 ^ 31 then .ok n
  else .error (.malformed s!"varint out of int range: {signed64 n}")

/-- The Java decoder: numbers are signed 64-bit, field numbers, offsets, lengths and indices
are signed 32-bit. The end of a field is added up in 32 bits, so that one from `2 ^ 31` on
turns negative, passes the check, and copying runs over the end of the array. The shift of a
varint is taken modulo 64. -/
def javaDialect : Dialect where
  accumulate result shift bits := .ok (result ||| (bits <<< (shift % 64)) % 2 ^ 64)
  splitTag t := .ok (t / 8 % 2 ^ 32, t % 8)
  fieldLength size off n := do
    let n ← asInt n
    if off + n < 2 ^ 31 then checkedLength size off n
    else .error (.runtime "ArrayIndexOutOfBoundsException")
  skipChecked := false
  number n := .ok (signed64 n)
  index n := (asInt n).map Int.ofNat
  wide := signed64
  int64 := signed64
  text bs := .ok (utf8Lossy bs)
  codeName := codeNameIn errorCodeNames
  missing := "Envelope is missing client_response payload"
  absent := "ClientResponse oneof has no active field"

end Wire

end DittoClient
