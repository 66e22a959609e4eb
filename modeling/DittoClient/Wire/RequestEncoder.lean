import DittoClient.Octets.BigEndian
import DittoClient.Text.Space
import DittoClient.Wire.Encoder

/-!
# Request encoders

The five request encoders write the same fields with the same numbers in the same order. They
differ in the integer types that a varint is written from, in what they take for a space, in
the arguments that have a default and in the length prefix, which are the fields of a
`RequestEncoder`. Numbers come as integers; an encoder with a fixed-width number type takes
them by their bit pattern.
-/

namespace DittoClient

namespace Wire

open DittoClient.Octets
open DittoClient.Protobuf
open DittoClient.Text

/-- How an encoder fails. -/
inductive EncodeError
  | negativeVarint
  | frameTooLong
  | missingArgument (name : String)
  deriving DecidableEq, Repr

/-- The bytes that are written. -/
abbrev Written := Except EncodeError (List UInt8)

/-- What the request encoders of the clients disagree on. -/
structure RequestEncoder where
  varint : ℤ → Written
  /-- The varint of an `int64`, which is written also when it is negative. -/
  int64 : ℤ → Written
  space : Char → Bool
  /-- The lifetime that is handed to the encoder. -/
  ttl : Option ℤ → Option ℤ
  /-- The increment that is handed to the encoder. -/
  delta : Option ℤ → Except EncodeError (Option ℤ)
  lengthPrefix : ℕ → Written

/-- What is written one after the other. -/
def join : List Written → Written
  | [] => .ok []
  | w :: ws => do
      let bs ← w
      let rest ← join ws
      .ok (bs ++ rest)

namespace RequestEncoder

variable (e : RequestEncoder)

def tag (field wire : ℕ) : Written :=
  e.varint ((field * 8 + wire : ℕ) : ℤ)

/-- A length-delimited field, also when it is empty. -/
def ldFieldAlways (field : ℕ) (payload : List UInt8) : Written :=
  join [e.tag field 2, e.varint payload.length, .ok payload]

def ldField (field : ℕ) (payload : List UInt8) : Written :=
  if payload = [] then .ok [] else e.ldFieldAlways field payload

def stringField (field : ℕ) (value : String) : Written :=
  if value = "" then .ok [] else e.ldFieldAlways field (utf8Bytes value)

def bytesField (field : ℕ) (value : List UInt8) : Written :=
  if value = [] then .ok [] else e.ldFieldAlways field value

def uint64Field (field : ℕ) (value : ℤ) : Written :=
  if value = 0 then .ok [] else join [e.tag field 0, e.varint value]

/-- A signed number, also when it is zero. -/
def int64Field (field : ℕ) (value : ℤ) : Written :=
  join [e.tag field 0, e.int64 value]

def enumField (field : ℕ) (value : ℤ) : Written :=
  e.uint64Field field value

def encodeOptionalString (value : String) : Written :=
  e.stringField 1 value

def encodeOptionalUint64 (value : ℤ) : Written :=
  e.uint64Field 1 value

def hasNamespace : Option String → Bool
  | none => false
  | some ns => !blank e.space ns

/-- The namespace of a request, left out when it is absent or blank. -/
def namespaceField (field : ℕ) (ns : Option String) : Written :=
  if e.hasNamespace ns then do
    let opt ← e.encodeOptionalString (ns.getD "")
    e.ldField field opt
  else .ok []

/-- The lifetime of a request, left out when it is absent or zero. -/
def ttlField (field : ℕ) : Option ℤ → Written
  | none => .ok []
  | some ttl =>
      if 0 < ttl then do
        let opt ← e.encodeOptionalUint64 ttl
        e.ldField field opt
      else .ok []

/-- The increment of a request. -/
def deltaField (field : ℕ) : Option ℤ → Written
  | none => .ok []
  | some delta => e.int64Field field delta

def encodeKeyNamespace (key : String) (ns : Option String) : Written :=
  join [e.stringField 1 key, e.namespaceField 2 ns]

def encodePatternNamespace (pattern : String) (ns : Option String) : Written :=
  join [e.stringField 1 pattern, e.namespaceField 2 ns]

def encodeSetRequest (key : String) (value : List UInt8) (ttlSecs : Option ℤ)
    (ns : Option String) : Written :=
  join [e.stringField 1 key, e.bytesField 2 value, e.ttlField 3 ttlSecs, e.namespaceField 4 ns]

def encodeIncrRequest (key : String) (delta ttlSecsOnCreate : Option ℤ) (ns : Option String) :
    Written :=
  join [e.stringField 1 key, e.deltaField 2 delta, e.ttlField 3 ttlSecsOnCreate,
    e.namespaceField 4 ns]

def encodeSetTtlByPatternRequest (pattern : String) (ttlSecs : Option ℤ) (ns : Option String) :
    Written :=
  join [e.stringField 1 pattern, e.ttlField 2 ttlSecs, e.namespaceField 3 ns]

def encodeAuthRequest (token : String) : Written :=
  e.stringField 1 token

/-- The variant of a request and its message. -/
def encodeInner : Request → ℕ × Written
  | .get key ns => (1, e.encodeKeyNamespace key ns)
  | .set key value ttlSecs ns => (2, e.encodeSetRequest key value ttlSecs ns)
  | .delete key ns => (3, e.encodeKeyNamespace key ns)
  | .ping => (4, .ok [])
  | .auth token => (5, e.encodeAuthRequest token)
  | .watch key ns => (6, e.encodeKeyNamespace key ns)
  | .unwatch key ns => (7, e.encodeKeyNamespace key ns)
  | .deleteByPattern pattern ns => (8, e.encodePatternNamespace pattern ns)
  | .setTtlByPattern pattern ttlSecs ns => (9, e.encodeSetTtlByPatternRequest pattern ttlSecs ns)
  | .setNx key value ttlSecs ns => (10, e.encodeSetRequest key value ttlSecs ns)
  | .incr key delta ttlSecsOnCreate ns => (11, e.encodeIncrRequest key delta ttlSecsOnCreate ns)

/-- The request with the arguments that the encoder is called with. -/
def arguments : Request → Except EncodeError Request
  | .set key value ttlSecs ns => .ok (.set key value (e.ttl ttlSecs) ns)
  | .setTtlByPattern pattern ttlSecs ns => .ok (.setTtlByPattern pattern (e.ttl ttlSecs) ns)
  | .setNx key value ttlSecs ns => .ok (.setNx key value (e.ttl ttlSecs) ns)
  | .incr key delta ttlSecsOnCreate ns => do
      let delta ← e.delta delta
      .ok (.incr key delta (e.ttl ttlSecsOnCreate) ns)
  | r => .ok r

/-- The envelope around the variant of a request. -/
def envelope (variantField : ℕ) (inner : List UInt8) : Written := do
  let request ← e.ldFieldAlways variantField inner
  join [e.enumField 1 1, e.ldFieldAlways 2 request]

/-- The frame around an envelope. -/
def wrapClientRequest (variantField : ℕ) (inner : List UInt8) : Written := do
  let env ← e.envelope variantField inner
  let len ← e.lengthPrefix env.length
  .ok (len ++ env)

/-- Encode a request. -/
def encode (r : Request) : Written := do
  let r ← e.arguments r
  let inner ← (e.encodeInner r).2
  e.wrapClientRequest (e.encodeInner r).1 inner

end RequestEncoder

/-- The varint of an unbounded integer, which must not be negative. -/
def unboundedVarint (v : ℤ) : Written :=
  if v < 0 then .error .negativeVarint else .ok (encodeVarint v.toNat)

/-- The 4-byte length, of a number that has to fit. -/
def checkedPrefix (len : ℕ) : Written :=
  if len < 2 ^ 32 then .ok (bigEndian 4 len) else .error .frameTooLong

/-- The loop that writes an unsigned 64-bit number; each round shifts seven bits out, so that
ten rounds exhaust it. -/
def uint64VarintLoop : ℕ → UInt64 → List UInt8
  | 0, v => [v.toUInt8]
  | fuel + 1, v =>
      if v < 0x80 then [v.toUInt8]
      else (v.toUInt8 ||| 0x80) :: uint64VarintLoop fuel (v >>> 7)

def uint64Varint (v : UInt64) : List UInt8 :=
  uint64VarintLoop 10 v

/-- The loop that writes a `long`, which it shifts like an unsigned number. -/
def longVarintLoop : ℕ → UInt64 → List UInt8
  | 0, v => [v.toUInt8]
  | fuel + 1, v =>
      if v &&& ~~~0x7F = 0 then [v.toUInt8]
      else ((v &&& 0x7F) ||| 0x80).toUInt8 :: longVarintLoop fuel (v >>> 7)

/-- The varint of a `long`, which must not be negative. -/
def longVarint (v : Int64) : Written :=
  if v < 0 then .error .negativeVarint else .ok (longVarintLoop 10 v.toUInt64)

/-- The Python encoder: integers are unbounded, a lifetime is 0 and an increment 1 by
default. -/
def pythonEncoder : RequestEncoder where
  varint := unboundedVarint
  int64 v := unboundedVarint (v % 2 ^ 64)
  space := pythonSpace
  ttl t := some (t.getD 0)
  delta d := .ok (some (d.getD 1))
  lengthPrefix := checkedPrefix

/-- The Go encoder: an increment that is not given is left to the server. -/
def goEncoder : RequestEncoder where
  varint v := .ok (uint64Varint (UInt64.ofInt v))
  int64 v := .ok (uint64Varint (UInt64.ofInt v))
  space := whiteSpace
  ttl t := t
  delta d := .ok d
  lengthPrefix len := .ok (bigEndian 4 len)

/-- The Rust encoder: an increment must be given. -/
def rustEncoder : RequestEncoder where
  varint v := .ok (uint64Varint (UInt64.ofInt v))
  int64 v := .ok (uint64Varint (UInt64.ofInt v))
  space := whiteSpace
  ttl t := t
  delta d := match d with
    | some d => .ok (some d)
    | none => .error (.missingArgument "delta")
  lengthPrefix len := .ok (bigEndian 4 len)

/-- The Java encoder: the overloads of the client with fewer arguments hand it a lifetime of
0 and an increment of 1. -/
def javaEncoder : RequestEncoder where
  varint v := longVarint (Int64.ofInt v)
  int64 v := .ok (longVarintLoop 10 (Int64.ofInt v).toUInt64)
  space := javaSpace
  ttl t := some (t.getD 0)
  delta d := .ok (some (d.getD 1))
  lengthPrefix len := .ok (bigEndian 4 len)

/-- The Node.js encoder: varints are written from bigints. -/
def nodeEncoder : RequestEncoder where
  varint := unboundedVarint
  int64 v := unboundedVarint (v % 2 ^ 64)
  space := nodeSpace
  ttl t := t
  delta d := .ok d
  lengthPrefix := checkedPrefix

end Wire

end DittoClient
