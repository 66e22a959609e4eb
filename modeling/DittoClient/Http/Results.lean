import DittoClient.Http.Errors
import DittoClient.Http.Request
import DittoClient.Text.Base64
import DittoClient.Text.Decimal
import DittoClient.Wire.Grammar

/-!
# What the HTTP clients return

All five clients look at the status of a response first and read their result out of the body if
it says so. They read the members of the body in their own ways, which are the fields of a
`ResultReader`: the parsers of Go and Rust check the types of the members, the others hand some of
them on as they are, and the numbers of Java and JavaScript are narrower than those of the server. A
text that is base64 for only some of the languages is not considered, and neither are the ways to
write a number other than by its decimal digits.
-/

namespace DittoClient

namespace Http

open DittoClient.Octets
open DittoClient.Text
open DittoClient.Wire

/-- What a client returns. A member that is handed on as it is may be any value, and is null if it
is not there. -/
inductive Outcome
  | bool (b : Bool)
  | missing
  | value (bytes : List UInt8) (version : Json)
  | version (version : Json)
  | created (created : Json) (version : ℤ)
  | counter (value version : ℤ)
  | count (n : Json)

/-- What the HTTP clients disagree on when they read a result. A client throws if there is none. -/
structure ResultReader where
  /-- Whether the body of a response to a ping is read. -/
  alive : Response → Bool
  pong : Json → Option Bool
  get : Json → Option Outcome
  set : Json → Option Outcome
  setNx : Json → Option Outcome
  incr : Json → Option Outcome
  deleteByPattern : Json → Option Outcome
  setTtlByPattern : Json → Option Outcome

namespace ResultReader

/-- A result in the body of a response that is a success. -/
def inBody (read : Json → Option Outcome) (h : Response) : Option Outcome :=
  if h.ok then h.json.bind read else none

/-- A result of an operation that not all servers know. -/
def inAtomic (read : Json → Option Outcome) (h : Response) : Option Outcome :=
  if h.status ∈ [400, 404, 501] then none else inBody read h

/-- What is returned for a response to a request. -/
def result (x : ResultReader) (r : Wire.Request) (h : Response) : Option Outcome :=
  match r with
  | .ping => if x.alive h then (h.json.bind x.pong).map .bool else some (.bool false)
  | .get _ _ => if h.status = 404 then some .missing else inBody x.get h
  | .set _ _ _ _ => inBody x.set h
  | .setNx _ _ _ _ => inAtomic x.setNx h
  | .incr _ _ _ _ => inAtomic x.incr h
  | .delete _ _ =>
      if h.status = 404 then some (.bool false)
      else if h.status = 204 then some (.bool true)
      else if h.ok then some (.bool true)
      else none
  | .deleteByPattern _ _ => inBody x.deleteByPattern h
  | .setTtlByPattern _ _ _ => inBody x.setTtlByPattern h
  | _ => none

end ResultReader

/-- A member that is true, and nothing else that counts as true. -/
def isTrue : Option Json → Bool
  | some (.bool b) => b
  | _ => false

/-- The members of an object. -/
def Json.members : Json → Option (List (String × Json))
  | .object members => some members
  | _ => none

/-- A number without a fraction. -/
def Json.integral : Json → Option ℤ
  | .number q => if q.den = 1 then some q.num else none
  | _ => none

/-- The whole number between a number and zero that is closest to it. -/
def truncate (q : ℚ) : ℤ :=
  q.num.tdiv q.den

namespace Python

/-- `data[name]` -/
def subscript (name : String) (json : Json) : Option Json :=
  json.members.bind (Json.lookup name)

/-- `int` -/
def int : Json → Option ℤ
  | .string s => signed? (trim pythonSpace s).toList
  | .number q => some (truncate q)
  | .bool b => some b.toNat
  | _ => none

/-- The value in the body of a `get`. -/
def valueBytes (members : List (String × Json)) : Option (List UInt8) :=
  let text := ((Json.lookup "value" members).bind Json.text?).map utf8Bytes
  match Json.lookup "value_base64" members with
  | some v => if v.truthy then v.text?.bind fun s => base64Decode s.toList else text
  | none => text

def results : ResultReader where
  alive h := decide (h.status = 200)
  pong json := json.members.map fun members => isTrue (Json.lookup "pong" members)
  get json := do
    let members ← json.members
    let value ← valueBytes members
    let version ← Json.lookup "version" members
    some (.value value version)
  set json := (subscript "version" json).map .version
  setNx json := do
    let created ← subscript "created" json
    let version ← (subscript "version" json).bind int
    some (.created (.bool created.truthy) version)
  incr json := do
    let value ← (subscript "value" json).bind int
    let version ← (subscript "version" json).bind int
    some (.counter value version)
  deleteByPattern json := (subscript "deleted" json).map .count
  setTtlByPattern json := (subscript "updated" json).map .count

end Python

namespace Go

/-- The members that are read into the fields of a structure. -/
def fields : Json → Option (List (String × Json))
  | .object members => some members
  | .null => some []
  | _ => none

/-- A field with its zero value. A null leaves it as it is. -/
def field {α : Type} (name : String) (read : Json → Option α) (zero : α)
    (members : List (String × Json)) : Option α :=
  (members.filter fun m => isField name m.1).foldl
    (fun v m => match m.2 with
      | .null => v
      | json => v.bind fun _ => read json) (some zero)

/-- A field of type `bool`. -/
def bool : Json → Option Bool
  | .bool b => some b
  | _ => none

/-- A field of type `uint64`. -/
def uint64 (json : Json) : Option ℤ :=
  json.integral.filter fun n => decide (0 ≤ n ∧ n < 2 ^ 64)

/-- `strconv.ParseUint` -/
def parseUint (s : String) : Option ℤ :=
  ((natural? s.toList).filter fun n => decide (n < 2 ^ 64)).map fun n => (n : ℤ)

/-- `strconv.ParseInt` -/
def parseInt (s : String) : Option ℤ :=
  (signed? s.toList).filter fun n => decide (-2 ^ 63 ≤ n ∧ n < 2 ^ 63)

/-- The value in the body of a `get`. -/
def valueBytes (value valueBase64 : String) : Option (List UInt8) :=
  if valueBase64 ≠ "" then base64Decode valueBase64.toList else some (utf8Bytes value)

def number (name : String) (json : Json) : Option Json := do
  let members ← fields json
  let n ← field name uint64 0 members
  some (.number n)

def results : ResultReader where
  alive h := decide (h.status = 200)
  pong json := (fields json).bind (field "pong" bool false)
  get json := do
    let members ← fields json
    let value ← field "value" Json.text? "" members
    let valueBase64 ← field "value_base64" Json.text? "" members
    let version ← field "version" uint64 0 members
    let bytes ← valueBytes value valueBase64
    some (.value bytes (.number version))
  set json := (number "version" json).map .version
  setNx json := do
    let members ← fields json
    let created ← field "created" bool false members
    let version ← (field "version" Json.text? "" members).bind parseUint
    some (.created (.bool created) version)
  incr json := do
    let members ← fields json
    let value ← (field "value" Json.text? "" members).bind parseInt
    let version ← (field "version" Json.text? "" members).bind parseUint
    some (.counter value version)
  deleteByPattern json := (number "deleted" json).map .count
  setTtlByPattern json := (number "updated" json).map .count

end Go

namespace Rust

/-- A member of an object, which must not occur twice. -/
def single (members : List (String × Json)) (name : String) : Option (Option Json) :=
  match members.filter fun m => decide (m.1 = name) with
  | [] => some none
  | [m] => some (some m.2)
  | _ => none

/-- The fields of a derived reader, which also takes them in an array. -/
def derived (names : List String) : Json → Option (List (Option Json))
  | .object members => names.mapM (single members)
  | .array items => if items.length = names.length then some (items.map some) else none
  | _ => none

/-- A field of type `u64`. -/
def u64 (json : Json) : Option ℤ :=
  json.integral.filter fun n => decide (0 ≤ n ∧ n < 2 ^ 64)

/-- A field of type `Option<String>` that may be left out. -/
def optional : Option Json → Option (Option String)
  | some json => optionString json
  | none => some none

def parseU64Field (raw : String) : Option ℤ :=
  ((unsigned? raw.toList).filter fun n => decide (n < 2 ^ 64)).map fun n => (n : ℤ)

def parseI64Field (raw : String) : Option ℤ :=
  (signed? raw.toList).filter fun n => decide (-2 ^ 63 ≤ n ∧ n < 2 ^ 63)

/-- The value in the body of a `get`. -/
def valueBytes (value valueBase64 : Option String) : Option (List UInt8) :=
  match present valueBase64 with
  | some s => base64Decode (trim whiteSpace s).toList
  | none => some (utf8Bytes (value.getD ""))

def number (name : String) (json : Json) : Option Json :=
  match derived [name] json with
  | some [some n] => (u64 n).map fun n : ℤ => .number n
  | _ => none

def results : ResultReader where
  alive h := decide (h.status = 200)
  pong json := match derived ["pong"] json with
    | some [some (.bool b)] => some b
    | _ => none
  get json := match derived ["value", "value_base64", "version"] json with
    | some [value, valueBase64, some version] => do
        let value ← optional value
        let valueBase64 ← optional valueBase64
        let version ← u64 version
        let bytes ← valueBytes value valueBase64
        some (.value bytes (.number version))
    | _ => none
  set json := (number "version" json).map .version
  setNx json := match derived ["created", "version"] json with
    | some [some (.bool created), some (.string version)] =>
        (parseU64Field version).map fun version => .created (.bool created) version
    | _ => none
  incr json := match derived ["value", "version"] json with
    | some [some (.string value), some (.string version)] => do
        let value ← parseI64Field value
        let version ← parseU64Field version
        some (.counter value version)
    | _ => none
  deleteByPattern json := (number "deleted" json).map .count
  setTtlByPattern json := (number "updated" json).map .count

end Rust

namespace Java

/-- A cast to `String`, which null passes. -/
def castString : Option Json → Option (Option String)
  | none => some none
  | some .null => some none
  | some (.string s) => some (some s)
  | some _ => none

/-- `longValue` of a number: the last 64 bits of a whole one, and the closest `long` otherwise. -/
def longValue : Json → Option ℤ
  | .number q =>
      some (if q.den = 1 then signed64 (q.num % 2 ^ 64).toNat
        else max (-2 ^ 63) (min (2 ^ 63 - 1) (truncate q)))
  | _ => none

/-- A number that is cast to `Number`. -/
def number (name : String) (json : Json) : Option Json :=
  ((json.members.bind (Json.lookup name)).bind longValue).map fun n : ℤ => .number n

/-- `Long.parseLong` of what `String.valueOf` makes of a member. -/
def parseLong (json : Option Json) : Option ℤ :=
  let n := match json with
    | some (.string s) => signed? s.toList
    | some json => json.integral
    | none => none
  n.filter fun n => decide (-2 ^ 63 ≤ n ∧ n < 2 ^ 63)

/-- The value in the body of a `get`. -/
def valueBytes (members : List (String × Json)) : Option (List UInt8) := do
  let valueBase64 ← castString (Json.lookup "value_base64" members)
  let value ← castString (Json.lookup "value" members)
  match valueBase64.filter fun s => !blank javaSpace s with
  | some s => base64Decode s.toList
  | none => value.map utf8Bytes

def results : ResultReader where
  alive h := decide (h.status = 200)
  pong json := json.members.map fun members => isTrue (Json.lookup "pong" members)
  get json := do
    let members ← json.members
    let version ← number "version" json
    let value ← valueBytes members
    some (.value value version)
  set json := (number "version" json).map .version
  setNx json := do
    let members ← json.members
    let version ← parseLong (Json.lookup "version" members)
    some (.created (.bool (isTrue (Json.lookup "created" members))) version)
  incr json := do
    let members ← json.members
    let value ← parseLong (Json.lookup "value" members)
    let version ← parseLong (Json.lookup "version" members)
    some (.counter value version)
  deleteByPattern json := (number "deleted" json).map .count
  setTtlByPattern json := (number "updated" json).map .count

end Java

namespace Node

/-- A natural number as a double holds it: with 53 bits, rounded to the nearest, and to the one that
ends with a 0 if there are two. -/
def double (n : ℕ) : ℕ :=
  let unit := 2 ^ (Nat.log2 n - 52)
  if unit < 2 * (n % unit) ∨ (unit = 2 * (n % unit) ∧ n / unit % 2 = 1) then (n / unit + 1) * unit
  else n / unit * unit

/-- What `JSON.parse` makes of a value. A number with a fraction is left as it is. -/
def parsed : Json → Json
  | .number q =>
      if q.den = 1 then .number (q.num.sign * double q.num.natAbs : ℤ) else .number q
  | json => json

/-- The members of a value that is not null. -/
def properties : Json → Option (List (String × Json))
  | .object members => some members
  | .null => none
  | _ => some []

/-- A member that is handed on. -/
def property (name : String) (members : List (String × Json)) : Json :=
  ((Json.lookup name members).map parsed).getD .null

/-- `BigInt` -/
def bigInt : Option Json → Option ℤ
  | some (.string s) =>
      if trim nodeSpace s = "" then some 0 else signed? (trim nodeSpace s).toList
  | some (.bool b) => some b.toNat
  | some json => (parsed json).integral
  | none => none

/-- The value in the body of a `get`. A body with something else than texts is not considered. -/
def valueBytes (members : List (String × Json)) : Option (List UInt8) :=
  let text := (orElse (Json.lookup "value" members) (.string "")).text?.map utf8Bytes
  match Json.lookup "value_base64" members with
  | some v => if v.nodeTruthy then v.text?.bind fun s => base64Decode s.toList else text
  | none => text

def number (name : String) (json : Json) : Option Json :=
  (properties json).map (property name)

def results : ResultReader where
  alive h := h.ok
  pong json := (properties json).map fun members => isTrue (Json.lookup "pong" members)
  get json := do
    let members ← properties json
    let value ← valueBytes members
    some (.value value (property "version" members))
  set json := (number "version" json).map .version
  setNx json := do
    let members ← properties json
    let version ← bigInt (Json.lookup "version" members)
    some (.created (property "created" members) version)
  incr json := do
    let members ← properties json
    let value ← bigInt (Json.lookup "value" members)
    let version ← bigInt (Json.lookup "version" members)
    some (.counter value version)
  deleteByPattern json := (number "deleted" json).map .count
  setTtlByPattern json := (number "updated" json).map .count

end Node

/-- The results of a client. -/
def results : Wire.Sdk → ResultReader
  | .python => Python.results
  | .go => Go.results
  | .rust => Rust.results
  | .java => Java.results
  | .node => Node.results

end Http

end DittoClient
