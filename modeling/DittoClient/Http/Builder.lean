import DittoClient.Http.PythonRequests
import DittoClient.Http.RustPaths
import DittoClient.Text.Escaping
import DittoClient.Text.Query

/-!
# The requests of the five HTTP clients

The HTTP clients send the same methods, paths and bodies. They differ in the characters that a key
keeps in its segment, in the header for a namespace, in the lifetimes and the increments that are
left out and in how an increment is written, which are the fields of a `RequestBuilder`.
-/

namespace DittoClient

namespace Http

open DittoClient.Octets
open DittoClient.Text
open DittoClient.Wire

/-- What the HTTP clients disagree on when they build a request. -/
structure RequestBuilder where
  /-- A key in a segment of a path. -/
  urlEncode : String → List Char
  namespaceHeader : Option String → Option String
  /-- The lifetime that is sent. -/
  ttl : Option ℤ → Option ℤ
  /-- The increment that is sent. There is no request if it has to be given and is not. -/
  delta : Option ℤ → Option (Option ℤ)
  deltaJson : ℤ → Json

/-- A lifetime in a query. -/
def ttlQuery (mark : String) : Option ℤ → String
  | some ttlSecs => mark ++ "ttl=" ++ toString ttlSecs
  | none => ""

/-- A number in a JSON object. -/
def member (name : String) (json : ℤ → Json) : Option ℤ → List (String × Json)
  | some n => [(name, json n)]
  | none => []

namespace RequestBuilder

variable (b : RequestBuilder)

/-- The path of an operation on a key. -/
def keyPath (key : String) : String :=
  "/key/" ++ String.ofList (b.urlEncode key)

/-- The request of an operation, if it is one of the HTTP client. -/
def request : Wire.Request → Option HttpRequest
  | .get key ns => some ⟨.get, b.keyPath key, b.namespaceHeader ns, none⟩
  | .set key value ttlSecs ns =>
      some ⟨.put, b.keyPath key ++ ttlQuery "?" (b.ttl ttlSecs), b.namespaceHeader ns,
        some (.raw "text/plain" value)⟩
  | .delete key ns => some ⟨.delete, b.keyPath key, b.namespaceHeader ns, none⟩
  | .ping => some ⟨.get, "/ping", none, none⟩
  | .deleteByPattern pattern ns =>
      some ⟨.post, "/keys/delete-by-pattern", b.namespaceHeader ns,
        some (.json [("pattern", .string pattern)])⟩
  | .setTtlByPattern pattern ttlSecs ns =>
      some ⟨.post, "/keys/ttl-by-pattern", b.namespaceHeader ns,
        some (.json (("pattern", .string pattern) ::
          member "ttl_secs" (fun n => .number n) (b.ttl ttlSecs)))⟩
  | .setNx key value ttlSecs ns =>
      some ⟨.post, b.keyPath key ++ "?nx=1" ++ ttlQuery "&" (b.ttl ttlSecs), b.namespaceHeader ns,
        some (.raw "application/octet-stream" value)⟩
  | .incr key delta ttlSecsOnCreate ns => do
      let delta ← b.delta delta
      some ⟨.post, b.keyPath key ++ "/incr", b.namespaceHeader ns,
        some (.json (member "delta" b.deltaJson delta ++
          member "ttl_secs_on_create" (fun n => .number n) (b.ttl ttlSecsOnCreate)))⟩
  | _ => none

end RequestBuilder

/-- A number that is positive. -/
def positive (n : Option ℤ) : Option ℤ :=
  n.filter fun n => decide (0 < n)

/-- An increment as a text, as most of the clients send it. -/
def deltaText (delta : ℤ) : Json :=
  .string (toString delta)

namespace Python

/-- The requests of the Python client. -/
def builder : RequestBuilder where
  urlEncode s := (urlEncode s).toList
  namespaceHeader := namespaceHeaders
  ttl t := positive (some (t.getD 0))
  delta d := some (some (d.getD 1))
  deltaJson := deltaText

end Python

namespace Go

/-- The characters that `url.PathEscape` keeps. -/
def plain (b : UInt8) : Bool :=
  unreserved b || decide (b ∈ [0x24, 0x26, 0x2B, 0x3A, 0x3D, 0x40])

def pathEscape (s : String) : List Char :=
  percentEncode plain (utf8Bytes s)

def namespaceHeaderValue (ns : String) : Option String :=
  let ns := trim whiteSpace ns
  if ns = "" then none else some ns

/-- The requests of the Go client, for which a lifetime of 0 is none. -/
def builder : RequestBuilder where
  urlEncode := pathEscape
  namespaceHeader ns := ns.bind namespaceHeaderValue
  ttl := positive
  delta d := d.map some
  deltaJson delta := .number delta

end Go

namespace Rust

/-- The requests of the Rust client. -/
def builder : RequestBuilder where
  urlEncode s := (urlEncode s).toList
  namespaceHeader := namespaceHeaderValue
  ttl := positive
  delta d := d.map some
  deltaJson := deltaText

end Rust

namespace Java

/-- The characters that `URLEncoder` keeps, a space apart. -/
def plain (b : UInt8) : Bool :=
  (unreserved b && decide (b ≠ 0x7E)) || decide (b = 0x2A)

/-- `URLEncoder.encode` writes a space as a plus sign. -/
def formEncode (s : String) : List Char :=
  (utf8Bytes s).flatMap fun b =>
    if b = 0x20 then ['+'] else if plain b then [Char.ofNat b.toNat] else percentByte b

def urlEncode (s : String) : List Char :=
  (formEncode s).flatMap fun c => if c = '+' then ['%', '2', '0'] else [c]

/-- The requests of the Java client. The namespace is sent with the spaces around it. -/
def builder : RequestBuilder where
  urlEncode := urlEncode
  namespaceHeader ns := ns.filter fun ns => !blank javaSpace ns
  ttl t := positive (some (t.getD 0))
  delta d := some (some (d.getD 1))
  deltaJson := deltaText

end Java

namespace Node

/-- The characters that `encodeURIComponent` keeps. -/
def plain (b : UInt8) : Bool :=
  unreserved b || decide (b ∈ [0x21, 0x2A, 0x27, 0x28, 0x29])

def encodeURIComponent (s : String) : List Char :=
  percentEncode plain (utf8Bytes s)

/-- The requests of the Node.js client. -/
def builder : RequestBuilder where
  urlEncode := encodeURIComponent
  namespaceHeader := trimmed nodeSpace
  ttl := positive
  delta := some
  deltaJson := deltaText

end Node

end Http

end DittoClient
