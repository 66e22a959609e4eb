import Mathlib.Data.Int.Notation

/-!
# Requests and responses

The logical content of the two directions of the protocol. A `Request` is one call of a
request encoder with its arguments; there are eleven kinds. A `ClientResponse` is what a
response decoder returns; there are fourteen kinds. The five clients decode into the
same shape: where their integer types differ (unbounded in Python, unsigned 64-bit in
Go and Rust, signed 64-bit in Java, doubles and bigints in Node.js), the number is an
integer here and the range is the decoder's.
-/

namespace DittoClient

namespace Wire

/-- A call of one of the request encoders with its arguments. -/
inductive Request
  | get (key : String) (ns : Option String)
  | set (key : String) (value : List UInt8) (ttlSecs : Option ℤ) (ns : Option String)
  | delete (key : String) (ns : Option String)
  | ping
  | auth (token : String)
  | watch (key : String) (ns : Option String)
  | unwatch (key : String) (ns : Option String)
  | deleteByPattern (pattern : String) (ns : Option String)
  | setTtlByPattern (pattern : String) (ttlSecs : Option ℤ) (ns : Option String)
  | setNx (key : String) (value : List UInt8) (ttlSecs : Option ℤ) (ns : Option String)
  | incr (key : String) (delta : Option ℤ) (ttlSecsOnCreate : Option ℤ)
      (ns : Option String)
  deriving DecidableEq, Repr

/-- Whether a request is the Auth request. -/
def Request.isAuth : Request → Bool
  | .auth _ => true
  | _ => false

/-- A decoded response. -/
inductive ClientResponse
  | value (key : String) (value : List UInt8) (version : ℤ)
  | ok (version : ℤ)
  | deleted
  | notFound
  | pong
  | authOk
  | error (code message : String)
  | watching
  | unwatched
  | watchEvent (key : String) (value : Option (List UInt8)) (version : ℤ)
  | patternDeleted (deleted : ℤ)
  | patternTtlUpdated (updated : ℤ)
  | setNx (created : Bool) (version : ℤ)
  | counter (value version : ℤ)
  deriving DecidableEq, Repr

/-- The name the Node.js client has for the kind of a response. -/
def ClientResponse.typeName : ClientResponse → String
  | .value _ _ _ => "Value"
  | .ok _ => "Ok"
  | .deleted => "Deleted"
  | .notFound => "NotFound"
  | .pong => "Pong"
  | .authOk => "AuthOk"
  | .error _ _ => "Error"
  | .watching => "Watching"
  | .unwatched => "Unwatched"
  | .watchEvent _ _ _ => "WatchEvent"
  | .patternDeleted _ => "PatternDeleted"
  | .patternTtlUpdated _ => "PatternTtlUpdated"
  | .setNx _ _ => "SetNx"
  | .counter _ _ => "Counter"

end Wire

end DittoClient
