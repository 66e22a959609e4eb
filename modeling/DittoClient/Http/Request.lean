import DittoClient.Http.Body
import DittoClient.Text.Path
import DittoClient.Text.Percent
import DittoClient.Wire.Encoder

/-!
# HTTP requests

What the HTTP clients send: a method, a path with a query, the header with the namespace and a
body. A JSON body is the value that is written as JSON. A key stands in a segment of the path, where
it is percent-encoded.
-/

namespace DittoClient

namespace Http

open DittoClient.Octets
open DittoClient.Text
open DittoClient.Wire

inductive Method
  | get
  | put
  | post
  | delete
  deriving DecidableEq, Repr

/-- The body of a request with its content type. -/
inductive Payload
  | raw (contentType : String) (bytes : List UInt8)
  /-- A JSON object, of the content type `application/json`. -/
  | json (members : List (String × Json))

structure HttpRequest where
  method : Method
  path : String
  /-- The header `X-Ditto-Namespace`. -/
  ns : Option String
  body : Option Payload

/-- A text in a segment of a path. -/
def encodeSegment (s : String) : String :=
  String.ofList (percentEncode unreserved (utf8Bytes s))

section Segments

variable {s t : String}

theorem toList_encodeSegment (s : String) :
    (encodeSegment s).toList = percentEncode unreserved (utf8Bytes s) :=
  String.toList_ofList

theorem percentDecode_encodeSegment (s : String) :
    percentDecode (encodeSegment s).toList = utf8Bytes s := by
  rw [toList_encodeSegment, percentDecode_encode unreserved_plain]

theorem utf8Bytes_inj (h : utf8Bytes s = utf8Bytes t) : s = t := by
  have hdecode : utf8? (utf8Bytes s) = some s := utf8?_chars s
  rw [h] at hdecode
  exact Option.some.inj (hdecode.symm.trans (utf8?_chars t))

theorem encodeSegment_inj (h : (encodeSegment s).toList = (encodeSegment t).toList) : s = t := by
  rw [toList_encodeSegment, toList_encodeSegment] at h
  exact utf8Bytes_inj (percentEncode_inj unreserved_plain h)

/-- An encoded text is one segment. -/
theorem segment_encodeSegment (s : String) : Segment (encodeSegment s).toList := by
  rw [toList_encodeSegment]
  exact ⟨not_mem_percentEncode (by decide) (by decide) _,
    not_mem_percentEncode (by decide) (by decide) _,
    not_mem_percentEncode (by decide) (by decide) _⟩

/-- Only the texts `.` and `..` are encoded as dot segments. -/
theorem dotSegment_encodeSegment : DotSegment (encodeSegment s).toList ↔ s = "." ∨ s = ".." := by
  constructor
  · rintro (h | h)
    · exact Or.inl (encodeSegment_inj (h.trans rfl))
    · exact Or.inr (encodeSegment_inj (h.trans rfl))
  · rintro (rfl | rfl)
    · exact Or.inl rfl
    · exact Or.inr rfl

end Segments

end Http

end DittoClient
