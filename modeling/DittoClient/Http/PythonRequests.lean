import DittoClient.Http.Request
import DittoClient.Wire.Grammar
import DittoClient.Wire.Namespaces

/-!
# Requests of the Python HTTP client

What the Python HTTP client sends for its operations, and what a server finds in it: the key in the
path, the pattern in the body and the namespace in its header. The key and the pattern are sent as
they are given, the namespace is trimmed.
-/

namespace DittoClient

namespace Http

open DittoClient.Octets
open DittoClient.Text
open DittoClient.Wire

namespace HttpRequest

/-- The key in a path below `/key`. -/
def key? (h : HttpRequest) : Option String :=
  match ((beforeQuery h.path.toList).splitOn '/').tail with
  | name :: segment :: _ =>
      if name = "key".toList then utf8? (percentDecode segment) else none
  | _ => none

/-- The pattern in a body. -/
def pattern? (h : HttpRequest) : Option String :=
  match h.body with
  | some (.json members) => (Json.lookup "pattern" members).bind Json.text?
  | _ => none

end HttpRequest

namespace Python

/-- `urllib.parse.quote` without safe characters. -/
def urlEncode (s : String) : String :=
  encodeSegment s

/-- The lifetime in a query, left out when it is not positive. -/
def ttlQuery (mark : String) (ttlSecs : ℤ) : String :=
  if 0 < ttlSecs then mark ++ "ttl=" ++ toString ttlSecs else ""

/-- The lifetime in a body, left out when it is not positive. -/
def ttlMember (name : String) (ttlSecs : ℤ) : List (String × Json) :=
  if 0 < ttlSecs then [(name, .number ttlSecs)] else []

/-- The request of an operation, if it is one of the HTTP client. -/
def request : Wire.Request → Option HttpRequest
  | .get key ns => some ⟨.get, "/key/" ++ urlEncode key, namespaceHeaders ns, none⟩
  | .set key value ttlSecs ns =>
      some ⟨.put, "/key/" ++ urlEncode key ++ ttlQuery "?" (ttlSecs.getD 0), namespaceHeaders ns,
        some (.raw "text/plain" value)⟩
  | .delete key ns => some ⟨.delete, "/key/" ++ urlEncode key, namespaceHeaders ns, none⟩
  | .ping => some ⟨.get, "/ping", none, none⟩
  | .deleteByPattern pattern ns =>
      some ⟨.post, "/keys/delete-by-pattern", namespaceHeaders ns,
        some (.json [("pattern", .string pattern)])⟩
  | .setTtlByPattern pattern ttlSecs ns =>
      some ⟨.post, "/keys/ttl-by-pattern", namespaceHeaders ns,
        some (.json (("pattern", .string pattern) :: ttlMember "ttl_secs" (ttlSecs.getD 0)))⟩
  | .setNx key value ttlSecs ns =>
      some ⟨.post, "/key/" ++ urlEncode key ++ "?nx=1" ++ ttlQuery "&" (ttlSecs.getD 0),
        namespaceHeaders ns, some (.raw "application/octet-stream" value)⟩
  | .incr key delta ttlSecsOnCreate ns =>
      some ⟨.post, "/key/" ++ urlEncode key ++ "/incr", namespaceHeaders ns,
        some (.json (("delta", .string (toString (delta.getD 1))) ::
          ttlMember "ttl_secs_on_create" (ttlSecsOnCreate.getD 0)))⟩
  | _ => none

/-- The request of an operation that passes the checks. -/
def send (strict : Bool) (r : Wire.Request) : Option HttpRequest :=
  match pythonValidators.validate strict r with
  | .ok () => request r
  | .error _ => none

section Found

variable {r : Wire.Request} {h : HttpRequest}

/-- A server finds the key in the second segment. -/
theorem key?_of_path (key : String) {segments : List (List Char)} {query : List Char}
    (hpath : h.path.toList =
      pathText ("key".toList :: (urlEncode key).toList :: segments) ++ query)
    (hsegments : ∀ s ∈ segments, Segment s) (hquery : IsQuery query) : h.key? = some key := by
  have hall : ∀ s ∈ "key".toList :: (urlEncode key).toList :: segments, Segment s :=
    List.forall_mem_cons.mpr ⟨⟨by decide, by decide, by decide⟩,
      List.forall_mem_cons.mpr ⟨segment_encodeSegment key, hsegments⟩⟩
  have hsplit : ((beforeQuery h.path.toList).splitOn '/').tail =
      "key".toList :: (urlEncode key).toList :: segments := by
    rw [hpath]
    exact splitOn_beforeQuery hall hquery
  rw [HttpRequest.key?, hsplit]
  change (if "key".toList = "key".toList then utf8? (percentDecode (encodeSegment key).toList)
    else none) = some key
  rw [if_pos rfl, percentDecode_encodeSegment]
  exact utf8?_chars key

theorem isQuery_ttlQuery (ttlSecs : ℤ) : IsQuery (ttlQuery "?" ttlSecs).toList := by
  intro c hc
  rw [ttlQuery] at hc
  split at hc
  · simpa using hc.symm
  · cases hc

/-- The key of an operation on a key is found. -/
theorem key?_request (hr : request r = some h) (hsubject : r.subject = some .key) :
    h.key? = some r.text := by
  have hempty : IsQuery [] := fun c hc => by cases hc
  cases r with
  | get key ns =>
      cases hr
      exact key?_of_path key (by simp [pathText]) (List.forall_mem_nil Segment) hempty
  | set key value ttlSecs ns =>
      cases hr
      exact key?_of_path key (by simp [pathText]) (List.forall_mem_nil Segment)
        (isQuery_ttlQuery (ttlSecs.getD 0))
  | delete key ns =>
      cases hr
      exact key?_of_path key (by simp [pathText]) (List.forall_mem_nil Segment) hempty
  | setNx key value ttlSecs ns =>
      cases hr
      have hquery : IsQuery ("?nx=1" ++ ttlQuery "&" (ttlSecs.getD 0)).toList := fun c hc => by
        simpa using hc.symm
      exact key?_of_path key (by simp [pathText]) (List.forall_mem_nil Segment) hquery
  | incr key delta ttlSecsOnCreate ns =>
      cases hr
      have hincr : Segment "incr".toList := ⟨by decide, by decide, by decide⟩
      exact key?_of_path key (by simp [pathText]) (List.forall_mem_singleton.mpr hincr) hempty
  | ping => cases hsubject
  | auth token => cases hsubject
  | deleteByPattern pattern ns => cases hsubject
  | setTtlByPattern pattern ttlSecs ns => cases hsubject
  | watch key ns => cases hr
  | unwatch key ns => cases hr

/-- The pattern of an operation on a pattern is found. -/
theorem pattern?_request (hr : request r = some h) (hsubject : r.subject = some .pattern) :
    h.pattern? = some r.text := by
  cases r with
  | deleteByPattern pattern ns =>
      cases hr
      rfl
  | setTtlByPattern pattern ttlSecs ns =>
      cases hr
      by_cases hpos : 0 < ttlSecs.getD 0 <;>
        simp [HttpRequest.pattern?, ttlMember, hpos, Json.lookup, Json.text?, Request.text]
  | _ => cases hsubject

theorem ns_request (hr : request r = some h) : h.ns = namespaceHeaders r.ns := by
  cases r with
  | auth token => cases hr
  | watch key ns => cases hr
  | unwatch key ns => cases hr
  | _ => cases hr; rfl

end Found

end Python

end Http

end DittoClient
