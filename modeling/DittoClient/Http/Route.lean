import DittoClient.Http.Builder
import DittoClient.Text.Decimal
import DittoClient.Text.Lower

/-!
# What a server reads in an HTTP request

A server finds an operation by the method and the segments of the path: the key is the second
segment, the lifetime a parameter of the query or a member of the body, and the namespace a header,
less the white space around it. What a client builds is read back as the request with the arguments
that were sent (`RequestBuilder.Faithful.read_request`).
-/

namespace DittoClient

namespace Http

open DittoClient.Octets
open DittoClient.Text
open DittoClient.Wire

/-- The white space around the value of a header, which is not part of it. -/
def headerSpace (c : Char) : Bool :=
  decide (c = ' ' ∨ c = '\t')

/-- An integer in a JSON value, which may also be a text. -/
def Json.integer? : Json → Option ℤ
  | .number q => if q.den = 1 then some q.num else none
  | .string s => Text.integer? s.toList
  | _ => none

/-- The text in a segment, which is not empty. -/
def segmentText (segment : String) : Option String :=
  (utf8? (percentDecode segment.toList)).filter fun s => decide (s ≠ "")

namespace HttpRequest

variable (h : HttpRequest)

/-- The segments of the path. -/
def segments : List String :=
  (((beforeQuery h.path.toList).splitOn '/').tail).map String.ofList

/-- A parameter of the query. -/
def parameter (name : String) : Option (List Char) :=
  (parameters (queryOf h.path.toList)).lookup name.toList

/-- The lifetime in the query, where 0 stands for none. -/
def queryTtl : Option ℤ :=
  positive ((h.parameter "ttl").bind Text.integer?)

/-- A member of a JSON body. -/
def bodyMember (name : String) : Option Json :=
  match h.body with
  | some (.json members) => Json.lookup name members
  | _ => none

/-- A number in a JSON body. -/
def bodyInteger (name : String) : Option ℤ :=
  (h.bodyMember name).bind Json.integer?

/-- The bytes of a body. -/
def bodyBytes : List UInt8 :=
  match h.body with
  | some (.raw _ bytes) => bytes
  | _ => []

/-- The namespace in its header. -/
def namespace? : Option String :=
  trimmed headerSpace h.ns

/-- The operation that is asked for. -/
def read : Option Wire.Request :=
  match h.method, h.segments with
  | .get, ["ping"] => some .ping
  | .get, ["key", s] => (segmentText s).map fun key => .get key h.namespace?
  | .put, ["key", s] =>
      (segmentText s).map fun key => .set key h.bodyBytes h.queryTtl h.namespace?
  | .delete, ["key", s] => (segmentText s).map fun key => .delete key h.namespace?
  | .post, ["key", s] =>
      if h.parameter "nx" = some ['1'] then
        (segmentText s).map fun key => .setNx key h.bodyBytes h.queryTtl h.namespace?
      else none
  | .post, ["key", s, "incr"] =>
      (segmentText s).map fun key => .incr key (h.bodyInteger "delta")
        (positive (h.bodyInteger "ttl_secs_on_create")) h.namespace?
  | .post, ["keys", "delete-by-pattern"] =>
      ((h.bodyMember "pattern").bind Json.text?).map fun pattern =>
        .deleteByPattern pattern h.namespace?
  | .post, ["keys", "ttl-by-pattern"] =>
      ((h.bodyMember "pattern").bind Json.text?).map fun pattern =>
        .setTtlByPattern pattern (positive (h.bodyInteger "ttl_secs")) h.namespace?
  | _, _ => none

end HttpRequest

/-- A lifetime in a query as a parameter. -/
def ttlParameters : Option ℤ → List Parameter
  | some ttlSecs => [("ttl".toList, (toString ttlSecs).toList)]
  | none => []

namespace RequestBuilder

variable (b : RequestBuilder)

/-- The request with the increment that is sent. -/
def arguments : Wire.Request → Option Wire.Request
  | .incr key delta ttlSecsOnCreate ns =>
      (b.delta delta).map fun delta => .incr key delta ttlSecsOnCreate ns
  | .auth _ => none
  | .watch _ _ => none
  | .unwatch _ _ => none
  | r => some r

/-- The request that a server should read. -/
def delivered (r : Wire.Request) : Option Wire.Request :=
  (b.arguments r).map (Request.change positive fun ns => trimmed headerSpace (b.namespaceHeader ns))

/-- The segments of an operation behind the key. -/
def suffix : Wire.Request → List String
  | .incr _ _ _ _ => ["incr"]
  | _ => []

/-- The parameters of an operation. -/
def query : Wire.Request → List Parameter
  | .set _ _ ttlSecs _ => ttlParameters (b.ttl ttlSecs)
  | .setNx _ _ ttlSecs _ => ("nx".toList, ['1']) :: ttlParameters (b.ttl ttlSecs)
  | _ => []

/-- A builder that escapes keys and writes numbers so that they can be read. -/
structure Faithful where
  segment : Escaping
  urlEncode : b.urlEncode = segment.encode
  ttl : ∀ t, b.ttl t = positive t
  deltaJson : ∀ n, (b.deltaJson n).integer? = some n

end RequestBuilder

section Paths

variable {h : HttpRequest} {path : List String} {ps : List Parameter}

/-- The segments and the parameters of a path that is written from them. -/
theorem segments_of_path (hpath : h.path.toList = pathText (path.map String.toList) ++ queryText ps)
    (hsegments : ∀ s ∈ path, Segment s.toList) : h.segments = path := by
  have hall : ∀ s ∈ path.map String.toList, Segment s := List.forall_mem_map.mpr hsegments
  rw [HttpRequest.segments, hpath, splitOn_beforeQuery hall (isQuery_queryText ps), List.map_map]
  calc path.map (String.ofList ∘ String.toList)
      = path.map id := List.map_congr_left fun s _ => String.ofList_toList
    _ = path := List.map_id path

theorem parameter_of_path
    (hpath : h.path.toList = pathText (path.map String.toList) ++ queryText ps)
    (hsegments : ∀ s ∈ path, Segment s.toList) (hps : ∀ p ∈ ps, p.Single) (name : String) :
    h.parameter name = ps.lookup name.toList := by
  have hall : ∀ s ∈ path.map String.toList, Segment s := List.forall_mem_map.mpr hsegments
  rw [HttpRequest.parameter, hpath, (before_pathText hall (isQuery_queryText ps)).2,
    parameters_queryText hps]

end Paths

section Queries

variable {t : Option ℤ}

theorem toList_ttlQuery (t : Option ℤ) : (ttlQuery "?" t).toList = queryText (ttlParameters t) := by
  cases t with
  | none => rfl
  | some n => simp [ttlQuery, ttlParameters, queryText]

theorem toList_nxQuery (t : Option ℤ) : ("?nx=1" ++ ttlQuery "&" t).toList =
    queryText (("nx".toList, ['1']) :: ttlParameters t) := by
  cases t with
  | none => rfl
  | some n => simp [ttlQuery, ttlParameters, queryText, List.intercalate]

theorem single_ttl : ∀ p ∈ ttlParameters t, p.Single := by
  cases t with
  | none => exact List.forall_mem_nil _
  | some n =>
      have hname : '=' ∉ "ttl".toList ∧ '&' ∉ "ttl".toList := by decide
      refine List.forall_mem_singleton.mpr ⟨hname.1, hname.2, fun hmem => ?_⟩
      rcases mem_toString_int hmem with h | h
      · exact absurd h (by decide)
      · exact absurd h (by decide)

theorem lookup_ttl (t : Option ℤ) :
    ((ttlParameters t).lookup "ttl".toList).bind Text.integer? = t := by
  cases t with
  | none => rfl
  | some n =>
      rw [ttlParameters, List.lookup_cons_self, Option.bind_some, integer?_toString]

end Queries

section Reading

theorem segmentText_encode (x : Escaping) {key : String} (hkey : key ≠ "") :
    segmentText (String.ofList (x.encode key)) = some key := by
  rw [segmentText, String.toList_ofList, x.utf8?_encode]
  exact Option.filter_eq_some_iff.mpr ⟨rfl, decide_eq_true hkey⟩

theorem positive_positive (t : Option ℤ) : positive (positive t) = positive t := by
  rw [positive, positive, Option.filter_filter]
  simp

/-- A number is read back from a member. -/
theorem integer?_number (n : ℤ) : Json.integer? (.number n) = some n := by
  rw [Json.integer?, if_pos (Rat.den_intCast n), Rat.num_intCast]

theorem integer?_deltaText (n : ℤ) : (deltaText n).integer? = some n :=
  integer?_toString n

theorem bind_map_integer? {json : ℤ → Json} (hjson : ∀ n, (json n).integer? = some n)
    (n : Option ℤ) : (n.map json).bind Json.integer? = n := by
  cases n with
  | none => rfl
  | some n => exact hjson n

end Reading

namespace RequestBuilder

variable {b : RequestBuilder} (hb : b.Faithful) {h : HttpRequest} {r : Wire.Request} {key : String}
include hb

theorem Faithful.toList_keyPath (key : String) : (b.keyPath key).toList =
    pathText (["key", String.ofList (hb.segment.encode key)].map String.toList) := by
  rw [keyPath, hb.urlEncode]
  simp [pathText]

/-- The path of an operation on a key. -/
theorem Faithful.path_request (hr : b.request r = some h) (hsubject : r.subject = some .key) :
    h.path.toList = pathText (("key" :: String.ofList (hb.segment.encode r.text) ::
      suffix r).map String.toList) ++ queryText (b.query r) := by
  have hkey := hb.toList_keyPath r.text
  cases r with
  | get key ns =>
      cases hr
      exact hkey.trans (List.append_nil _).symm
  | set key value ttlSecs ns =>
      cases hr
      rw [String.toList_append, toList_ttlQuery]
      exact congrArg (· ++ _) hkey
  | delete key ns =>
      cases hr
      exact hkey.trans (List.append_nil _).symm
  | setNx key value ttlSecs ns =>
      cases hr
      rw [String.append_assoc, String.toList_append, toList_nxQuery]
      exact congrArg (· ++ _) hkey
  | incr key delta ttlSecsOnCreate ns =>
      obtain ⟨sent, -, hr⟩ := Option.bind_eq_some_iff.mp hr
      cases hr
      rw [String.toList_append]
      refine (congrArg (· ++ "/incr".toList) hkey).trans ?_
      simp [pathText, queryText, suffix, query]
  | watch key ns => cases hr
  | unwatch key ns => cases hr
  | _ => cases hsubject

theorem Faithful.segment_request (r : Wire.Request) :
    ∀ s ∈ "key" :: String.ofList (hb.segment.encode r.text) :: suffix r, Segment s.toList := by
  refine List.forall_mem_cons.mpr ⟨⟨by decide, by decide, by decide⟩,
    List.forall_mem_cons.mpr ⟨?_, ?_⟩⟩
  · rw [String.toList_ofList]
    exact hb.segment.segment_encode r.text
  · cases r with
    | incr key delta ttlSecsOnCreate ns =>
        exact List.forall_mem_singleton.mpr ⟨by decide, by decide, by decide⟩
    | _ => exact List.forall_mem_nil _

omit hb in
theorem single_query (b : RequestBuilder) (r : Wire.Request) : ∀ p ∈ b.query r, p.Single := by
  cases r with
  | set key value ttlSecs ns => exact single_ttl
  | setNx key value ttlSecs ns =>
      exact List.forall_mem_cons.mpr ⟨⟨by decide, by decide, by decide⟩, single_ttl⟩
  | _ => exact List.forall_mem_nil _

/-- What a server finds in the path of an operation on a key. -/
theorem Faithful.segments_request (hr : b.request r = some h) (hsubject : r.subject = some .key) :
    h.segments = "key" :: String.ofList (hb.segment.encode r.text) :: suffix r ∧
      ∀ name, h.parameter name = (b.query r).lookup name.toList := by
  have hpath := hb.path_request hr hsubject
  exact ⟨segments_of_path hpath (hb.segment_request r),
    parameter_of_path hpath (hb.segment_request r) (single_query b r)⟩

omit hb in
/-- What a server finds in the path of an operation on a pattern. -/
theorem segments_pattern (operation : String) (hsegment : '/' ∉ operation.toList ∧
    '?' ∉ operation.toList ∧ '#' ∉ operation.toList)
    (hpath : h.path = "/keys/" ++ operation) : h.segments = ["keys", operation] := by
  have hall : ∀ s ∈ ["keys", operation], Segment s.toList :=
    List.forall_mem_cons.mpr ⟨⟨by decide, by decide, by decide⟩,
      List.forall_mem_singleton.mpr ⟨hsegment.1, hsegment.2.1, hsegment.2.2⟩⟩
  have hlist : h.path.toList =
      pathText (["keys", operation].map String.toList) ++ queryText [] := by
    rw [hpath]
    simp [pathText, queryText]
  exact segments_of_path hlist hall

/-- A server reads the request with the arguments that are sent. -/
theorem Faithful.read_request (hr : b.request r = some h)
    (hkey : r.subject = some .key → r.text ≠ "") : h.read = b.delivered r := by
  cases r with
  | get key ns =>
      have hne := hkey rfl
      obtain ⟨hseg, -⟩ := hb.segments_request hr rfl
      cases hr
      rw [HttpRequest.read, hseg]
      change (segmentText _).map _ = _
      rw [segmentText_encode _ hne]
      rfl
  | set key value ttlSecs ns =>
      have hne := hkey rfl
      obtain ⟨hseg, hparameter⟩ := hb.segments_request hr rfl
      have httl : h.queryTtl = positive ttlSecs := by
        rw [HttpRequest.queryTtl, hparameter, query, lookup_ttl, hb.ttl, positive_positive]
      cases hr
      rw [HttpRequest.read, hseg]
      change (segmentText _).map _ = _
      rw [segmentText_encode _ hne, httl]
      rfl
  | delete key ns =>
      have hne := hkey rfl
      obtain ⟨hseg, -⟩ := hb.segments_request hr rfl
      cases hr
      rw [HttpRequest.read, hseg]
      change (segmentText _).map _ = _
      rw [segmentText_encode _ hne]
      rfl
  | ping =>
      cases hr
      rfl
  | deleteByPattern pattern ns =>
      have hpattern : Json.lookup "pattern" [("pattern", .string pattern)] =
          some (.string pattern) := by simp [Json.lookup]
      cases hr
      rw [HttpRequest.read, segments_pattern "delete-by-pattern" (by decide) rfl]
      change ((Json.lookup "pattern" _).bind Json.text?).map _ = _
      rw [hpattern]
      rfl
  | setTtlByPattern pattern ttlSecs ns =>
      have hpattern : Json.lookup "pattern" (("pattern", .string pattern) ::
          member "ttl_secs" (fun n => .number n) (b.ttl ttlSecs)) = some (.string pattern) := by
        cases b.ttl ttlSecs <;> simp [Json.lookup, member]
      have httl : Json.lookup "ttl_secs" (("pattern", .string pattern) ::
          member "ttl_secs" (fun n => .number n) (b.ttl ttlSecs)) =
            (b.ttl ttlSecs).map fun n => .number n := by
        cases b.ttl ttlSecs <;> simp [Json.lookup, member]
      cases hr
      rw [HttpRequest.read, segments_pattern "ttl-by-pattern" (by decide) rfl]
      change ((Json.lookup "pattern" _).bind Json.text?).map
        (fun pattern => Wire.Request.setTtlByPattern pattern
          (positive ((Json.lookup "ttl_secs" _).bind Json.integer?)) _) = _
      rw [hpattern, httl, bind_map_integer? integer?_number, hb.ttl, positive_positive]
      rfl
  | setNx key value ttlSecs ns =>
      have hne := hkey rfl
      obtain ⟨hseg, hparameter⟩ := hb.segments_request hr rfl
      have hnx : h.parameter "nx" = some ['1'] := by
        rw [hparameter, query, List.lookup_cons_self]
      have httl : h.queryTtl = positive ttlSecs := by
        have hname : ("ttl".toList == "nx".toList) = false := by decide
        rw [HttpRequest.queryTtl, hparameter, query, List.lookup_cons, hname]
        change positive (((ttlParameters (b.ttl ttlSecs)).lookup "ttl".toList).bind integer?) = _
        rw [lookup_ttl, hb.ttl, positive_positive]
      cases hr
      rw [HttpRequest.read, hseg]
      change (if _ then (segmentText _).map _ else none) = _
      rw [if_pos hnx, segmentText_encode _ hne, httl]
      rfl
  | incr key delta ttlSecsOnCreate ns =>
      have hne := hkey rfl
      obtain ⟨hseg, -⟩ := hb.segments_request hr rfl
      obtain ⟨sent, hsent, hr⟩ := Option.bind_eq_some_iff.mp hr
      have hdelta : Json.lookup "delta" (member "delta" b.deltaJson sent ++
          member "ttl_secs_on_create" (fun n => .number n) (b.ttl ttlSecsOnCreate)) =
            sent.map b.deltaJson := by
        cases sent <;> cases b.ttl ttlSecsOnCreate <;> simp [Json.lookup, member]
      have httl : Json.lookup "ttl_secs_on_create" (member "delta" b.deltaJson sent ++
          member "ttl_secs_on_create" (fun n => .number n) (b.ttl ttlSecsOnCreate)) =
            (b.ttl ttlSecsOnCreate).map fun n => .number n := by
        cases sent <;> cases b.ttl ttlSecsOnCreate <;> simp [Json.lookup, member]
      cases hr
      rw [HttpRequest.read, hseg]
      change (segmentText _).map (fun key => Wire.Request.incr key
        ((Json.lookup "delta" _).bind Json.integer?)
        (positive ((Json.lookup "ttl_secs_on_create" _).bind Json.integer?)) _) = _
      rw [segmentText_encode _ hne, hdelta, httl, bind_map_integer? hb.deltaJson,
        bind_map_integer? integer?_number, hb.ttl, positive_positive, delivered, arguments, hsent]
      rfl
  | _ => cases hr

end RequestBuilder

end Http

end DittoClient
