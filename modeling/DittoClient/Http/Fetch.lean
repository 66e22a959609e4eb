import DittoClient.Http.Route

/-!
# Requests behind a URL parser

The clients in Rust and JavaScript hand a URL to a parser, which removes dot segments from its path
before the request is sent; the others send the path as it is. Since a dot is not escaped, the keys
`.` and `..` do not reach the server. What is sent is read back as the request that was asked for
if and only if the key is not empty and, behind a parser, neither `.` nor `..`
(`Faithful.read_fetch_iff`).
-/

namespace DittoClient

namespace Http

open DittoClient.Octets
open DittoClient.Text
open DittoClient.Wire

/-- A path without its dot segments. -/
def parsedPath (path : String) : String :=
  String.ofList (pathText (addressed path.toList) ++ queryOf path.toList)

/-- What is sent, if there is a parser or not. -/
def HttpRequest.fetch (parser : Bool) (h : HttpRequest) : HttpRequest :=
  if parser then { h with path := parsedPath h.path } else h

/-- A key that reaches the server. -/
def Reaches (parser : Bool) (key : String) : Prop :=
  key ≠ "" ∧ (parser = true → key ≠ "." ∧ key ≠ "..")

section Reading

variable {h : HttpRequest} {rest : List String} {s : String}

/-- No operation has an empty key. -/
theorem read_of_empty_key (hseg : h.segments = "key" :: "" :: rest) : h.read = none := by
  have hempty : segmentText "" = none := by decide
  rw [HttpRequest.read, hseg]
  split <;> simp_all

/-- No operation on a key has a path of one segment. -/
theorem read_of_single (hseg : h.segments = [s]) (hping : s ≠ "ping") : h.read = none := by
  rw [HttpRequest.read, hseg]
  split <;> simp_all

/-- An increment of no key is no other operation. -/
theorem read_of_incr (hseg : h.segments = ["key", "incr"]) (hmethod : h.method = .post)
    (hnx : h.parameter "nx" = none) : h.read = none := by
  rw [HttpRequest.read, hseg, hmethod]
  simp [hnx]

end Reading

section Parsing

variable {path : List String} {ps : List Parameter} {h : HttpRequest}

/-- What the parser makes of a path that is written from segments and parameters. -/
theorem segments_parsed (hpath : h.path.toList = pathText (path.map String.toList) ++ queryText ps)
    (hsegments : ∀ s ∈ path, Segment s.toList) (hps : ∀ p ∈ ps, p.Single) {kept : List String}
    (hkept : removeDots [] (path.map String.toList) = kept.map String.toList)
    (hkeptsegments : ∀ s ∈ kept, Segment s.toList) :
    (h.fetch true).segments = kept ∧
      ∀ name, (h.fetch true).parameter name = ps.lookup name.toList := by
  have hall : ∀ s ∈ path.map String.toList, Segment s := List.forall_mem_map.mpr hsegments
  have hquery := isQuery_queryText ps
  have haddressed : addressed h.path.toList = kept.map String.toList := by
    rw [addressed, hpath, splitOn_beforeQuery hall hquery, hkept]
  have hparsed : (h.fetch true).path.toList =
      pathText (kept.map String.toList) ++ queryText ps := by
    change (parsedPath h.path).toList = _
    rw [parsedPath, String.toList_ofList, haddressed, hpath, (before_pathText hall hquery).2]
  exact ⟨segments_of_path hparsed hkeptsegments, parameter_of_path hparsed hkeptsegments hps⟩

/-- A path without dot segments is left as it is. -/
theorem fetch_of_not_dot (hpath : h.path.toList = pathText (path.map String.toList) ++ queryText ps)
    (hsegments : ∀ s ∈ path, Segment s.toList) (hdots : ∀ s ∈ path, ¬ DotSegment s.toList)
    (parser : Bool) : h.fetch parser = h := by
  obtain ⟨haddressed, hquery⟩ := addressed_pathText (List.forall_mem_map.mpr hsegments)
    (isQuery_queryText ps) (List.forall_mem_map.mpr hdots)
  have hparsed : parsedPath h.path = h.path := by
    rw [parsedPath, hpath, haddressed, hquery, ← hpath, String.ofList_toList]
  cases parser with
  | false => rfl
  | true =>
      change { h with path := parsedPath h.path } = h
      rw [hparsed]

end Parsing

namespace RequestBuilder

variable {b : RequestBuilder} {h : HttpRequest} {r : Wire.Request}

/-- There is a request to deliver if there is one to send. -/
theorem delivered_ne_none (hr : b.request r = some h) : b.delivered r ≠ none := by
  cases r with
  | incr key delta ttlSecsOnCreate ns =>
      obtain ⟨sent, hsent, -⟩ := Option.bind_eq_some_iff.mp hr
      rw [delivered, arguments, hsent]
      exact Option.some_ne_none _
  | auth token => cases hr
  | watch key ns => cases hr
  | unwatch key ns => cases hr
  | _ => exact Option.some_ne_none _

/-- A parser leaves the fixed paths as they are. -/
theorem fetch_of_other (hr : b.request r = some h) (hsubject : r.subject ≠ some .key)
    (parser : Bool) : h.fetch parser = h := by
  have hfixed : ∀ path : List String, h.path.toList =
      pathText (path.map String.toList) ++ queryText [] →
      path ∈ [["ping"], ["keys", "delete-by-pattern"], ["keys", "ttl-by-pattern"]] →
        h.fetch parser = h := by
    intro path hpath hmem
    have hall : ∀ path ∈ [["ping"], ["keys", "delete-by-pattern"], ["keys", "ttl-by-pattern"]],
        ∀ s ∈ path, ('/' ∉ s.toList ∧ '?' ∉ s.toList ∧ '#' ∉ s.toList) ∧
          ¬ DotSegment s.toList := by decide
    refine fetch_of_not_dot hpath (fun s hs => ?_) (fun s hs => (hall path hmem s hs).2) parser
    obtain ⟨⟨hslash, hmark, hhash⟩, -⟩ := hall path hmem s hs
    exact ⟨hslash, hmark, hhash⟩
  cases r with
  | ping => exact hfixed ["ping"] (by cases hr; rfl) (by simp)
  | deleteByPattern pattern ns =>
      exact hfixed ["keys", "delete-by-pattern"] (by cases hr; simp [pathText, queryText])
        (by simp)
  | setTtlByPattern pattern ttlSecs ns =>
      exact hfixed ["keys", "ttl-by-pattern"] (by cases hr; simp [pathText, queryText]) (by simp)
  | auth token => cases hr
  | _ => exact absurd rfl hsubject

variable (hb : b.Faithful)
include hb

/-- A parser leaves the path of a key as it is that is no dot segment. -/
theorem Faithful.fetch_of_key (hr : b.request r = some h) (hsubject : r.subject = some .key)
    (hdot : r.text ≠ "." ∧ r.text ≠ "..") (parser : Bool) : h.fetch parser = h := by
  refine fetch_of_not_dot (hb.path_request hr hsubject) (hb.segment_request r) ?_ parser
  refine List.forall_mem_cons.mpr ⟨by decide, List.forall_mem_cons.mpr ⟨?_, ?_⟩⟩
  · rw [String.toList_ofList]
    exact fun hsegment => (hb.segment.dotSegment_encode.mp hsegment).elim hdot.1 hdot.2
  · cases r with
    | incr key delta ttlSecsOnCreate ns => exact List.forall_mem_singleton.mpr (by decide)
    | _ => exact List.forall_mem_nil _

/-- An empty key reaches no operation. -/
theorem Faithful.read_of_empty (hr : b.request r = some h) (hsubject : r.subject = some .key)
    (hempty : r.text = "") (parser : Bool) : (h.fetch parser).read = none := by
  have hseg := (hb.segments_request hr hsubject).1
  have hencode : String.ofList (hb.segment.encode r.text) = "" := by
    rw [hempty]
    rfl
  rw [hencode] at hseg
  rw [hb.fetch_of_key hr hsubject (by rw [hempty]; decide)]
  exact read_of_empty_key hseg

/-- What is left of the path of an operation on a dot segment. -/
theorem Faithful.segments_of_dot (hr : b.request r = some h) (hsubject : r.subject = some .key)
    {key : List Char} (hkey : hb.segment.encode r.text = key) (kept : List String)
    (hkept : removeDots [] ("key".toList :: key :: (suffix r).map String.toList) =
      kept.map String.toList) (hsegments : ∀ s ∈ kept, Segment s.toList) :
    (h.fetch true).segments = kept ∧
      ∀ name, (h.fetch true).parameter name = (b.query r).lookup name.toList := by
  refine segments_parsed (hb.path_request hr hsubject) (hb.segment_request r) (single_query b r)
    ?_ hsegments
  have hlist : (String.ofList key).toList = key := String.toList_ofList
  rw [List.map_cons, List.map_cons, hkey, hlist, hkept]

/-- A dot segment reaches no operation behind a parser. -/
theorem Faithful.read_of_dot (hr : b.request r = some h) (hsubject : r.subject = some .key)
    (hdot : r.text = "." ∨ r.text = "..") : (h.fetch true).read = none := by
  have hempty : Segment "".toList := ⟨by decide, by decide, by decide⟩
  have hincr : Segment "incr".toList := ⟨by decide, by decide, by decide⟩
  have hname : Segment "key".toList := ⟨by decide, by decide, by decide⟩
  have hencode : hb.segment.encode r.text = ['.'] ∨ hb.segment.encode r.text = ['.', '.'] := by
    rcases hdot with hdot | hdot
    · exact Or.inl (hdot ▸ hb.segment.encode_dot)
    · exact Or.inr (hdot ▸ hb.segment.encode_dots)
  -- an increment has one more segment, which is left in the place of the key
  have hlast : suffix r = [] ∨ suffix r = ["incr"] ∧ h.method = .post ∧ b.query r = [] := by
    cases r with
    | incr key delta ttlSecsOnCreate ns =>
        obtain ⟨sent, -, hr⟩ := Option.bind_eq_some_iff.mp hr
        cases hr
        exact Or.inr ⟨rfl, rfl, rfl⟩
    | _ => exact Or.inl rfl
  rcases hlast with hlast | ⟨hlast, hmethod, hquery⟩
  · rcases hencode with hkey | hkey
    · have hseg := hb.segments_of_dot hr hsubject hkey ["key", ""] (by rw [hlast]; rfl)
        (List.forall_mem_cons.mpr ⟨hname, List.forall_mem_singleton.mpr hempty⟩)
      exact read_of_empty_key hseg.1
    · have hseg := hb.segments_of_dot hr hsubject hkey [""] (by rw [hlast]; rfl)
        (List.forall_mem_singleton.mpr hempty)
      exact read_of_single hseg.1 (by decide)
  · rcases hencode with hkey | hkey
    · obtain ⟨hseg, hparameter⟩ := hb.segments_of_dot hr hsubject hkey ["key", "incr"]
        (by rw [hlast]; rfl)
        (List.forall_mem_cons.mpr ⟨hname, List.forall_mem_singleton.mpr hincr⟩)
      exact read_of_incr hseg hmethod (by rw [hparameter, hquery]; rfl)
    · have hseg := hb.segments_of_dot hr hsubject hkey ["incr"] (by rw [hlast]; rfl)
        (List.forall_mem_singleton.mpr hincr)
      exact read_of_single hseg.1 (by decide)

/-- A server reads the request that was asked for if and only if its key reaches it. -/
theorem Faithful.read_fetch_iff (hr : b.request r = some h) (parser : Bool) :
    (h.fetch parser).read = b.delivered r ↔ (r.subject = some .key → Reaches parser r.text) := by
  constructor
  · intro hread hsubject
    refine ⟨fun hempty => ?_, fun hparser => ⟨fun hdot => ?_, fun hdots => ?_⟩⟩
    · rw [hb.read_of_empty hr hsubject hempty] at hread
      exact delivered_ne_none hr hread.symm
    · rw [hparser, hb.read_of_dot hr hsubject (Or.inl hdot)] at hread
      exact delivered_ne_none hr hread.symm
    · rw [hparser, hb.read_of_dot hr hsubject (Or.inr hdots)] at hread
      exact delivered_ne_none hr hread.symm
  · intro hreaches
    have hread : h.read = b.delivered r :=
      hb.read_request hr fun hsubject => (hreaches hsubject).1
    by_cases hsubject : r.subject = some .key
    · cases parser with
      | false => exact hread
      | true =>
          rw [hb.fetch_of_key hr hsubject ((hreaches hsubject).2 rfl)]
          exact hread
    · rw [fetch_of_other hr hsubject]
      exact hread

end RequestBuilder

end Http

end DittoClient
