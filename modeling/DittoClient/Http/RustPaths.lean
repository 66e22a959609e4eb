import DittoClient.Http.Request
import DittoClient.Wire.Validation
import Mathlib.Data.Set.Basic

/-!
# The paths of the Rust HTTP client

The operations on a key put the key into a segment of the path, percent-encoded. A key that is a
dot segment is written as it is, since a dot is an unreserved character, and is removed when the URL
is parsed. So keys are kept apart if and only if the keys `.` and `..` are not used.
-/

namespace DittoClient

namespace Http

namespace Rust

open DittoClient.Text
open DittoClient.Wire

def urlEncode (value : String) : String :=
  encodeSegment value

/-- The operations on a key with their other arguments. -/
inductive KeyOperation
  | get
  | set (value : List UInt8) (ttlSecs : Option UInt64)
  | setNx (value : List UInt8) (ttlSecs : Option UInt64)
  | incr (delta : Int64) (ttlSecsOnCreate : Option UInt64)
  | delete

namespace KeyOperation

/-- The lifetime in a query, left out when it is zero. -/
def ttlQuery (mark : String) (ttlSecs : Option UInt64) : String :=
  match ttlSecs.filter fun ttl => decide (0 < ttl) with
  | some ttl => mark ++ "ttl=" ++ toString ttl.toNat
  | none => ""

/-- The body of an increment, with the increment as a text. -/
def incrPayload (delta : Int64) (ttlSecsOnCreate : Option UInt64) : List (String × Json) :=
  match ttlSecsOnCreate.filter fun ttl => decide (0 < ttl) with
  | some ttl =>
      [("delta", .string (toString delta.toInt)), ("ttl_secs_on_create", .number ttl.toNat)]
  | none => [("delta", .string (toString delta.toInt))]

/-- The name that the validators know the operation by. -/
def name : KeyOperation → String
  | .get => "get"
  | .set _ _ => "set"
  | .setNx _ _ => "set"
  | .incr _ _ => "set"
  | .delete => "delete"

def path : KeyOperation → String → String
  | .get, key => "/key/" ++ urlEncode key
  | .set _ ttlSecs, key => "/key/" ++ urlEncode key ++ ttlQuery "?" ttlSecs
  | .setNx _ ttlSecs, key => "/key/" ++ urlEncode key ++ "?nx=1" ++ ttlQuery "&" ttlSecs
  | .incr _ _, key => "/key/" ++ urlEncode key ++ "/incr"
  | .delete, key => "/key/" ++ urlEncode key

def method : KeyOperation → Method
  | .get => .get
  | .set _ _ => .put
  | .setNx _ _ => .post
  | .incr _ _ => .post
  | .delete => .delete

def body : KeyOperation → Option Payload
  | .get => none
  | .set value _ => some (.raw "text/plain" value)
  | .setNx value _ => some (.raw "application/octet-stream" value)
  | .incr delta ttlSecsOnCreate => some (.json (incrPayload delta ttlSecsOnCreate))
  | .delete => none

end KeyOperation

def namespaceHeaderValue (ns : Option String) : Option String :=
  (ns.filter fun ns => decide (trim whiteSpace ns ≠ "")).map (trim whiteSpace)

/-- The request of an operation on a key. -/
def request (strict : Bool) (op : KeyOperation) (key : String) (ns : Option String) :
    Except String HttpRequest := do
  let ns ← rustNormalizedNamespace strict ns
  rustValidators.validateCoreInputs strict op.name key ns
  .ok ⟨op.method, op.path key, namespaceHeaderValue ns, op.body⟩

namespace KeyOperation

/-- The segments of an operation behind the key. -/
def suffix : KeyOperation → List (List Char)
  | .incr _ _ => ["incr".toList]
  | _ => []

/-- The query of an operation. -/
def query : KeyOperation → List Char
  | .set _ ttlSecs => (ttlQuery "?" ttlSecs).toList
  | .setNx _ ttlSecs => ("?nx=1" ++ ttlQuery "&" ttlSecs).toList
  | _ => []

/-- The segments that a path addresses and its query are those of the operation on the key. -/
def Reaches (op : KeyOperation) (key : String) : Prop :=
  addressed (op.path key).toList = "key".toList :: (urlEncode key).toList :: op.suffix ∧
    queryOf (op.path key).toList = op.query

end KeyOperation

/-- The paths of the operations keep some keys apart. -/
structure KeepsApart (keys : Set String) : Prop where
  escaped : ∀ key ∈ keys, key ≠ "" → IsEscaped Unreserved (urlEncode key).toList
  decoded : ∀ key ∈ keys, key ≠ "" → percentDecode (urlEncode key).toList = utf8Bytes key
  reaches : ∀ key ∈ keys, key ≠ "" → ∀ op : KeyOperation, op.Reaches key
  inside : ∀ key ∈ keys, key ≠ "" → ∀ op : KeyOperation, ∃ name rest,
    addressed (op.path key).toList = "key".toList :: name :: rest ∧ name ≠ []
  apart : ∀ key ∈ keys, key ≠ "" → ∀ key' ∈ keys, key' ≠ "" → key ≠ key' →
    ∀ op op' : KeyOperation, addressed (op.path key).toList ≠ addressed (op'.path key').toList

section Paths

variable (op : KeyOperation) (key : String)

theorem toList_path : (op.path key).toList =
    pathText ("key".toList :: (urlEncode key).toList :: op.suffix) ++ op.query := by
  cases op <;> simp [KeyOperation.path, KeyOperation.suffix, KeyOperation.query, pathText]

theorem isQuery_query : IsQuery op.query := by
  intro c hc
  cases op with
  | get => cases hc
  | set value ttlSecs =>
      simp only [KeyOperation.query, KeyOperation.ttlQuery] at hc
      split at hc
      · simpa using hc.symm
      · cases hc
  | setNx value ttlSecs => simpa [KeyOperation.query] using hc.symm
  | incr delta ttlSecsOnCreate => cases hc
  | delete => cases hc

variable {key}

/-- The path of a key that is no dot segment reaches the key. -/
theorem reaches_of_ne (hdot : key ≠ ".") (hdots : key ≠ "..") : op.Reaches key := by
  have hfixed : Segment "key".toList ∧ Segment "incr".toList ∧ ¬ DotSegment "key".toList ∧
      ¬ DotSegment "incr".toList :=
    ⟨⟨by decide, by decide, by decide⟩, ⟨by decide, by decide, by decide⟩, by decide, by decide⟩
  have hkey : ¬ DotSegment (urlEncode key).toList := fun h =>
    (dotSegment_encodeSegment.mp h).elim hdot hdots
  rw [KeyOperation.Reaches, toList_path]
  refine addressed_pathText ?_ (isQuery_query op) ?_
  · refine List.forall_mem_cons.mpr ⟨hfixed.1, List.forall_mem_cons.mpr ⟨segment_encodeSegment key, ?_⟩⟩
    cases op with
    | incr delta ttlSecsOnCreate => exact List.forall_mem_singleton.mpr hfixed.2.1
    | _ => exact List.forall_mem_nil _
  · refine List.forall_mem_cons.mpr ⟨hfixed.2.2.1, List.forall_mem_cons.mpr ⟨hkey, ?_⟩⟩
    cases op with
    | incr delta ttlSecsOnCreate => exact List.forall_mem_singleton.mpr hfixed.2.2.2
    | _ => exact List.forall_mem_nil _

end Paths

/-- The paths keep keys apart if and only if no key is a dot segment. -/
theorem keepsApart_iff (keys : Set String) : KeepsApart keys ↔ "." ∉ keys ∧ ".." ∉ keys := by
  constructor
  · intro h
    have hdot : ∀ key, key ≠ "" → addressed (KeyOperation.get.path key).toList ≠
        "key".toList :: (urlEncode key).toList :: [] → key ∉ keys :=
      fun key hne hnot hmem => hnot (h.reaches key hmem hne .get).1
    exact ⟨hdot "." (by decide) (by decide), hdot ".." (by decide) (by decide)⟩
  · rintro ⟨hdot, hdots⟩
    have hreaches : ∀ key ∈ keys, ∀ op : KeyOperation, op.Reaches key := fun key hkey op =>
      reaches_of_ne op (fun heq => hdot (heq ▸ hkey)) fun heq => hdots (heq ▸ hkey)
    refine ⟨fun key _ _ => ?_, fun key _ _ => percentDecode_encodeSegment key,
      fun key hkey _ => hreaches key hkey, fun key hkey hne op => ?_,
      fun key hkey _ key' hkey' _ hne op op' heq => ?_⟩
    · rw [urlEncode, toList_encodeSegment]
      exact isEscaped_unreserved _
    · refine ⟨_, _, (hreaches key hkey op).1, fun hnil => hne ?_⟩
      exact encodeSegment_inj (hnil.trans rfl)
    · rw [(hreaches key hkey op).1, (hreaches key' hkey' op').1] at heq
      exact hne (encodeSegment_inj (List.cons.inj (List.cons.inj heq).2).1)

/-- The keys `.` and `..` are not kept apart from others: an increment of `.` addresses the key
`incr`, and a deletion of `..` the root. Strict mode takes both keys. -/
theorem dots_not_apart :
    ¬ KeepsApart Set.univ ∧
      (request true (.incr 5 none) "." none).toOption.map (fun r => addressed r.path.toList) =
        some (addressed (KeyOperation.get.path "incr").toList) ∧
      (request true .delete ".." none).toOption.map (fun r => addressed r.path.toList) =
        some [[]] := by
  refine ⟨fun h => ?_, rfl, rfl⟩
  have hreach := (h.reaches "." (Set.mem_univ _) (by decide) .get).1
  exact absurd hreach (by decide)

end Rust

end Http

end DittoClient
