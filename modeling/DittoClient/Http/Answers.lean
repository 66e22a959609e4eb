import DittoClient.Http.Results
import DittoClient.Wire.Server

/-!
# What the HTTP clients make of the answers of a server

A server answers an operation with a status and a JSON object, as the tests of the clients have it
(`Answers`): the version of a value is a number, those of the atomic operations are texts, and the
bytes of a value are given in base64 unless they are a text. The object may have other members, and
its members may stand in any order. `ResultReader.Reads` is what a client needs to read these
objects, and all five clients have it.
-/

namespace DittoClient

namespace Http

open DittoClient.Octets
open DittoClient.Text
open DittoClient.Wire

/-- The members of an object in which some fields stand and others do not. No two of them have names
that a parser might confuse. -/
structure Contains (members fields : List (String × Json)) (absent : List String) : Prop where
  distinct : (members.map fun m => m.1.toList.map Go.foldRune).Nodup
  fields : ∀ f ∈ fields, f ∈ members
  absent : ∀ name ∈ absent, ∀ m ∈ members, Go.isField name m.1 = false

/-- The body of a response is an object with these fields. -/
def Response.Contains (h : Response) (fields : List (String × Json)) (absent : List String) :
    Prop :=
  ∃ members, h.json = some (.object members) ∧ Http.Contains members fields absent

/-- A number of the server. -/
def count (n : ℕ) : Json :=
  .number (n : ℤ)

/-- A number of an atomic operation. -/
def digits (z : ℤ) : Json :=
  .string (toString z)

/-- How a server may give the bytes of a value. -/
inductive ValueFields (bs : List UInt8) : List (String × Json) → List String → Prop
  | text (s : String) (h : utf8Bytes s = bs) :
      ValueFields bs [("value", .string s)] ["value_base64"]
  | base64 : ValueFields bs [("value", .string (utf8Lossy bs)),
      ("value_base64", .string (String.ofList (base64Encode bs)))] []

/-- A response that answers a request with what the server means. An error has a status of its own,
which does not stand for a missing key. -/
def Answers : Wire.Request → ServerResponse → Response → Prop
  | .ping, .pong, h => h.status = 200 ∧ h.Contains [("pong", .bool true)] []
  | .get _ _, .value _ bs version, h =>
      h.ok = true ∧ ∃ fields absent, ValueFields bs fields absent ∧
        h.Contains (("version", count version.toNat) :: fields) absent
  | .get _ _, .notFound, h => h.status = 404
  | .set _ _ _ _, .ok version, h => h.ok = true ∧ h.Contains [("version", count version.toNat)] []
  | .setNx _ _ _ _, .setNx created version, h =>
      h.ok = true ∧ h.Contains [("created", .bool created), ("version", digits version.toNat)] []
  | .incr _ _ _ _, .counter n version, h =>
      h.ok = true ∧ h.Contains [("value", digits n.toInt), ("version", digits version.toNat)] []
  | .delete _ _, .deleted, h => h.ok = true
  | .delete _ _, .notFound, h => h.status = 404
  | .deleteByPattern _ _, .patternDeleted n, h =>
      h.ok = true ∧ h.Contains [("deleted", count n.toNat)] []
  | .setTtlByPattern _ _ _, .patternTtlUpdated n, h =>
      h.ok = true ∧ h.Contains [("updated", count n.toNat)] []
  | r, .error _ _, h => (∀ token, r ≠ .auth token) ∧ (∀ key ns, r ≠ .watch key ns) ∧
      (∀ key ns, r ≠ .unwatch key ns) ∧ h.ok = false ∧ h.status ≠ 404
  | _, _, _ => False

section Members

variable {members fields : List (String × Json)} {absent : List String} {name : String} {v : Json}

/-- The only element with a property that belongs to its value. -/
theorem filter_eq_singleton {α β : Type} {f : α → β} {p : α → Bool} {l : List α} {a : α}
    (h : (l.map f).Nodup) (ha : a ∈ l) (hp : ∀ x, p x = true → f x = f a) (hpa : p a = true) :
    l.filter p = [a] := by
  induction l with
  | nil => cases ha
  | cons x xs ih =>
      rw [List.map_cons, List.nodup_cons] at h
      obtain ⟨hx, hxs⟩ := h
      rcases List.mem_cons.mp ha with rfl | hmem
      · rw [List.filter_cons, if_pos hpa, List.filter_eq_nil_iff.mpr]
        intro y hy hpy
        exact hx (hp y hpy ▸ List.mem_map_of_mem hy)
      · have hnot : ¬ p x = true := fun hpx => hx (hp x hpx ▸ List.mem_map_of_mem hmem)
        rw [List.filter_cons, if_neg hnot]
        exact ih hxs hmem

theorem Contains.filter_name (h : Contains members fields absent) (hmem : (name, v) ∈ fields) :
    (members.filter fun m => decide (m.1 = name)) = [(name, v)] :=
  filter_eq_singleton h.distinct (h.fields _ hmem)
    (fun _ hm => congrArg (fun s : String => s.toList.map Go.foldRune) (of_decide_eq_true hm))
    (decide_eq_true rfl)

theorem Contains.filter_field (h : Contains members fields absent) (hmem : (name, v) ∈ fields)
    (hname : Go.isField name name = true) :
    (members.filter fun m => Go.isField name m.1) = [(name, v)] :=
  filter_eq_singleton h.distinct (h.fields _ hmem)
    (fun _ hm => (of_decide_eq_true hm).trans (of_decide_eq_true hname).symm) hname

theorem Contains.lookup (h : Contains members fields absent) (hmem : (name, v) ∈ fields) :
    Json.lookup name members = some v := by
  rw [Json.lookup, h.filter_name hmem]
  rfl

theorem Contains.single (h : Contains members fields absent) (hmem : (name, v) ∈ fields) :
    Rust.single members name = some (some v) := by
  rw [Rust.single, h.filter_name hmem]

theorem Contains.field {α : Type} {read : Json → Option α} {zero : α}
    (h : Contains members fields absent) (hmem : (name, v) ∈ fields)
    (hname : Go.isField name name = true) (hv : v ≠ .null) :
    Go.field name read zero members = read v := by
  rw [Go.field, h.filter_field hmem hname, List.foldl_cons, List.foldl_nil]
  cases v with
  | null => exact absurd rfl hv
  | _ => rfl

/-- A name that is absent. -/
theorem Contains.filter_absent (h : Contains members fields absent) (hmem : name ∈ absent) :
    (members.filter fun m => Go.isField name m.1) = [] :=
  List.filter_eq_nil_iff.mpr fun m hm => Bool.eq_false_iff.mp (h.absent name hmem m hm)

theorem Contains.filter_absent_name (h : Contains members fields absent) (hmem : name ∈ absent)
    (hname : Go.isField name name = true) :
    (members.filter fun m => decide (m.1 = name)) = [] := by
  refine List.filter_eq_nil_iff.mpr fun m hm heq => ?_
  have hfield := h.absent name hmem m hm
  rw [of_decide_eq_true heq, hname] at hfield
  cases hfield

theorem Contains.lookup_absent (h : Contains members fields absent) (hmem : name ∈ absent)
    (hname : Go.isField name name = true) : Json.lookup name members = none := by
  rw [Json.lookup, h.filter_absent_name hmem hname]
  rfl

theorem Contains.single_absent (h : Contains members fields absent) (hmem : name ∈ absent)
    (hname : Go.isField name name = true) : Rust.single members name = some none := by
  rw [Rust.single, h.filter_absent_name hmem hname]

theorem Contains.field_absent {α : Type} {read : Json → Option α} {zero : α}
    (h : Contains members fields absent) (hmem : name ∈ absent) :
    Go.field name read zero members = some zero := by
  rw [Go.field, h.filter_absent hmem]
  rfl

end Members

/-- What a client needs to read the answers, with what it makes of a number and of one of an atomic
operation. -/
structure ResultReader.Reads (x : ResultReader) (narrow : ℕ → ℤ) (wide : ℕ → Option ℤ) : Prop where
  alive : ∀ h : Response, h.status = 200 → x.alive h = true
  dead : ∀ h : Response, h.ok = false → x.alive h = false
  pong : ∀ members, Contains members [("pong", .bool true)] [] →
    x.pong (.object members) = some true
  get : ∀ members fields absent bs, ∀ n : ℕ, n < 2 ^ 64 → ValueFields bs fields absent →
    Contains members (("version", count n) :: fields) absent →
      x.get (.object members) = some (.value bs (.number (narrow n)))
  set : ∀ members, ∀ n : ℕ, n < 2 ^ 64 → Contains members [("version", count n)] [] →
    x.set (.object members) = some (.version (.number (narrow n)))
  setNx : ∀ members b, ∀ n : ℕ, n < 2 ^ 64 →
    Contains members [("created", .bool b), ("version", digits (n : ℤ))] [] →
      x.setNx (.object members) = (wide n).map fun n => .created (.bool b) n
  incr : ∀ members (z : ℤ), -2 ^ 63 ≤ z → z < 2 ^ 63 → ∀ n : ℕ, n < 2 ^ 64 →
    Contains members [("value", digits z), ("version", digits (n : ℤ))] [] →
      x.incr (.object members) = (wide n).map fun n => .counter z n
  deleteByPattern : ∀ members, ∀ n : ℕ, n < 2 ^ 64 → Contains members [("deleted", count n)] [] →
    x.deleteByPattern (.object members) = some (.count (.number (narrow n)))
  setTtlByPattern : ∀ members, ∀ n : ℕ, n < 2 ^ 64 → Contains members [("updated", count n)] [] →
    x.setTtlByPattern (.object members) = some (.count (.number (narrow n)))

/-- What a client returns of what the server means. -/
def returned (narrow : ℕ → ℤ) (wide : ℕ → Option ℤ) : Wire.Request → ServerResponse → Option Outcome
  | .ping, .pong => some (.bool true)
  | .get _ _, .value _ bs version => some (.value bs (.number (narrow version.toNat)))
  | .get _ _, .notFound => some .missing
  | .set _ _ _ _, .ok version => some (.version (.number (narrow version.toNat)))
  | .setNx _ _ _ _, .setNx created version =>
      (wide version.toNat).map fun n => .created (.bool created) n
  | .incr _ _ _ _, .counter n version => (wide version.toNat).map fun v => .counter n.toInt v
  | .delete _ _, .deleted => some (.bool true)
  | .delete _ _, .notFound => some (.bool false)
  | .deleteByPattern _ _, .patternDeleted n => some (.count (.number (narrow n.toNat)))
  | .setTtlByPattern _ _ _, .patternTtlUpdated n => some (.count (.number (narrow n.toNat)))
  | .ping, .error _ _ => some (.bool false)
  | _, _ => none

section Flow

variable {x : ResultReader} {h : Response} {read : Json → Option Outcome}
  {members : List (String × Json)}

theorem ok_status (hok : h.ok = true) : 200 ≤ h.status ∧ h.status < 300 := by
  rw [Response.ok, Bool.and_eq_true, decide_eq_true_iff, decide_eq_true_iff] at hok
  exact hok

theorem inBody_of_ok (hok : h.ok = true) (hjson : h.json = some (.object members)) :
    ResultReader.inBody read h = read (.object members) := by
  rw [ResultReader.inBody, if_pos hok, hjson, Option.bind_some]

theorem inAtomic_of_ok (hok : h.ok = true) (hjson : h.json = some (.object members)) :
    ResultReader.inAtomic read h = read (.object members) := by
  have hstatus := ok_status hok
  have hnot : ¬ h.status ∈ [400, 404, 501] := by
    simp only [List.mem_cons, List.not_mem_nil, or_false]
    omega
  rw [ResultReader.inAtomic, if_neg hnot, inBody_of_ok hok hjson]

theorem inBody_of_not_ok (hok : h.ok = false) : ResultReader.inBody read h = none :=
  if_neg (Bool.eq_false_iff.mp hok)

theorem inAtomic_of_not_ok (hok : h.ok = false) : ResultReader.inAtomic read h = none := by
  rw [ResultReader.inAtomic, inBody_of_not_ok hok, ite_self]

end Flow

/-- A client returns what the server means, as far as its numbers go. -/
theorem ResultReader.Reads.result_eq {x : ResultReader} {narrow : ℕ → ℤ} {wide : ℕ → Option ℤ}
    (hx : x.Reads narrow wide) {r : Wire.Request} {y : ServerResponse} {h : Response}
    (hanswers : Answers r y h) : x.result r h = returned narrow wide r y := by
  unfold Answers at hanswers
  split at hanswers
  · obtain ⟨hstatus, members, hjson, hcontains⟩ := hanswers
    rw [ResultReader.result, if_pos (hx.alive h hstatus), hjson, Option.bind_some,
      hx.pong members hcontains]
    rfl
  · next bs version =>
      obtain ⟨hok, fields, absent, hfields, members, hjson, hcontains⟩ := hanswers
      have hstatus := ok_status hok
      have hfound : ¬ h.status = 404 := by omega
      rw [ResultReader.result, if_neg hfound, inBody_of_ok hok hjson]
      exact hx.get members fields absent bs _ version.toNat_lt hfields hcontains
  · rw [ResultReader.result, if_pos hanswers]
    rfl
  · next version =>
      obtain ⟨hok, members, hjson, hcontains⟩ := hanswers
      rw [ResultReader.result, inBody_of_ok hok hjson]
      exact hx.set members _ version.toNat_lt hcontains
  · next created version =>
      obtain ⟨hok, members, hjson, hcontains⟩ := hanswers
      rw [ResultReader.result, inAtomic_of_ok hok hjson]
      exact hx.setNx members created _ version.toNat_lt hcontains
  · next n version =>
      obtain ⟨hok, members, hjson, hcontains⟩ := hanswers
      rw [ResultReader.result, inAtomic_of_ok hok hjson]
      exact hx.incr members _ n.le_toInt n.toInt_lt _ version.toNat_lt hcontains
  · have hstatus := ok_status hanswers
    have hfound : ¬ h.status = 404 := by omega
    rw [ResultReader.result, if_neg hfound, if_pos hanswers, ite_self]
    rfl
  · rw [ResultReader.result, if_pos hanswers]
    rfl
  · next n =>
      obtain ⟨hok, members, hjson, hcontains⟩ := hanswers
      rw [ResultReader.result, inBody_of_ok hok hjson]
      exact hx.deleteByPattern members _ n.toNat_lt hcontains
  · next n =>
      obtain ⟨hok, members, hjson, hcontains⟩ := hanswers
      rw [ResultReader.result, inBody_of_ok hok hjson]
      exact hx.setTtlByPattern members _ n.toNat_lt hcontains
  · obtain ⟨hauth, hwatch, hunwatch, hok, hfound⟩ := hanswers
    have hstatus : h.status ≠ 204 := by
      intro hstatus
      rw [Response.ok, hstatus] at hok
      cases hok
    cases r with
    | ping =>
        rw [ResultReader.result, hx.dead h hok]
        rfl
    | get key ns =>
        rw [ResultReader.result, if_neg hfound, inBody_of_not_ok hok]
        rfl
    | delete key ns =>
        rw [ResultReader.result, if_neg hfound, if_neg hstatus, hok]
        rfl
    | set key value ttlSecs ns => exact inBody_of_not_ok hok
    | setNx key value ttlSecs ns => exact inAtomic_of_not_ok hok
    | incr key delta ttlSecsOnCreate ns => exact inAtomic_of_not_ok hok
    | deleteByPattern pattern ns => exact inBody_of_not_ok hok
    | setTtlByPattern pattern ttlSecs ns => exact inBody_of_not_ok hok
    | auth token => exact absurd rfl (hauth token)
    | watch key ns => exact absurd rfl (hwatch key ns)
    | unwatch key ns => exact absurd rfl (hunwatch key ns)
  · exact hanswers.elim

end Http

end DittoClient
