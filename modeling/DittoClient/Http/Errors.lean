import DittoClient.Http.PythonErrors
import DittoClient.Octets.Utf8

/-!
# Error codes across the HTTP clients

The clients in Python, Go, Rust and JavaScript report a response that is not a success by a code,
which they take from the body, or else from the status. They read the body in different ways. The
client in Python decodes it strictly, and each of them has a JSON parser of its own, which is a
parameter here: some take a byte order mark or a number that is none, and others do not. The one of
Go does not tell capital letters from small ones in names, the one of Rust takes an array of two for
the object, and the one of JavaScript puts up with values of any type. Their tables of the statuses
differ in two of them. `codes_agree_iff` says for which responses they report the same code.
-/

namespace DittoClient

namespace Http

open DittoClient.Octets
open DittoClient.Text

namespace Go

/-- The code of a status. -/
def httpStatusToCode (status : ℕ) : String :=
  if status = 503 then "NodeInactive"
  else if status = 504 then "WriteTimeout"
  else if status = 404 then "KeyNotFound"
  else "InternalError"

/-- A character as names are compared: without regard to case, with the long s among the letters
that have one. -/
def foldRune (c : Char) : Char :=
  if c.toNat = 0x17F then 's' else if c.toNat = 0x212A then 'k' else c.toLower

/-- Whether a member is read into the field with this name. -/
def isField (field name : String) : Bool :=
  decide (name.toList.map foldRune = field.toList)

/-- The two fields that are read, and whether all values had their type. -/
structure Payload where
  error : String
  message : String
  typed : Bool

/-- Read one member. A null leaves the field as it is. -/
def unmarshalMember (p : Payload) (m : String × Json) : Payload :=
  match m.2 with
  | .null => p
  | .string s =>
      if isField "error" m.1 then { p with error := s }
      else if isField "message" m.1 then { p with message := s }
      else p
  | _ =>
      if isField "error" m.1 || isField "message" m.1 then { p with typed := false } else p

/-- `json.Unmarshal` into the payload. -/
def unmarshal : Option Json → Option Payload
  | some .null => some ⟨"", "", true⟩
  | some (.object members) =>
      let p := members.foldl unmarshalMember ⟨"", "", true⟩
      if p.typed then some p else none
  | _ => none

/-- `parseHTTPError`, with the code and the message of the error. -/
def parseHTTPError (r : Response) : Option (String × String) :=
  if 200 ≤ r.status ∧ r.status < 300 then none
  else
    match unmarshal r.json with
    | some p =>
        some (if p.error ≠ "" then p.error else httpStatusToCode r.status,
          if p.message ≠ "" then p.message else if p.error ≠ "" then p.error else r.text)
    | none => some (httpStatusToCode r.status, r.text)

end Go

namespace Rust

def httpStatusToCode (status : ℕ) : String :=
  if status = 503 then "NodeInactive"
  else if status = 504 then "WriteTimeout"
  else if status = 404 then "KeyNotFound"
  else "InternalError"

/-- A field of type `Option<String>`. -/
def optionString : Json → Option (Option String)
  | .null => some none
  | .string s => some (some s)
  | _ => none

/-- A field of the object, which must not occur twice. -/
def field (name : String) (members : List (String × Json)) : Option (Option String) :=
  match members.filter fun m => decide (m.1 = name) with
  | [] => some none
  | [m] => optionString m.2
  | _ => none

/-- The derived reader of `ErrorResponse`, which also takes the fields in an array. -/
def errorResponse : Option Json → Option (Option String × Option String)
  | some (.object members) => do
      let error ← field "error" members
      let message ← field "message" members
      some (error, message)
  | some (.array [a, b]) => do
      let error ← optionString a
      let message ← optionString b
      some (error, message)
  | _ => none

/-- A text that is there and not empty. -/
def present (s : Option String) : Option String :=
  s.filter fun s => decide (s ≠ "")

/-- `assert_ok`, with the code and the message of the error. -/
def assertOk (r : Response) : Option (String × String) :=
  if r.ok then none
  else
    match errorResponse r.json with
    | some (error, message) =>
        let code := (present error).getD (httpStatusToCode r.status)
        some (code, (present message).getD (if r.text = "" then code else r.text))
    | none => some (httpStatusToCode r.status, r.text)

end Rust

namespace Node

/-- What is thrown for a response. -/
inductive Thrown
  | ditto (code : String) (message : Json)
  | typeError

/-- `a ?? b` -/
def orElse (a : Option Json) (b : Json) : Json :=
  match a with
  | none => b
  | some .null => b
  | some v => v

/-- The message and the code in the body. Reading a member of null throws, which is ignored like a
text that is not JSON; other values than objects have no such members. -/
def bodyError (r : Response) : Json × Option Json :=
  match r.json with
  | none => (.string r.statusText, none)
  | some .null => (.string r.statusText, none)
  | some (.object members) =>
      (orElse (Json.lookup "message" members)
          (orElse (Json.lookup "error" members) (.string r.statusText)),
        Json.lookup "error" members)
  | some _ => (.string r.statusText, none)

def statusCode (status : ℕ) : String :=
  if status = 429 then "RateLimited"
  else if status = 503 then "NodeInactive"
  else if status = 504 then "WriteTimeout"
  else if status = 404 then "KeyNotFound"
  else if status = 501 then "UnsupportedRequest"
  else "InternalError"

/-- `mapHttpError`. A code that counts as true and is no text has nothing to trim. -/
def mapHttpError (status : ℕ) (bodyCode : Option Json) : Option String :=
  match bodyCode with
  | none => some (statusCode status)
  | some (.string s) =>
      some (if s ≠ "" ∧ trim nodeSpace s ≠ "" then trim nodeSpace s else statusCode status)
  | some v => if v.nodeTruthy then none else some (statusCode status)

/-- `assertOk` -/
def assertOk (r : Response) : Option Thrown :=
  if r.ok then none
  else
    match mapHttpError r.status (bodyError r).2 with
    | some code => some (.ditto code (bodyError r).1)
    | none => some .typeError

end Node

/-- The four clients. -/
inductive Sdk
  | python
  | go
  | rust
  | node
  deriving DecidableEq, Repr

/-- The code of the error that the general check of a response reports. -/
def Sdk.errorCode : Sdk → Response → Option String
  | .python, r => match Python.assertOk r with
      | .ok () => none
      | .error e => some e.code.text
  | .go, r => (Go.parseHTTPError r).map Prod.fst
  | .rust, r => (Rust.assertOk r).map Prod.fst
  | .node, r => match Node.assertOk r with
      | some (.ditto code _) => some code
      | _ => none

/-- The operations that use the general check only. -/
inductive Endpoint
  | get
  | set
  | delete
  deriving DecidableEq, Repr

/-- The statuses that are a result: a key that is not there, and one that was deleted. -/
def Endpoint.answered (op : Endpoint) (status : ℕ) : Bool :=
  match op with
  | .get => decide (status = 404)
  | .set => false
  | .delete => decide (status = 404) || decide (status = 204)

/-- A response as it arrives. -/
structure RawResponse where
  status : ℕ
  statusText : String
  body : List UInt8

/-- What the JSON parser of a client makes of a body. -/
abbrev Parsers : Type :=
  Sdk → List UInt8 → Option Json

/-- What a client looks at. The one in Python takes no body that is not UTF-8. -/
def RawResponse.seen (parse : Parsers) (r : RawResponse) : Sdk → Option Response
  | .python => (utf8? r.body).map fun text => ⟨r.status, r.statusText, text, parse .python r.body⟩
  | sdk => some ⟨r.status, r.statusText, utf8Lossy r.body, parse sdk r.body⟩

/-- What an operation tells its caller of a response: a result, an error with a code, or an error of
another kind. -/
inductive Report
  | result
  | code (c : String)
  | raised
  deriving DecidableEq, Repr

/-- What an operation makes of a response that a client has read. -/
def Sdk.report (sdk : Sdk) (op : Endpoint) (r : Response) : Report :=
  if op.answered r.status || r.ok then .result
  else
    match sdk.errorCode r with
    | some c => .code c
    | none => .raised

/-- What a client reports. The body is decoded before the status is looked at. -/
def reported (parse : Parsers) (op : Endpoint) (r : RawResponse) (sdk : Sdk) : Report :=
  match r.seen parse sdk with
  | some x => sdk.report op x
  | none => .raised

/-- The operation of the Python client. -/
def Endpoint.operation : Endpoint → Python.Operation
  | .get => .get
  | .set => .set
  | .delete => .delete

theorem ok_iff {r : Response} : r.ok = true ↔ 200 ≤ r.status ∧ r.status < 300 := by
  rw [Response.ok, Bool.and_eq_true, decide_eq_true_iff, decide_eq_true_iff]

/-- The general check of the Python client. -/
theorem report_assertOk (r : Response) {op : Endpoint} (hop : op.answered r.status = false) :
    Sdk.report .python op r = match Python.assertOk r with
      | .ok () => .result
      | .error e => .code e.code.text := by
  rw [Sdk.report, hop, Bool.false_or, Sdk.errorCode]
  by_cases hok : 200 ≤ r.status ∧ r.status < 300
  · simp [ok_iff.mpr hok, Python.assertOk, hok]
  · have hnot : r.ok = false := by
      rw [← Bool.not_eq_true, ok_iff]
      exact hok
    simp [hnot, Python.assertOk, hok]

/-- What is reported of the Python client is what its operations raise. -/
theorem report_python (op : Endpoint) (r : Response) :
    Sdk.report .python op r = match Python.respond op.operation r with
      | .ok _ => .result
      | .error e => .code e.code.text := by
  cases hop : op.answered r.status with
  | true =>
      have hresult : Sdk.report .python op r = .result := by
        rw [Sdk.report, hop]
        rfl
      rw [hresult]
      cases op with
      | get =>
          have h404 : r.status = 404 := by simpa [Endpoint.answered] using hop
          simp [Endpoint.operation, Python.respond, h404]
      | set => cases hop
      | delete =>
          have hstatus : r.status = 404 ∨ r.status = 204 := by
            simpa [Endpoint.answered] using hop
          rcases hstatus with h | h <;> simp [Endpoint.operation, Python.respond, h]
  | false =>
      rw [report_assertOk r hop]
      cases op with
      | get =>
          have h404 : r.status ≠ 404 := by simpa [Endpoint.answered] using hop
          simp only [Endpoint.operation, Python.respond, h404, if_false]
          cases Python.assertOk r <;> rfl
      | set =>
          simp only [Endpoint.operation, Python.respond]
          cases Python.assertOk r <;> rfl
      | delete =>
          have hstatus : r.status ≠ 404 ∧ r.status ≠ 204 := by
            simpa [Endpoint.answered] using hop
          simp only [Endpoint.operation, Python.respond, hstatus.1, hstatus.2, if_false]
          cases Python.assertOk r <;> rfl

/-- The members of an object in which a code and a message may each be there or not. -/
inductive Combination : List (String × Json) → Option String → Option String → Prop
  | neither : Combination [] none none
  | error (e : String) : Combination [("error", .string e)] (some e) none
  | message (m : String) : Combination [("message", .string m)] none (some m)
  | errorFirst (e m : String) :
      Combination [("error", .string e), ("message", .string m)] (some e) (some m)
  | messageFirst (e m : String) :
      Combination [("message", .string m), ("error", .string e)] (some e) (some m)

/-- The members that a client may take for the code or the message. -/
def read (members : List (String × Json)) : List (String × Json) :=
  members.filter fun m => Go.isField "error" m.1 || Go.isField "message" m.1

/-- If the body is an object, there is at most a code and a message among its members, with no
spaces around them. -/
def Response.Described (r : Response) : Prop :=
  ∀ members, r.json = some (.object members) → ∃ e m, Combination (read members) e m ∧
    (∀ s ∈ e, trim nodeSpace s = s) ∧ ∀ s ∈ m, trim nodeSpace s = s

/-- The text under `error`, if the body is an object with one. -/
def Response.named (r : Response) : Option String :=
  match r.json with
  | some (.object members) => (Json.lookup "error" members).bind Json.text?
  | _ => none

/-- The body is an array that `ErrorResponse` is read from, with this code. -/
def Response.Paired (r : Response) (c : String) : Prop :=
  ∃ m, r.json = some (.array [.string c, m]) ∧ (Rust.optionString m).isSome = true

/-- The code that a client finds in the body: the text under `error` in an object, and in Rust also
the first of two values in an array. -/
def Sdk.Finds (sdk : Sdk) (r : Response) (c : String) : Prop :=
  (r.Names c ∨ sdk = .rust ∧ r.Paired c) ∧ c ≠ ""

/-- The code that a client finds in the body of a response, if it can read it. -/
def RawResponse.Finds (parse : Parsers) (r : RawResponse) (sdk : Sdk) (c : String) : Prop :=
  ∃ x, r.seen parse sdk = some x ∧ sdk.Finds x c

/-- The code of a status. -/
def Sdk.statusCode : Sdk → ℕ → String
  | .python, status => (Python.statusCode status).value
  | .go, status => Go.httpStatusToCode status
  | .rust, status => Rust.httpStatusToCode status
  | .node, status => Node.statusCode status

section Read

variable {members : List (String × Json)}

theorem isField_error : Go.isField "error" "error" = true := by decide

theorem isField_message : Go.isField "message" "message" = true := by decide

/-- The members with the exact name are among those that are read. -/
theorem filter_read {name : String}
    (h : (Go.isField "error" name || Go.isField "message" name) = true) :
    ((read members).filter fun m => decide (m.1 = name)) =
      members.filter fun m => decide (m.1 = name) := by
  rw [read, List.filter_filter]
  refine List.filter_congr fun m _ => ?_
  by_cases hm : m.1 = name
  · rw [hm, h, Bool.and_true]
  · simp [hm]

theorem lookup_read : Json.lookup "error" (read members) = Json.lookup "error" members := by
  rw [Json.lookup, Json.lookup, filter_read (by rw [isField_error, Bool.true_or])]

/-- The other members are skipped. -/
theorem unmarshalMember_of_skipped {m : String × Json}
    (h : (Go.isField "error" m.1 || Go.isField "message" m.1) = false) (p : Go.Payload) :
    Go.unmarshalMember p m = p := by
  obtain ⟨herror, hmessage⟩ := Bool.or_eq_false_iff.mp h
  rw [Go.unmarshalMember]
  cases m.2 <;> simp [herror, hmessage]

theorem foldl_read (p : Go.Payload) :
    (read members).foldl Go.unmarshalMember p = members.foldl Go.unmarshalMember p := by
  rw [read, List.foldl_filter]
  congr 1
  funext p m
  cases h : Go.isField "error" m.1 || Go.isField "message" m.1 with
  | true => rfl
  | false => rw [unmarshalMember_of_skipped h]; rfl

end Read

namespace Combination

variable {members : List (String × Json)} {e m : Option String}

theorem lookup_eq (h : Combination (read members) e m) :
    Json.lookup "error" members = e.map Json.string := by
  rw [← lookup_read]
  generalize read members = fields at h
  cases h <;> rfl

theorem lookup_error (h : Combination (read members) e m) :
    (Json.lookup "error" members).bind Json.text? = e := by
  rw [h.lookup_eq]
  cases e <;> rfl

theorem unmarshal (h : Combination (read members) e m) :
    Go.unmarshal (some (.object members)) = some ⟨e.getD "", m.getD "", true⟩ := by
  have hne : Go.isField "error" "message" = false := by decide
  rw [Go.unmarshal, ← foldl_read]
  generalize read members = fields at h
  cases h <;> simp [Go.unmarshalMember, isField_error, isField_message, hne]

theorem errorResponse (h : Combination (read members) e m) :
    Rust.errorResponse (some (.object members)) = some (e, m) := by
  have hfields : Rust.errorResponse (some (.object members)) =
      Rust.errorResponse (some (.object (read members))) := by
    simp only [Rust.errorResponse, Rust.field]
    rw [filter_read (by rw [isField_error, Bool.true_or]),
      filter_read (by rw [isField_message, Bool.or_true])]
  rw [hfields]
  generalize read members = fields at h
  cases h <;> rfl

end Combination

section Codes

variable {r : Response}

/-- What is no success is an error for the Go client. -/
theorem Go.parseHTTPError_isSome (hok : ¬ (200 ≤ r.status ∧ r.status < 300)) :
    ∃ c, Sdk.errorCode .go r = some c := by
  rw [Sdk.errorCode, Go.parseHTTPError, if_neg hok]
  cases Go.unmarshal r.json with
  | none => exact ⟨_, rfl⟩
  | some p => exact ⟨_, rfl⟩

theorem not_success (hstatus : r.ok = false) : ¬ (200 ≤ r.status ∧ r.status < 300) := by
  intro h
  simp [Response.ok, h.1, h.2] at hstatus

theorem present_eq_some {s : Option String} {c : String} :
    Rust.present s = some c ↔ s = some c ∧ c ≠ "" := by
  rw [Rust.present, Option.filter_eq_some_iff, decide_eq_true_iff]

theorem python_errorCode (hstatus : r.ok = false) :
    Sdk.errorCode .python r =
      some ((Rust.present r.named).getD (Python.statusCode r.status).value) := by
  have hnamed : (Python.bodyError r).2 = r.named := by
    rw [Python.bodyError, Response.named]
    cases r.json with
    | none => rfl
    | some v => cases v <;> rfl
  rw [Sdk.errorCode, Python.assertOk, if_neg (not_success hstatus), hnamed]
  cases r.named with
  | none => rfl
  | some s =>
      by_cases hs : s = ""
      · simp [hs, Rust.present, Python.Code.text, Option.filter]
      · simp [hs, Rust.present, Python.Code.ofText_text, Option.filter]

theorem go_errorCode (hstatus : r.ok = false) (hbody : r.Described) :
    Sdk.errorCode .go r =
      some ((Rust.present r.named).getD (Go.httpStatusToCode r.status)) := by
  rw [Sdk.errorCode, Go.parseHTTPError, if_neg (not_success hstatus), Response.named]
  cases hjson : r.json with
  | none => rfl
  | some v =>
      cases v with
      | object members =>
          obtain ⟨e, m, hmembers, -⟩ := hbody members hjson
          simp only [hmembers.unmarshal, hmembers.lookup_error]
          cases e with
          | none => rfl
          | some s => by_cases hs : s = "" <;> simp [hs, Rust.present, Option.filter]
      | _ => rfl

theorem node_errorCode (hstatus : r.ok = false) (hbody : r.Described) :
    Sdk.errorCode .node r = some ((Rust.present r.named).getD (Node.statusCode r.status)) := by
  have hmap : Node.mapHttpError r.status (Node.bodyError r).2 =
      some ((Rust.present r.named).getD (Node.statusCode r.status)) := by
    rw [Node.bodyError, Response.named]
    cases hjson : r.json with
    | none => rfl
    | some v =>
        cases v with
        | object members =>
            obtain ⟨e, m, hmembers, htrim, -⟩ := hbody members hjson
            simp only [hmembers.lookup_error]
            rw [hmembers.lookup_eq]
            cases e with
            | none => rfl
            | some s =>
                have hs := htrim s rfl
                by_cases hempty : s = ""
                · simp [Node.mapHttpError, hempty, Rust.present, Option.filter]
                · simp [Node.mapHttpError, hempty, hs, Rust.present, Option.filter]
        | _ => rfl
  simp only [Sdk.errorCode, Node.assertOk, hstatus, Bool.false_eq_true, if_false, hmap]

/-- The code that the Rust client reads from the body. -/
theorem rust_errorCode (hstatus : r.ok = false) :
    Sdk.errorCode .rust r = some ((Rust.present (((Rust.errorResponse r.json).map
      Prod.fst).join)).getD (Go.httpStatusToCode r.status)) := by
  rw [Sdk.errorCode, Rust.assertOk, if_neg (by rw [hstatus]; exact Bool.false_ne_true)]
  cases Rust.errorResponse r.json with
  | none => rfl
  | some x => rfl

theorem optionString_join {a : Json} {c : String} :
    (Rust.optionString a).join = some c ↔ a = .string c := by
  cases a <;> simp [Rust.optionString]

/-- The first of two values is the code, if the second one could be the message. -/
theorem errorResponse_pair (a b : Json) (c : String) :
    ((Rust.errorResponse (some (.array [a, b]))).map Prod.fst).join = some c ↔
      a = .string c ∧ (Rust.optionString b).isSome = true := by
  rw [← optionString_join, Rust.errorResponse]
  cases Rust.optionString a with
  | none => simp
  | some error =>
      cases Rust.optionString b with
      | none => simp
      | some message => simp

/-- A code in the body, if the Rust client finds one, is in an object or in an array of two. -/
theorem rust_reads (hbody : r.Described) (c : String) :
    Rust.present (((Rust.errorResponse r.json).map Prod.fst).join) = some c ↔
      Rust.present r.named = some c ∨ r.Paired c ∧ c ≠ "" := by
  have hnot : (∀ items, r.json ≠ some (.array items)) → ¬ r.Paired c := by
    rintro hjson ⟨m, hm, -⟩
    exact hjson _ hm
  rw [Response.named]
  cases hjson : r.json with
  | none => simp [Rust.errorResponse, Rust.present, hnot (by simp [hjson])]
  | some v =>
      cases v with
      | object members =>
          obtain ⟨e, m, hmembers, -⟩ := hbody members hjson
          rw [hmembers.errorResponse]
          simp only [hmembers.lookup_error, hnot (by simp [hjson]), false_and, or_false]
          rfl
      | array items =>
          have hpaired : r.Paired c ↔ ∃ m, items = [.string c, m] ∧
              (Rust.optionString m).isSome = true := by
            simp [Response.Paired, hjson]
          rw [hpaired, present_eq_some]
          match items with
          | [a, b] =>
              rw [errorResponse_pair]
              simp [Rust.present]
          | [] => simp [Rust.errorResponse, Rust.present]
          | [a] => simp [Rust.errorResponse, Rust.present]
          | a :: b :: d :: items => simp [Rust.errorResponse, Rust.present]
      | _ => simp [Rust.errorResponse, Rust.present, hnot (by simp [hjson])]

theorem names_iff (hbody : r.Described) (c : String) :
    r.named = some c ↔ r.Names c := by
  rw [Response.named, Response.Names]
  cases hjson : r.json with
  | none => simp
  | some v =>
      cases v with
      | object members =>
          obtain ⟨e, m, hmembers, -⟩ := hbody members hjson
          simp only [hmembers.lookup_error]
          simp [hmembers.lookup_eq, eq_comm]
      | _ => simp

/-- Apart from two of the statuses, the tables are the same. -/
theorem statusCode_eq {status : ℕ} (h429 : status ≠ 429) (h501 : status ≠ 501) (sdk : Sdk) :
    sdk.statusCode status = Go.httpStatusToCode status := by
  cases sdk with
  | python =>
      simp only [Sdk.statusCode, Python.statusCode, Go.httpStatusToCode, if_neg h429]
      split_ifs <;> rfl
  | go => rfl
  | rust => rfl
  | node => simp only [Sdk.statusCode, Node.statusCode, Go.httpStatusToCode, if_neg h429, if_neg h501]

/-- The code in the body. -/
def Response.found (r : Response) : Sdk → Option String
  | .rust => Rust.present ((Rust.errorResponse r.json).map Prod.fst).join
  | _ => Rust.present r.named

theorem found_iff (hbody : r.Described) (sdk : Sdk) (c : String) :
    r.found sdk = some c ↔ sdk.Finds r c := by
  have hnamed : Rust.present r.named = some c ↔ r.Names c ∧ c ≠ "" := by
    rw [present_eq_some, names_iff hbody]
  cases sdk with
  | rust =>
      rw [Response.found, rust_reads hbody, hnamed, Sdk.Finds]
      simp [or_and_right]
  | _ =>
      rw [Response.found, hnamed, Sdk.Finds]
      · simp
      · simp

/-- A client reports the code in the body, or else that of the status. -/
theorem errorCode_eq (hstatus : r.ok = false) (hbody : r.Described) (sdk : Sdk) :
    sdk.errorCode r = some ((r.found sdk).getD (sdk.statusCode r.status)) := by
  cases sdk with
  | python => exact python_errorCode hstatus
  | go => exact go_errorCode hstatus hbody
  | rust => exact rust_errorCode hstatus
  | node => exact node_errorCode hstatus hbody

end Codes

section Agreement

/-- Values that are there or have a default are the same if and only if one of them is wherever it
is not the default, and no other is anywhere. -/
theorem getD_constant_iff {ι α : Type} [Nonempty ι] {f : ι → Option α} {d : ι → α} :
    (∀ i j, (f i).getD (d i) = (f j).getD (d j)) ↔
      ∃ a, (∀ i, d i ≠ a → f i = some a) ∧ ∀ i b, f i = some b → b = a := by
  constructor
  · intro h
    obtain ⟨i₀⟩ := ‹Nonempty ι›
    refine ⟨(f i₀).getD (d i₀), fun i hi => ?_, fun i b hb => ?_⟩
    · have hsame := h i i₀
      cases hf : f i with
      | none => exact absurd (by rw [← hsame, hf]; rfl) hi
      | some b => rw [← hsame, hf]; rfl
    · rw [h i₀ i, hb]
      rfl
  · rintro ⟨a, hthere, honly⟩ i j
    have hall : ∀ i, (f i).getD (d i) = a := by
      intro i
      cases hf : f i with
      | none =>
          by_contra hd
          cases hf.symm.trans (hthere i hd)
      | some b => exact honly i b hf
    rw [hall, hall]

variable {parse : Parsers} {op : Endpoint} {r : RawResponse}

/-- A body that can be read by all clients. -/
theorem seen_of_utf8 (parse : Parsers) (hutf8 : (utf8? r.body).isSome = true) (sdk : Sdk) :
    ∃ x, r.seen parse sdk = some x ∧ x.status = r.status := by
  obtain ⟨text, htext⟩ := Option.isSome_iff_exists.mp hutf8
  cases sdk with
  | python => exact ⟨_, congrArg (Option.map _) htext, rfl⟩
  | _ => exact ⟨_, rfl, rfl⟩

/-- Python raises an error of another kind for a body that is not UTF-8, and Go reports one with a
code or returns a result. -/
theorem utf8_of_agree (h : reported parse op r .python = reported parse op r .go) :
    (utf8? r.body).isSome = true := by
  by_contra hnot
  have hpython : reported parse op r .python = .raised := by
    simp only [reported, RawResponse.seen, Option.not_isSome_iff_eq_none.mp hnot, Option.map_none]
  have hgo : ∀ x : Response, Sdk.report .go op x ≠ .raised := by
    intro x
    rw [Sdk.report]
    split
    · simp
    · next hnone =>
        have hok : ¬ (200 ≤ x.status ∧ x.status < 300) := fun hok => hnone (by
          rw [ok_iff.mpr hok, Bool.or_true])
        obtain ⟨c, hc⟩ := Go.parseHTTPError_isSome hok
        rw [hc]
        simp
  exact hgo _ (h.symm.trans hpython)

theorem reported_answered (parse : Parsers) (hutf8 : (utf8? r.body).isSome = true)
    (hanswered : op.answered r.status = true) (sdk : Sdk) : reported parse op r sdk = .result := by
  obtain ⟨x, hx, hsame⟩ := seen_of_utf8 parse hutf8 sdk
  simp only [reported, hx, Sdk.report, hsame, hanswered, Bool.true_or, if_true]

/-- What is reported of a status that is an error: the code in the body, or else that of the
status. -/
theorem reported_eq (hstatus : ¬ (200 ≤ r.status ∧ r.status < 300))
    (hanswered : op.answered r.status = false)
    (hbody : ∀ sdk x, r.seen parse sdk = some x → x.Described)
    (hutf8 : (utf8? r.body).isSome = true) :
    ∃ found : Sdk → Option String, (∀ sdk c, found sdk = some c ↔ r.Finds parse sdk c) ∧
      ∀ sdk, reported parse op r sdk = .code ((found sdk).getD (sdk.statusCode r.status)) := by
  choose seen hseen hsame using seen_of_utf8 parse hutf8
  refine ⟨fun sdk => (seen sdk).found sdk, fun sdk c => ?_, fun sdk => ?_⟩
  · rw [found_iff (hbody sdk _ (hseen sdk))]
    refine ⟨fun h => ⟨_, hseen sdk, h⟩, ?_⟩
    rintro ⟨x, hx, hfinds⟩
    rwa [Option.some.inj ((hseen sdk).symm.trans hx)]
  · have hnot : (seen sdk).ok = false := by
      rw [← Bool.not_eq_true, ok_iff, hsame]
      exact hstatus
    simp only [reported, hseen, Sdk.report, hsame, hanswered, hnot, Bool.or_self,
      Bool.false_eq_true, if_false, errorCode_eq hnot (hbody sdk _ (hseen sdk))]

/-- What the clients report is the same if and only if the body is UTF-8 and one of these holds: the
status is a result; all clients find the same code in the body; the tables agree on the status, and
no client finds another code than that of the status; or the tables do not, and where they have
another code than `c` the client finds `c` in the body, and no client finds another one. -/
theorem codes_agree_iff (parse : Parsers) (op : Endpoint) (r : RawResponse)
    (hstatus : ¬ (200 ≤ r.status ∧ r.status < 300))
    (hbody : ∀ sdk x, r.seen parse sdk = some x → x.Described) :
    (∀ sdk sdk', reported parse op r sdk = reported parse op r sdk') ↔
      (utf8? r.body).isSome = true ∧
        (op.answered r.status = true ∨ (∃ c, ∀ sdk, r.Finds parse sdk c) ∨
          (r.status ≠ 429 ∧ r.status ≠ 501 ∧
            ∀ sdk c, r.Finds parse sdk c → c = Go.httpStatusToCode r.status) ∨
          ((r.status = 429 ∨ r.status = 501) ∧
            ∃ c, (∀ sdk, sdk.statusCode r.status ≠ c → r.Finds parse sdk c) ∧
              ∀ sdk c', r.Finds parse sdk c' → c' = c)) := by
  by_cases hutf8 : (utf8? r.body).isSome = true
  swap
  · exact iff_of_false (fun h => hutf8 (utf8_of_agree (h .python .go))) fun h => hutf8 h.1
  cases hanswered : op.answered r.status with
  | true =>
      have hresult := reported_answered parse hutf8 hanswered
      refine iff_of_true (fun sdk sdk' => ?_) ⟨hutf8, Or.inl rfl⟩
      rw [hresult, hresult]
  | false =>
      obtain ⟨found, hfound, hreported⟩ := reported_eq hstatus hanswered hbody hutf8
      have : Nonempty Sdk := ⟨.python⟩
      simp only [hreported, Report.code.injEq, getD_constant_iff, ← hfound, hutf8, true_and,
        Bool.false_eq_true, false_or]
      constructor
      · rintro ⟨c, hthere, honly⟩
        by_cases hall : ∀ sdk, found sdk = some c
        · exact Or.inl ⟨c, hall⟩
        · by_cases htables : r.status = 429 ∨ r.status = 501
          · exact Or.inr (Or.inr ⟨htables, c, hthere, honly⟩)
          · obtain ⟨h429, h501⟩ := not_or.mp htables
            refine Or.inr (Or.inl ⟨h429, h501, fun sdk c' hc' => ?_⟩)
            obtain ⟨sdk₀, hnot⟩ := not_forall.mp hall
            have hcode : sdk₀.statusCode r.status = c := by_contra fun h => hnot (hthere sdk₀ h)
            rw [honly sdk c' hc', ← hcode, statusCode_eq h429 h501]
      · rintro (⟨c, hall⟩ | ⟨h429, h501, honly⟩ | ⟨-, c, hthere, honly⟩)
        · exact ⟨c, fun sdk _ => hall sdk, fun sdk c' hc' =>
            Option.some.inj (hc'.symm.trans (hall sdk))⟩
        · exact ⟨_, fun sdk hne => absurd (statusCode_eq h429 h501 sdk) hne, honly⟩
        · exact ⟨c, hthere, honly⟩

/-- A response with the text `busy`, which is no JSON. -/
def plain (status : ℕ) : RawResponse where
  status := status
  statusText := ""
  body := [0x62, 0x75, 0x73, 0x79]

/-- What the parsers make of it. -/
def noJson : Parsers :=
  fun _ _ => none

section Plain

variable {status : ℕ} {sdk : Sdk} {x : Response}

theorem json_plain (hx : (plain status).seen noJson sdk = some x) : x.json = none := by
  cases sdk <;> cases hx <;> rfl

theorem described_plain (hx : (plain status).seen noJson sdk = some x) : x.Described := by
  intro members hjson
  cases (json_plain hx).symm.trans hjson

theorem not_finds_plain (c : String) : ¬ (plain status).Finds noJson sdk c := by
  rintro ⟨x, hx, ⟨members, hjson, -⟩ | ⟨-, m, hjson, -⟩, -⟩
  · cases (json_plain hx).symm.trans hjson
  · cases (json_plain hx).symm.trans hjson

end Plain

/-- All clients tell a node that is not active by the status. -/
theorem codes_agree_iff_get :
    reported noJson .get (plain 503) .python = reported noJson .get (plain 503) .go ∧
      reported noJson .get (plain 503) .go = reported noJson .get (plain 503) .rust ∧
      reported noJson .get (plain 503) .rust = reported noJson .get (plain 503) .node := by
  have hagree := (codes_agree_iff noJson .get (plain 503) (by decide)
    fun _ _ => described_plain).mpr ⟨rfl, Or.inr (Or.inr (Or.inl ⟨by decide, by decide,
      fun sdk c hc => absurd hc (not_finds_plain c)⟩))⟩
  exact ⟨hagree .python .go, hagree .go .rust, hagree .rust .node⟩

/-- A client that is turned away for too many requests learns of it in two of the languages. -/
theorem codes_differ :
    ¬ (200 ≤ (plain 429).status ∧ (plain 429).status < 300) ∧
      (∀ sdk x, (plain 429).seen noJson sdk = some x → x.Described) ∧
      reported noJson .get (plain 429) .python = .code "RateLimited" ∧
      reported noJson .get (plain 429) .node = .code "RateLimited" ∧
      reported noJson .get (plain 429) .go = .code "InternalError" ∧
      reported noJson .get (plain 429) .rust = .code "InternalError" :=
  ⟨by decide, fun _ _ => described_plain, rfl, rfl, rfl, rfl⟩

end Agreement

end Http

end DittoClient
