import DittoClient.Http.Body

/-!
# Errors of the Python HTTP client

`_assert_ok` raises an error for a response that is not a success, and takes its code from the
body, or else from the status. The atomic operations look at some statuses before that: a server
that answers one of these is taken for one that does not know the operation, unless the body says
that it does not support the request. So the code that the body names is lost, which
`server_code_wins` says exactly when.
-/

namespace DittoClient

namespace Http

namespace Python

open DittoClient.Text

/-- `DittoErrorCode` -/
inductive DittoErrorCode
  | nodeInactive
  | noQuorum
  | keyNotFound
  | internalError
  | writeTimeout
  | valueTooLarge
  | keyLimitReached
  | rateLimited
  | circuitOpen
  | namespaceQuotaExceeded
  | authFailed
  | unsupportedRequest
  | typeMismatch
  | overflow
  deriving DecidableEq, Repr

namespace DittoErrorCode

def value : DittoErrorCode → String
  | .nodeInactive => "NodeInactive"
  | .noQuorum => "NoQuorum"
  | .keyNotFound => "KeyNotFound"
  | .internalError => "InternalError"
  | .writeTimeout => "WriteTimeout"
  | .valueTooLarge => "ValueTooLarge"
  | .keyLimitReached => "KeyLimitReached"
  | .rateLimited => "RateLimited"
  | .circuitOpen => "CircuitOpen"
  | .namespaceQuotaExceeded => "NamespaceQuotaExceeded"
  | .authFailed => "AuthFailed"
  | .unsupportedRequest => "UnsupportedRequest"
  | .typeMismatch => "TypeMismatch"
  | .overflow => "Overflow"

def members : List DittoErrorCode :=
  [.nodeInactive, .noQuorum, .keyNotFound, .internalError, .writeTimeout, .valueTooLarge,
    .keyLimitReached, .rateLimited, .circuitOpen, .namespaceQuotaExceeded, .authFailed,
    .unsupportedRequest, .typeMismatch, .overflow]

/-- The member with a value. -/
def ofValue (s : String) : Option DittoErrorCode :=
  members.find? fun c => decide (c.value = s)

end DittoErrorCode

/-- The code of an error: a member, or the text of a code that is none. -/
inductive Code
  | member (c : DittoErrorCode)
  | raw (s : String)
  deriving DecidableEq, Repr

namespace Code

/-- The code that a text names. -/
def ofText (s : String) : Code :=
  match DittoErrorCode.ofValue s with
  | some c => .member c
  | none => .raw s

def text : Code → String
  | .member c => c.value
  | .raw s => s

theorem ofText_text (s : String) : (ofText s).text = s := by
  rw [ofText]
  cases h : DittoErrorCode.ofValue s with
  | none => rfl
  | some c =>
      have hfound := List.find?_some (p := fun c : DittoErrorCode => decide (c.value = s)) h
      exact of_decide_eq_true hfound

end Code

/-- `DittoError`, of which the message may be any value. -/
structure DittoError where
  code : Code
  message : Json

/-- The code of a status. -/
def statusCode (status : ℕ) : DittoErrorCode :=
  if status = 503 then .nodeInactive
  else if status = 504 then .writeTimeout
  else if status = 404 then .keyNotFound
  else if status = 429 then .rateLimited
  else .internalError

/-- `a or b`, where a name that is missing counts as false. -/
def orElse (a : Option Json) (b : Json) : Json :=
  match a with
  | some v => if v.truthy then v else b
  | none => b

/-- The message and the code in the body. A text that is not JSON and a value that is not an object
have neither. -/
def bodyError (r : Response) : Json × Option String :=
  match r.json with
  | some (.object members) =>
      (orElse (Json.lookup "message" members)
          (orElse (Json.lookup "error" members) (.string r.text)),
        (Json.lookup "error" members).bind Json.text?)
  | _ => (.string r.text, none)

/-- `_assert_ok` -/
def assertOk (r : Response) : Except DittoError Unit :=
  if 200 ≤ r.status ∧ r.status < 300 then .ok ()
  else
    let code := match (bodyError r).2 with
      | some s => if s = "" then .member (statusCode r.status) else Code.ofText s
      | none => .member (statusCode r.status)
    .error ⟨code, (bodyError r).1⟩

def unsupportedAtomicOperationError (operation : String) : DittoError where
  code := .member .unsupportedRequest
  message := .string ("UnsupportedRequest: server does not support " ++ operation ++ ". " ++
    "Upgrade dittod to a version with atomic primitives.")

def atomicHttpUnsupportedError (r : Response) (operation : String) : DittoError :=
  match r.json with
  | some (.object members) =>
      if (Json.lookup "error" members).bind Json.text? = some "UnsupportedRequest" then
        ⟨.member .unsupportedRequest,
          orElse (Json.lookup "message" members) (.string "UnsupportedRequest")⟩
      else unsupportedAtomicOperationError operation
  | _ => unsupportedAtomicOperationError operation

def raiseIfAtomicHttpUnsupported (r : Response) (operation : String) : Except DittoError Unit :=
  if r.status ∈ [400, 404, 501] then .error (atomicHttpUnsupportedError r operation) else .ok ()

/-- The operations that look at the body of an error. -/
inductive Operation
  | get
  | set
  | setNx
  | incr
  | delete
  | deleteByPattern
  | setTtlByPattern
  | stats
  deriving DecidableEq, Repr

/-- What an operation makes of a status: there is no such key, the key was deleted, or the result is
in the body. -/
inductive Verdict
  | missing
  | deleted
  | inBody
  deriving DecidableEq, Repr

/-- The part of an operation between the response and the reading of its result. -/
def respond (op : Operation) (r : Response) : Except DittoError Verdict :=
  match op with
  | .get => do
      if r.status = 404 then .ok .missing
      else
        assertOk r
        .ok .inBody
  | .delete => do
      if r.status = 404 then .ok .missing
      else if r.status = 204 then .ok .deleted
      else
        assertOk r
        .ok .deleted
  | .setNx => do
      raiseIfAtomicHttpUnsupported r "SET_NX"
      assertOk r
      .ok .inBody
  | .incr => do
      raiseIfAtomicHttpUnsupported r "INCR"
      assertOk r
      .ok .inBody
  | .set => do
      assertOk r
      .ok .inBody
  | .deleteByPattern => do
      assertOk r
      .ok .inBody
  | .setTtlByPattern => do
      assertOk r
      .ok .inBody
  | .stats => do
      assertOk r
      .ok .inBody

/-- The statuses that `get` and `delete` turn into a result. -/
def Operation.absent (op : Operation) (status : ℕ) : Bool :=
  decide (op = .get ∨ op = .delete) && decide (status = 404)

/-- The atomic operations. -/
def Operation.atomic (op : Operation) : Bool :=
  decide (op = .setNx ∨ op = .incr)

section Codes

variable {r : Response} {c : String} {op : Operation}

/-- A code in the body is the one that is raised. -/
theorem assertOk_of_names (hstatus : r.ok = false) (hbody : r.Names c) (hc : c ≠ "") :
    ∃ message, assertOk r = .error ⟨Code.ofText c, message⟩ := by
  obtain ⟨members, hjson, herror⟩ := hbody
  have hnot : ¬ (200 ≤ r.status ∧ r.status < 300) := by
    intro h
    simp [Response.ok, h.1, h.2] at hstatus
  refine ⟨(bodyError r).1, ?_⟩
  have hcode : (bodyError r).2 = some c := by
    simp only [bodyError, hjson, herror, Option.bind_some, Json.text?]
  rw [assertOk, if_neg hnot, hcode]
  simp only [if_neg hc]

theorem atomic_of_names (hbody : r.Names c) (operation : String) :
    ∃ message, atomicHttpUnsupportedError r operation = ⟨.member .unsupportedRequest, message⟩ := by
  obtain ⟨members, hjson, herror⟩ := hbody
  simp only [atomicHttpUnsupportedError, hjson]
  split
  · exact ⟨_, rfl⟩
  · exact ⟨_, rfl⟩

theorem ofText_eq_unsupported :
    Code.ofText c = .member .unsupportedRequest ↔ c = "UnsupportedRequest" := by
  constructor
  · intro h
    have htext := Code.ofText_text c
    rw [h] at htext
    exact htext.symm
  · rintro rfl
    decide

/-- An atomic operation raises the code in the body, unless it takes the status for that of a server
that does not know the operation. -/
theorem respond_atomic (hop : op.atomic = true) (hstatus : r.ok = false) (hbody : r.Names c)
    (hc : c ≠ "") :
    (∃ message, respond op r = .error ⟨Code.ofText c, message⟩) ↔
      (r.status ∈ [400, 404, 501] → c = "UnsupportedRequest") := by
  have hrespond : ∃ operation, respond op r = raiseIfAtomicHttpUnsupported r operation >>=
      fun _ => assertOk r >>= fun _ => .ok .inBody := by
    cases op with
    | setNx => exact ⟨_, rfl⟩
    | incr => exact ⟨_, rfl⟩
    | _ => cases hop
  obtain ⟨operation, hrespond⟩ := hrespond
  rw [hrespond]
  by_cases hlegacy : r.status ∈ [400, 404, 501]
  · obtain ⟨message, hmessage⟩ := atomic_of_names hbody operation
    rw [raiseIfAtomicHttpUnsupported, if_pos hlegacy, hmessage, ← ofText_eq_unsupported]
    constructor
    · rintro ⟨message', h⟩ -
      exact ((DittoError.mk.injEq .. ▸ Except.error.inj h).1).symm
    · intro h
      rw [h hlegacy]
      exact ⟨message, rfl⟩
  · obtain ⟨message, hmessage⟩ := assertOk_of_names hstatus hbody hc
    rw [raiseIfAtomicHttpUnsupported, if_neg hlegacy, hmessage]
    exact ⟨fun _ h => absurd h hlegacy, fun _ => ⟨message, rfl⟩⟩

theorem respond_plain (hop : op.atomic = false) (habsent : op.absent r.status = false)
    (hstatus : r.ok = false) (hbody : r.Names c) (hc : c ≠ "") :
    ∃ message, respond op r = .error ⟨Code.ofText c, message⟩ := by
  obtain ⟨message, hmessage⟩ := assertOk_of_names hstatus hbody hc
  refine ⟨message, ?_⟩
  cases op with
  | setNx => cases hop
  | incr => cases hop
  | get =>
      have h404 : r.status ≠ 404 := by simpa [Operation.absent] using habsent
      rw [respond, if_neg h404, hmessage]
      rfl
  | delete =>
      have h404 : r.status ≠ 404 := by simpa [Operation.absent] using habsent
      have h204 : r.status ≠ 204 := by
        intro h
        simp [Response.ok, h] at hstatus
      rw [respond, if_neg h404, if_neg h204, hmessage]
      rfl
  | _ =>
      rw [respond, hmessage]
      rfl

/-- The code that the body of an error names is the one that is raised if and only if no atomic
operation met one of the statuses of a server that does not know it, or the code is that of an
unsupported request. -/
theorem server_code_wins (op : Operation) (r : Response) (c : String) (hstatus : r.ok = false)
    (habsent : op.absent r.status = false) (hbody : r.Names c)
    (hblank : blank pythonSpace c = false) :
    (∃ message, respond op r = .error ⟨Code.ofText c, message⟩) ↔
      (op.atomic = true → r.status ∈ [400, 404, 501] → c = "UnsupportedRequest") := by
  have hc : c ≠ "" := by
    rintro rfl
    cases hblank
  cases hop : op.atomic with
  | false =>
      exact ⟨fun _ => nofun, fun _ => respond_plain hop habsent hstatus hbody hc⟩
  | true =>
      rw [respond_atomic hop hstatus hbody hc]
      exact ⟨fun h _ => h, fun h => h rfl⟩

/-- A counter that is none, reported by a server with the status of a bad request. -/
def notACounter : Response where
  status := 400
  statusText := "Bad Request"
  text := "\x7b\"error\":\"TypeMismatch\"\x7d"
  json := some (.object [("error", .string "TypeMismatch")])

theorem server_code_wins_get :
    ∃ message, respond .get notACounter = .error ⟨Code.ofText "TypeMismatch", message⟩ :=
  (server_code_wins .get notACounter "TypeMismatch" rfl rfl ⟨_, rfl, rfl⟩ (by decide)).mpr
    fun hatomic => absurd hatomic (by decide)

/-- The increment of something that is no counter is reported as an operation that the server does
not know. -/
theorem server_code_lost :
    notACounter.ok = false ∧ Operation.incr.absent notACounter.status = false ∧
      notACounter.Names "TypeMismatch" ∧ blank pythonSpace "TypeMismatch" = false ∧
      respond .incr notACounter = .error (unsupportedAtomicOperationError "INCR") ∧
      (unsupportedAtomicOperationError "INCR").code ≠ Code.ofText "TypeMismatch" :=
  ⟨rfl, rfl, ⟨_, rfl, rfl⟩, by decide, rfl, by decide⟩

end Codes

end Python

end Http

end DittoClient
