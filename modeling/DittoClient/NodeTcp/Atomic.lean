import DittoClient.LockStep.Unsupported
import DittoClient.NodeTcp.Outcomes

/-!
# The atomic operations of the Node.js TCP client

What `setNX` and `incr` make of the outcome of their request. An error is reported as
UnsupportedRequest by its text, and the texts of some errors of the client itself are never among
those that are looked for.
-/

namespace DittoClient

namespace NodeTcp

open DittoClient.LockStep
open DittoClient.Wire

/-- The texts by which the normalizer tells that the server lacks atomic operations. -/
def unsupportedTexts : List String :=
  ["unsupported", "protocol", "decode", "missing client_response", "oneof has no active field",
    "unexpected response", "socket hang up", "econnreset", "unexpected eof"]

/-- Whether the normalizer takes a message for one of a server without atomic operations. -/
def takenForUnsupported (message : String) : Bool :=
  Text.containsAny Text.lowerChar unsupportedTexts message

def unsupportedAtomicOperationError (operation : String) : Err :=
  .ditto "UnsupportedRequest" ("UnsupportedRequest: server does not support " ++ operation ++
    ". Upgrade dittod to a version with atomic primitives.")

def normalizeAtomicUnsupportedError (operation : String) : Err → Err
  | .ditto code message => .ditto code message
  | .error message =>
      if takenForUnsupported message then unsupportedAtomicOperationError operation
      else .error message

/-- The body of an atomic operation behind the call to `send`, with what it returns for a response
of its own. -/
def atomic {α : Type} (operation : String) (own : ClientResponse → Option α) :
    Settlement → Except Err α
  | .rejected e => .error (normalizeAtomicUnsupportedError operation e)
  | .resolved r =>
      match own r, r with
      | some a, _ => .ok a
      | none, .error code message =>
          .error (normalizeAtomicUnsupportedError operation (.ditto code message))
      | none, r =>
          .error (normalizeAtomicUnsupportedError operation
            (.error ("Unexpected response: " ++ r.typeName)))

def setNX : Settlement → Except Err (Bool × ℤ) :=
  atomic "SET_NX" fun r =>
    match r with
    | .setNx created version => some (created, version)
    | _ => none

def incr : Settlement → Except Err (ℤ × ℤ) :=
  atomic "INCR" fun r =>
    match r with
    | .counter value version => some (value, version)
    | _ => none

/-- The error that an operation throws for the outcome of its request, if it is an atomic one. -/
def atomicError : Request → Settlement → Option Err
  | .setNx _ _ _ _, o =>
      match setNX o with
      | .ok _ => none
      | .error e => some e
  | .incr _ _ _ _, o =>
      match incr o with
      | .ok _ => none
      | .error e => some e
  | _, _ => none

/-- What `send` rejects with at once. -/
def sendError (opts : Options) (s : State) : Option Err :=
  if s.destroyed then some (.error "Client has been destroyed.")
  else if s.socket.isNone && !opts.autoReconnect then
    some (.error "Not connected. Call connect() first.")
  else none

section Errors

variable {opts : Options} {s : State} {req : Request} {m : String}

theorem send_of_sendError {e : Err} (h : sendError opts s = some e) : send opts req s = s := by
  unfold sendError at h
  split at h
  · next hdestroyed => simp [send, hdestroyed]
  · next hdestroyed =>
      split at h
      · next hoff =>
          obtain ⟨hsocket, hauto⟩ := Bool.and_eq_true_iff.mp hoff
          simp only [Option.isNone_iff_eq_none, Bool.not_eq_true'] at hsocket hauto
          simp [send, hdestroyed, hsocket, hauto]
      · cases h

/-- Whether an error is reported as UnsupportedRequest: it has this code, or its text is taken for
that of a server without atomic operations. -/
def reported : Err → Bool
  | .ditto code _ => decide (code = "UnsupportedRequest")
  | .error message => takenForUnsupported message

theorem reported_of_normalize {operation : String} {e : Err}
    (h : normalizeAtomicUnsupportedError operation e = .ditto "UnsupportedRequest" m) :
    reported e = true := by
  cases e with
  | ditto code message =>
      cases h
      rfl
  | error message =>
      simp only [normalizeAtomicUnsupportedError] at h
      split at h
      · next htaken => exact htaken
      · cases h

/-- An atomic operation reports an error of its request as unsupported by the text of the error. -/
theorem reported_of_rejected {e : Err}
    (h : atomicError req (.rejected e) = some (.ditto "UnsupportedRequest" m)) :
    isAtomic req = true ∧ reported e = true := by
  cases req with
  | setNx key value ttl ns => exact ⟨rfl, reported_of_normalize (Option.some.inj h)⟩
  | incr key delta ttl ns => exact ⟨rfl, reported_of_normalize (Option.some.inj h)⟩
  | _ => cases h

/-- An atomic operation reports a response as unsupported if the response declines it. -/
theorem declines_of_resolved {r : ClientResponse}
    (h : atomicError req (.resolved r) = some (.ditto "UnsupportedRequest" m)) :
    isAtomic req = true ∧ Declines req r := by
  cases req with
  | setNx key value ttl ns =>
      refine ⟨rfl, ?_⟩
      cases r with
      | setNx created version => cases h
      | error code message =>
          cases h
          exact Or.inl ⟨_, rfl⟩
      | _ => exact Or.inr ⟨rfl, by simp⟩
  | incr key delta ttl ns =>
      refine ⟨rfl, ?_⟩
      cases r with
      | counter value version => cases h
      | error code message =>
          cases h
          exact Or.inl ⟨_, rfl⟩
      | _ => exact Or.inr ⟨rfl, by simp⟩
  | _ => cases h

/-- The characters of the text of a request timeout, in lower case. -/
def inTimeoutText (c : Char) : Bool :=
  c.isDigit || decide (c ∈ "request timeout after ms-".toList)

/-- The text of a request timeout lacks a letter of each of the texts, whatever its number is. -/
theorem timeoutErr_not_reported (opts : Options) : reported (timeoutErr opts) = false := by
  have hfront : ∀ c ∈ "Request timeout after ".toList,
      inTimeoutText (Text.lowerChar c) = true := List.all_eq_true.mp (by decide)
  have hback : ∀ c ∈ "ms".toList, inTimeoutText (Text.lowerChar c) = true :=
    List.all_eq_true.mp (by decide)
  have hnumber : ∀ c ∈ (toString opts.requestTimeoutMs).toList,
      inTimeoutText (Text.lowerChar c) = true := by
    intro c hc
    rcases Text.mem_toString_int hc with hdigit | rfl
    · rw [Text.lowerChar_of_isDigit hdigit]
      simp [inTimeoutText, hdigit]
    · decide
  have htexts : ∀ text ∈ unsupportedTexts, text.toList.all inTimeoutText = false := by decide
  have hmessage : (s!"Request timeout after {opts.requestTimeoutMs}ms").toList =
      "Request timeout after ".toList ++ (toString opts.requestTimeoutMs).toList ++
        "ms".toList := by
    change ("Request timeout after " ++ toString opts.requestTimeoutMs ++ "ms").toList = _
    rw [String.toList_append, String.toList_append]
  refine Text.not_containsAny (fun c hc => ?_) htexts
  rw [hmessage] at hc
  rcases List.mem_append.mp hc with hc | hc
  · rcases List.mem_append.mp hc with hc | hc
    · exact hfront c hc
    · exact hnumber c hc
  · exact hback c hc

theorem closedErr_not_reported : reported (.error "Client closed.") = false := by
  decide

/-- What `send` rejects with at once is not reported as unsupported. -/
theorem sendError_not_reported {e : Err} (h : sendError opts s = some e) : reported e = false := by
  unfold sendError at h
  split at h
  · cases h
    decide
  · split at h
    · cases h
      decide
    · cases h

end Errors

end NodeTcp

end DittoClient
