import DittoClient.Http.Errors
import DittoClient.NodeHttp.Retrying
import DittoClient.Wire.Validation

/-!
# Deleting a key over HTTP

`delete` tells whether the key existed by the status of the response: 204 for a key that the server
removed, 404 for one that it does not have. A deletion whose response is lost is repeated like any
other request, and then the server does not find the key any more. The server is a map of keys, and
what becomes of each attempt on its way is given in advance.
-/

namespace DittoClient

namespace NodeHttp

open DittoClient.NodeTcp (Err)
open DittoClient.Transition

/-- Why a deletion fails: its arguments are invalid, no attempt had a response, or the response is
an error. -/
inductive Rejection
  | invalid (text : String)
  | thrown (e : Err)
  | refused (t : Http.Node.Thrown)

def deletion : RequestInit where
  method := some "DELETE"
  contentType := none
  body := none

section Delete

variable (toUpperCase : String → String) (c : Settings) (strict : Bool) (reply : ℕ → Reply Unit)
  (jitter : ℕ → ℕ) (body : Http.Response) (key : String) (ns : Option String) (s : Circuit)

/-- `delete`, with what the last response holds beside its status. -/
def delete : Except Rejection Bool :=
  match Wire.nodeValidators.validateCoreInputs strict "delete" key ns with
  | .error text => .error (.invalid text)
  | .ok () =>
      match (request toUpperCase c reply jitter deletion s).2 with
      | .thrown e => .error (.thrown e)
      | .response status () =>
          if status = 404 ∨ status = 204 then .ok (decide (status = 204))
          else
            match Http.Node.assertOk { body with status := status } with
            | some t => .error (.refused t)
            | none => .ok true

/-- The request is sent: the arguments are valid, and the breaker admits it. -/
def Sent : Prop :=
  Wire.nodeValidators.validateCoreInputs strict "delete" key ns = .ok () ∧
    ∃ t, s.beforeRequest c = .ok () t

end Delete

/-- What becomes of an attempt: the request is lost on its way to the server, the response is lost
on its way back, the server has no time for the request, or all goes well. -/
inductive Fate
  | lostRequest (e : Err)
  | lostResponse (e : Err)
  | refused (status : ℕ) (h : isRetryableStatus status = true)
  | answered

/-- Whether the client gets the answer of the server to its request. -/
def Fate.answers : Fate → Bool
  | .answered => true
  | _ => false

/-- Whether the server processes the request without the client learning of it. -/
def Fate.hides : Fate → Bool
  | .lostResponse _ => true
  | _ => false

section Server

variable {V : Type*} (key : String) (store : String → Option V) (fates : ℕ → Fate)

/-- The server without the key. -/
def remove (store : String → Option V) : String → Option V :=
  Function.update store key none

/-- The answer of the server to a deletion. -/
def answer (store : String → Option V) : Reply Unit :=
  .response (if (store key).isSome then 204 else 404) ()

/-- What an attempt leaves on the server, and its reply. -/
def serve (store : String → Option V) : Fate → (String → Option V) × Reply Unit
  | .lostRequest e => (store, .thrown e)
  | .lostResponse e => (remove key store, .thrown e)
  | .refused status _ => (store, .response status ())
  | .answered => (remove key store, answer key store)

/-- The server before an attempt. -/
def storeAt : ℕ → String → Option V
  | 0 => store
  | n + 1 => (serve key (storeAt n) (fates n)).1

def replyAt (n : ℕ) : Reply Unit :=
  (serve key (storeAt key store fates n) (fates n)).2

/-- The answer that the client gets is not the first one that the server gave. -/
def Repeated (c : Settings) : Prop :=
  ∃ i ≤ c.maxRetries, (fates i).answers = true ∧ (∀ j < i, (fates j).answers = false) ∧
    ∃ j < i, (fates j).hides = true

end Server

section Deletion

variable {V : Type*} {toUpperCase : String → String} {c : Settings} {strict : Bool}
  {jitter : ℕ → ℕ} {body : Http.Response} {key : String} {ns : Option String} {s : Circuit}
  {store : String → Option V} {fates : ℕ → Fate} {n : ℕ}

/-- Other keys are left alone. -/
theorem storeAt_of_ne {k : String} (h : k ≠ key) (n : ℕ) :
    storeAt key store fates n k = store k := by
  induction n with
  | zero => rfl
  | succ n ih =>
      rw [storeAt]
      cases fates n <;> simp [serve, remove, h, ih]

/-- The key is on the server as long as no attempt was processed. -/
theorem storeAt_key (hanswers : ∀ j < n, (fates j).answers = false) :
    (storeAt key store fates n key).isSome = true ↔
      (store key).isSome = true ∧ ∀ j < n, (fates j).hides = false := by
  induction n with
  | zero => simp [storeAt]
  | succ n ih =>
      have hlast := hanswers n (Nat.lt_succ_self n)
      rw [Nat.forall_lt_succ_right, ← and_assoc,
        ← ih fun j hj => hanswers j (Nat.lt_succ_of_lt hj), storeAt]
      cases hfate : fates n with
      | answered =>
          rw [hfate] at hlast
          cases hlast
      | _ => simp [serve, remove, Fate.hides]

/-- An attempt fails if and only if the client gets no answer. -/
theorem replyAt_fails : (replyAt key store fates n).fails = !(fates n).answers := by
  rw [replyAt]
  cases fates n with
  | answered =>
      simp only [serve, answer, Reply.fails, Fate.answers]
      split_ifs <;> rfl
  | refused status h => exact h
  | _ => rfl

theorem replyAt_of_answers (h : (fates n).answers = true) :
    replyAt key store fates n = answer key (storeAt key store fates n) := by
  rw [replyAt]
  cases hfate : fates n with
  | answered => rfl
  | _ =>
      rw [hfate] at h
      cases h

/-- A status that may be repeated is an error. -/
theorem assertOk_of_retryable (body : Http.Response) {status : ℕ}
    (h : isRetryableStatus status = true) :
    ∃ t, Http.Node.assertOk { body with status := status } = some t := by
  have hok : Http.Response.ok { body with status := status } = false := by
    simp only [isRetryableStatus, Bool.or_eq_true, decide_eq_true_eq] at h
    simp only [Http.Response.ok, Bool.and_eq_false_iff, decide_eq_false_iff_not]
    omega
  rw [Http.Node.assertOk, hok, if_neg Bool.false_ne_true]
  split
  · exact ⟨_, rfl⟩
  · exact ⟨_, rfl⟩

/-- A request that is sent ends like its last attempt. -/
theorem request_of_sent (h : Sent c strict key ns s) (reply : ℕ → Reply Unit) :
    (request toUpperCase c reply jitter deletion s).2 =
      reply (lastAttempt c (canRetry toUpperCase c deletion) reply) := by
  obtain ⟨-, t, ht⟩ := h
  have hbody : normalizeRequestBody deletion = .ok () := rfl
  rw [request, hbody]
  simp only [ht, loop_eq (Nat.zero_le _)]

/-- Without an answer to its last attempt the deletion fails. -/
theorem delete_of_fails (jitter : ℕ → ℕ) (body : Http.Response) (h : Sent c strict key ns s)
    {reply : ℕ → Reply Unit}
    (hfails : (reply (lastAttempt c (canRetry toUpperCase c deletion) reply)).fails = true) :
    ∃ e, delete toUpperCase c strict reply jitter body key ns s = .error e := by
  simp only [delete, h.1, request_of_sent h]
  cases hreply : reply (lastAttempt c (canRetry toUpperCase c deletion) reply) with
  | thrown e => exact ⟨_, rfl⟩
  | response status rest =>
      rw [hreply] at hfails
      obtain ⟨t, ht⟩ := assertOk_of_retryable body hfails
      have hnot : ¬ (status = 404 ∨ status = 204) := by
        rintro (rfl | rfl) <;> cases hfails
      simp only [if_neg hnot, ht]
      exact ⟨_, rfl⟩

/-- Otherwise it tells whether the server found the key at its last attempt. -/
theorem delete_of_answers (h : Sent c strict key ns s)
    (hlast : lastAttempt c (canRetry toUpperCase c deletion) (replyAt key store fates) = n)
    (hanswers : (fates n).answers = true) :
    delete toUpperCase c strict (replyAt key store fates) jitter body key ns s =
      .ok (storeAt key store fates n key).isSome := by
  simp only [delete, h.1, request_of_sent h, hlast, replyAt_of_answers hanswers, answer]
  cases (storeAt key store fates n key).isSome <;> rfl

/-- A deletion that is not sent fails. -/
theorem delete_of_not_sent (toUpperCase : String → String) (jitter : ℕ → ℕ)
    (body : Http.Response) (h : ¬ Sent c strict key ns s) (reply : ℕ → Reply Unit) :
    ∃ e, delete toUpperCase c strict reply jitter body key ns s = .error e := by
  rw [delete]
  cases hvalid : Wire.nodeValidators.validateCoreInputs strict "delete" key ns with
  | error text => exact ⟨_, rfl⟩
  | ok u =>
      cases hbefore : s.beforeRequest c with
      | ok u t => exact absurd ⟨hvalid, t, hbefore⟩ h
      | error e t =>
          have hbody : normalizeRequestBody deletion = .ok () := rfl
          simp only [request, hbody, hbefore]
          exact ⟨_, rfl⟩

/-- A deletion that resolves tells whether the key existed, unless the key existed and the answer
that reached the client is one to a repeated request, after the server had removed the key. -/
theorem delete_tells_iff (toUpperCase : String → String) (c : Settings) (strict : Bool)
    (jitter : ℕ → ℕ) (body : Http.Response) (key : String) (ns : Option String) (s : Circuit)
    (store : String → Option V) (fates : ℕ → Fate) :
    (∀ b, delete toUpperCase c strict (replyAt key store fates) jitter body key ns s = .ok b →
        (b = true ↔ (store key).isSome = true)) ↔
      ¬ (Sent c strict key ns s ∧ canRetry toUpperCase c deletion = true ∧
        (store key).isSome = true ∧ Repeated fates c) := by
  by_cases hsent : Sent c strict key ns s
  swap
  · obtain ⟨e, he⟩ := delete_of_not_sent toUpperCase jitter body hsent
      (replyAt key store fates)
    simp [he, hsent]
  obtain ⟨n, hn⟩ : ∃ n, lastAttempt c (canRetry toUpperCase c deletion)
    (replyAt key store fates) = n := ⟨_, rfl⟩
  have hbefore : ∀ j < n, (fates j).answers = false := by
    intro j hj
    have hfails : (replyAt key store fates j).fails = true := by
      rw [← hn] at hj
      exact fails_of_lt_stop hj
    simpa [replyAt_fails] using hfails
  have hle : n ≤ budget c (canRetry toUpperCase c deletion) := hn ▸ stop_le _ _
  cases hanswers : (fates n).answers with
  | false =>
      have hfails : (replyAt key store fates n).fails = true := by
        rw [replyAt_fails, hanswers]
        rfl
      obtain ⟨e, he⟩ := delete_of_fails jitter body hsent
        (show (replyAt key store fates (lastAttempt c (canRetry toUpperCase c deletion)
          (replyAt key store fates))).fails = true by rwa [hn])
      have hnot : canRetry toUpperCase c deletion = true → ¬ Repeated fates c := by
        rintro hretry ⟨i, hi, hianswers, -, -⟩
        have hbudget : c.maxRetries ≤ n := by
          have hspec := stop_spec (fun n => (replyAt key store fates n).fails)
            (budget c (canRetry toUpperCase c deletion))
          rw [← lastAttempt, hn, hfails, budget, if_pos hretry] at hspec
          exact hspec.resolve_left Bool.true_eq_false.mp
        rcases Nat.lt_or_eq_of_le (le_trans hi hbudget) with hlt | heq
        · rw [hbefore i hlt] at hianswers
          cases hianswers
        · rw [heq, hanswers] at hianswers
          cases hianswers
      simp only [he, reduceCtorEq, false_implies, implies_true, true_iff]
      exact fun h => hnot h.2.1 h.2.2.2
  | true =>
      rw [delete_of_answers hsent hn hanswers]
      simp only [Except.ok.injEq, forall_eq', storeAt_key hbefore]
      constructor
      · rintro h ⟨-, -, hexists, i, -, hianswers, hifirst, j, hj, hhides⟩
        have hin : i = n := by
          rcases Nat.lt_trichotomy i n with hlt | heq | hgt
          · rw [hbefore i hlt] at hianswers
            cases hianswers
          · exact heq
          · rw [hifirst n hgt] at hanswers
            cases hanswers
        rw [(h.mpr hexists).2 j (hin ▸ hj)] at hhides
        cases hhides
      · intro h
        refine ⟨fun hb => hb.1, fun hexists => ⟨hexists, fun j hj => ?_⟩⟩
        by_contra hhides
        have hretry : canRetry toUpperCase c deletion = true := by
          by_contra hretry
          rw [budget, if_neg hretry] at hle
          omega
        rw [budget, if_pos hretry] at hle
        exact h ⟨hsent, hretry, hexists, n, hle, hanswers, hbefore, j, hj, by simpa using hhides⟩

/-- The options of a client that is constructed without any. -/
def defaults : Settings :=
  Settings.ofOptions ⟨none, none, none, none, none, none, none, none, none, none⟩

/-- The first response is lost, and then nothing is. -/
def interrupted : ℕ → Fate
  | 0 => .lostResponse (.error "socket hang up")
  | _ => .answered

/-- A key that is deleted is reported as one that did not exist, if the first response is lost. -/
theorem delete_denies :
    delete id defaults false (replyAt "k" (fun _ => some ()) interrupted) (fun _ => 0)
      ⟨404, "Not Found", "", none⟩ "k" none (Circuit.init 0) = .ok false := by
  have hsent : Sent defaults false "k" none (Circuit.init 0) := ⟨rfl, _, rfl⟩
  have hretry : canRetry id defaults deletion = true := by decide +kernel
  have hlast : lastAttempt defaults (canRetry id defaults deletion)
      (replyAt "k" (fun _ => some ()) interrupted) = 1 := by
    have hfails : ∀ j < 1, (replyAt "k" (fun _ => some ()) interrupted j).fails = true := by
      intro j hj
      obtain rfl : j = 0 := by omega
      rfl
    rw [lastAttempt, stop_eq_min hfails rfl, hretry]
    rfl
  rw [delete_of_answers hsent hlast rfl]
  rfl

end Deletion

end NodeHttp

end DittoClient
