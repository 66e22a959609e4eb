import DittoClient.Http.Agreement
import DittoClient.Http.Transports

/-!
# Calls of a service over both transports

A service answers a request over TCP with a frame and over HTTP with a JSON object. A sequence of
calls of any of the five HTTP clients has the same effect as the one of any of the five TCP clients,
and returns the same, as long as the numbers of the service are held by all of them (`runs_agree`).
-/

namespace DittoClient

namespace Http

open DittoClient.LockStep
open DittoClient.Octets
open DittoClient.Protobuf
open DittoClient.Text
open DittoClient.Wire

/-- What a call of the TCP client returns of a frame. -/
def receive (overflowChecks : Bool) (sdk : Wire.Sdk) (c : LockStep.Call) (bs : List UInt8) :
    Option Outcome :=
  match (dialect overflowChecks sdk).decodeResponse bs with
  | .ok y => (accept sdk c y).bind outcome
  | .error _ => none

/-- A response with numbers that all clients hold, and no error in answer to a ping. -/
def Common (r : Wire.Request) : ServerResponse → Prop
  | .value _ _ version => version.toNat < 2 ^ 53
  | .ok version => version.toNat < 2 ^ 53
  | .patternDeleted n => n.toNat < 2 ^ 53
  | .patternTtlUpdated n => n.toNat < 2 ^ 53
  | .setNx _ version => version.toNat < 2 ^ 63
  | .counter _ version => version.toNat < 2 ^ 63
  | .error _ _ => r ≠ .ping
  | _ => True

section Responses

variable {σ : Type*} {M : Service σ} {overflowChecks : Bool} {sdk : Wire.Sdk} {c : LockStep.Call}
  {r : Wire.Request} {x : ServerResponse}

/-- The clients decode the frames of a service. -/
theorem receive_payload (M : Service σ) (s : σ) (q : Wire.Request) :
    receive overflowChecks sdk c (M.payload s q).bytes =
      returnedTcp overflowChecks sdk c (M.handle s q).2 := by
  have hdecode : ∀ y, (dialect overflowChecks sdk).decodeResponse (M.payload s q).bytes = .ok y ↔
      (dialect overflowChecks sdk).meaning (M.handle s q).2 = .ok y := by
    intro y
    have hsize : 2 ^ 31 - 1 ≤ 2 ^ 31 := Nat.sub_le _ _
    cases sdk with
    | python =>
        exact M.decode_payload (python_follows (2 ^ 31)) python_plain python_standard hsize s q y
    | go => exact M.decode_payload go_follows go_plain go_standard (by decide) s q y
    | rust =>
        exact M.decode_payload (rust_follows overflowChecks) (rust_plain overflowChecks)
          (rust_standard overflowChecks) (by decide) s q y
    | java => exact M.decode_payload java_follows java_plain java_standard (by decide) s q y
    | node => exact M.decode_payload node_follows node_plain node_standard (by decide) s q y
  rw [receive, returnedTcp]
  cases hmeaning : (dialect overflowChecks sdk).meaning (M.handle s q).2 with
  | ok y => rw [(hdecode y).mpr hmeaning]
  | error err =>
      cases hread : (dialect overflowChecks sdk).decodeResponse (M.payload s q).bytes with
      | ok y =>
          rw [(hdecode y).mp hread] at hmeaning
          cases hmeaning
      | error err' => rfl

theorem narrow_of_lt {n : ℕ} (h : n < 2 ^ 53) (sdk : Wire.Sdk) : narrow sdk n = n := by
  cases sdk with
  | java =>
      change signed64 n = n
      rw [signed64, if_pos (by omega)]
  | node => exact congrArg Nat.cast (Node.double_of_lt h)
  | _ => rfl

theorem wide_of_lt {n : ℕ} (h : n < 2 ^ 63) (sdk : Wire.Sdk) : wide sdk n = some (n : ℤ) := by
  cases sdk with
  | java => exact if_pos h
  | _ => rfl

/-- All clients return the same of a response that they can hold. -/
theorem returned_of_common {response : Response} (h : Common r x) (hanswers : Answers r x response)
    (sdk sdk' : Wire.Sdk) : returned (narrow sdk) (wide sdk) r x =
      returned (narrow sdk') (wide sdk') r x := by
  unfold Answers at hanswers
  split at hanswers
  · rfl
  · exact congrArg (fun n : ℤ => some (Outcome.value _ (.number n)))
      ((narrow_of_lt h sdk).trans (narrow_of_lt h sdk').symm)
  · rfl
  · exact congrArg (fun n : ℤ => some (Outcome.version (.number n)))
      ((narrow_of_lt h sdk).trans (narrow_of_lt h sdk').symm)
  · exact congrArg (Option.map _) ((wide_of_lt h sdk).trans (wide_of_lt h sdk').symm)
  · exact congrArg (Option.map _) ((wide_of_lt h sdk).trans (wide_of_lt h sdk').symm)
  · rfl
  · rfl
  · exact congrArg (fun n : ℤ => some (Outcome.count (.number n)))
      ((narrow_of_lt h sdk).trans (narrow_of_lt h sdk').symm)
  · exact congrArg (fun n : ℤ => some (Outcome.count (.number n)))
      ((narrow_of_lt h sdk).trans (narrow_of_lt h sdk').symm)
  · cases r <;> rfl
  · exact hanswers.elim

theorem same_of_common (h : Common r x) (sdk : Wire.Sdk) : Same sdk r x := by
  cases x with
  | value key bytes version => exact fun _ => Nat.le_pred_of_lt h
  | ok version => exact fun _ => Nat.le_pred_of_lt h
  | patternDeleted n => exact fun _ => Nat.le_pred_of_lt h
  | patternTtlUpdated n => exact fun _ => Nat.le_pred_of_lt h
  | setNx created version => exact fun _ => h
  | counter n version => exact fun _ => h
  | error code message => exact fun hping => absurd hping h
  | _ => trivial

end Responses

/-- The operations that there are over HTTP. -/
def Operation : Wire.Request → Prop
  | .auth _ => False
  | .watch _ _ => False
  | .unwatch _ _ => False
  | _ => True

/-- An HTTP server in front of a service: it answers as the service does, and the numbers stay small
in all states that the service gets into. -/
structure Front {σ : Type*} (M : Service σ) where
  respond : Wire.Request → ServerResponse → Response
  Small : σ → Prop
  init : Small M.init
  handle : ∀ s q, Small s → Small (M.handle s q).1
  answers : ∀ s q, Small s → Operation q → Answers q (M.handle s q).2 (respond q (M.handle s q).2)
  common : ∀ s q, Small s → Operation q → Common q (M.handle s q).2

/-- A call, and the languages of the clients that make it over HTTP and over TCP. -/
structure Usage where
  call : LockStep.Call
  http : Wire.Sdk
  tcp : Wire.Sdk

section Calls

variable {σ : Type*} {M : Service σ} (go : Letters) (java : Alphabet)
  (strict overflowChecks : Bool)

/-- A call over HTTP, if it reaches the service. -/
def viaHttp (F : Front M) (s : σ) (u : Usage) : Option (σ × Option Outcome) :=
  u.call.request?.bind fun r => (send go java strict u.http r).bind fun h => h.read.map fun q =>
    ((M.handle s q).1, (results u.http).result r (F.respond q (M.handle s q).2))

/-- A call over TCP, if it reaches the service. -/
def viaTcp (M : Service σ) (s : σ) (u : Usage) : Option (σ × Option Outcome) :=
  u.call.request?.bind fun r => ((encoder u.tcp).reads r).map fun q =>
    ((M.handle s q).1, receive overflowChecks u.tcp u.call (M.payload s q).bytes)

/-- One call after the other: the state behind them, and what they returned. -/
def runCalls {ι ο : Type*} (f : σ → ι → Option (σ × ο)) : σ → List ι → Option (σ × List ο)
  | s, [] => some (s, [])
  | s, i :: is => (f s i).bind fun x => (runCalls f x.1 is).map fun y => (y.1, x.2 :: y.2)

/-- A call that the HTTP client and the TCP client make of the same request. Its namespace is one
that a header can carry, and its increment is given, since some clients have none by default. -/
structure Usage.Common (u : Usage) (r x : Wire.Request) (h : HttpRequest) : Prop where
  request : u.call.request? = some r
  send : send go java strict u.http r = some h
  conveys : Conveys (encoder u.tcp) r x
  ns : ∀ n ∈ r.ns, Printable n ∧ trim headerSpace n = n
  delta : ∀ key ttl ns, r ≠ .incr key none ttl ns
  key : r.subject = some .key → Reaches (parsesUrl u.http) r.text

variable {go java strict overflowChecks} {u : Usage} {r x : Wire.Request} {h : HttpRequest}

theorem operation_of_send (hsend : send go java strict u.http r = some h) :
    Operation (canonical r) := by
  obtain ⟨r', h', hrequest, -, -, -, hdelivered⟩ := send_cases hsend
  have hr := RequestBuilder.delivered_ne_none hrequest
  rw [hdelivered] at hr
  cases r with
  | auth token => exact hr rfl
  | watch key ns => exact hr rfl
  | unwatch key ns => exact hr rfl
  | _ => trivial

theorem Answers.of_canonical {y : ServerResponse} {response : Response}
    (hanswers : Answers (canonical r) y response) : Answers r y response := by
  cases y with
  | error code message =>
      cases r with
      | auth token => exact absurd rfl (hanswers.1 token)
      | watch key ns => exact absurd rfl (hanswers.2.1 key _)
      | unwatch key ns => exact absurd rfl (hanswers.2.2.1 key _)
      | _ => exact ⟨nofun, nofun, nofun, hanswers.2.2.2⟩
  | _ => cases r <;> exact hanswers

theorem Common.of_canonical {y : ServerResponse} (hcommon : Http.Common (canonical r) y) :
    Http.Common r y := by
  cases y with
  | error code message =>
      rintro rfl
      exact hcommon rfl
  | _ => exact hcommon

/-- One call: both clients get the same, and the numbers of the service stay small. -/
theorem Usage.Common.exists_via (hu : u.Common go java strict r x h) (F : Front M) {s : σ}
    (hs : F.Small s) : ∃ y, viaHttp go java strict F s u = some y ∧
      viaTcp overflowChecks M s u = some y ∧ F.Small y.1 := by
  have hop := operation_of_send hu.send
  have hread : h.read = some (canonical r) :=
    read_canonical hu.send (fun n hn => (hu.ns n hn).1) hu.delta hu.key
  have hreads : (encoder u.tcp).reads r = some (canonical r) := by
    rw [encoder_reads hu.conveys, delivered_tcp hu.conveys.delivered hu.ns hu.delta]
  have hanswers := (F.answers s (canonical r) hs hop).of_canonical
  have hcommon := (F.common s (canonical r) hs hop).of_canonical
  have hresult : (results u.http).result r (F.respond (canonical r) (M.handle s (canonical r)).2) =
      receive overflowChecks u.tcp u.call (M.payload s (canonical r)).bytes := by
    rw [(reads u.http).result_eq hanswers, returned_of_common hcommon hanswers u.http u.tcp,
      receive_payload]
    exact (returned_eq_iff hu.request hanswers).mpr (same_of_common hcommon u.tcp)
  refine ⟨(_, receive overflowChecks u.tcp u.call (M.payload s (canonical r)).bytes), ?_, ?_,
    F.handle s (canonical r) hs⟩
  · rw [viaHttp, hu.request, Option.bind_some, hu.send, Option.bind_some, hread, Option.map_some,
      hresult]
  · rw [viaTcp, hu.request, Option.bind_some, hreads, Option.map_some]

/-- All calls of a sequence return, with the same results and the same effect on the service,
whether they are made over HTTP or over TCP, and in whatever languages. -/
theorem runs_agree (F : Front M) {us : List Usage}
    (hus : ∀ u ∈ us, ∃ r x h, u.Common go java strict r x h) :
    ∃ y, runCalls (viaHttp go java strict F) M.init us = some y ∧
      runCalls (viaTcp overflowChecks M) M.init us = some y := by
  have hrun : ∀ s, F.Small s → ∃ y, runCalls (viaHttp go java strict F) s us = some y ∧
      runCalls (viaTcp overflowChecks M) s us = some y := by
    induction us with
    | nil => exact fun s hs => ⟨(s, []), rfl, rfl⟩
    | cons u us ih =>
        intro s hs
        obtain ⟨r, x, h, hu⟩ := hus u List.mem_cons_self
        obtain ⟨y, hhttp, htcp, hsmall⟩ := hu.exists_via F hs
        obtain ⟨z, hhttps, htcps⟩ :=
          ih (fun u hmem => hus u (List.mem_cons_of_mem _ hmem)) y.1 hsmall
        refine ⟨(z.1, y.2 :: z.2), ?_, ?_⟩
        · rw [runCalls, hhttp, Option.bind_some, hhttps, Option.map_some]
        · rw [runCalls, htcp, Option.bind_some, htcps, Option.map_some]
  exact hrun M.init F.init

/-- A service that knows one value. -/
def constant : Service Unit where
  init := ()
  handle _ q := ((), match q with
    | .ping => .pong
    | .get _ _ => .value "k" [104, 105] 7
    | _ => .error 1 "no")
  answers _ q := by cases q <;> exact nofun
  fits _ q := by
    have hpong : ServerResponse.pong.encode.length < 2 ^ 31 := by decide
    have hvalue : (ServerResponse.value "k" [104, 105] 7).encode.length < 2 ^ 31 := by decide
    have herror : (ServerResponse.error 1 "no").encode.length < 2 ^ 31 := by decide
    cases q with
    | ping => exact hpong
    | get key ns => exact hvalue
    | _ => exact herror

/-- A server in front of it. -/
def constantFront : Front constant where
  respond
    | .ping, _ => ⟨200, "OK", "", some (.object [("pong", .bool true)])⟩
    | .get _ _, _ => ⟨200, "OK", "", some (.object [("value", .string "hi"), ("version", count 7)])⟩
    | _, _ => ⟨500, "Error", "", none⟩
  Small _ := True
  init := trivial
  handle _ _ _ := trivial
  answers _ q _ hq := by
    have hstatus : (500 : ℕ) ≠ 404 := by decide
    cases q with
    | ping =>
        exact ⟨rfl, _, rfl, by decide, List.forall_mem_singleton.mpr List.mem_cons_self,
          List.forall_mem_nil _⟩
    | get key ns =>
        refine ⟨rfl, _, _, .text "hi" (by decide), _, rfl, by decide, ?_, by decide⟩
        refine List.forall_mem_cons.mpr ⟨List.mem_cons_of_mem _ List.mem_cons_self, ?_⟩
        exact List.forall_mem_singleton.mpr List.mem_cons_self
    | auth token => exact hq.elim
    | watch key ns => exact hq.elim
    | unwatch key ns => exact hq.elim
    | _ => exact ⟨nofun, nofun, nofun, rfl, hstatus⟩
  common _ q _ _ := by
    have hsmall : (7 : UInt64).toNat < 2 ^ 53 := by decide
    cases q with
    | ping => trivial
    | get key ns => exact hsmall
    | _ => exact nofun

/-- Two calls, made over HTTP in Go and in Rust, and over TCP in Java and in Python. -/
theorem runs_agree_get :
    ∃ y, runCalls (viaHttp latin latin.toAlphabet false constantFront) ()
        [⟨.get "a/b" none, .go, .java⟩, ⟨.ping, .rust, .python⟩] = some y ∧
      runCalls (viaTcp false constant) ()
        [⟨.get "a/b" none, .go, .java⟩, ⟨.ping, .rust, .python⟩] = some y := by
  have hns : ∀ n ∈ (none : Option String), Printable n ∧ trim headerSpace n = n := nofun
  have hget : Usage.Common latin latin.toAlphabet false ⟨.get "a/b" none, .go, .java⟩
      (.get "a/b" none) (.get "a/b" none) ⟨.get, "/key/a%2Fb", none, none⟩ :=
    { request := rfl, send := rfl, conveys := ⟨rfl, by decide, by decide, by decide⟩
      ns := hns, delta := nofun, key := fun _ => ⟨by decide, by decide⟩ }
  have hping : Usage.Common latin latin.toAlphabet false ⟨.ping, .rust, .python⟩
      .ping .ping ⟨.get, "/ping", none, none⟩ :=
    { request := rfl, send := rfl, conveys := ⟨rfl, by decide, by decide, by decide⟩
      ns := hns, delta := nofun, key := nofun }
  refine runs_agree constantFront (List.forall_mem_cons.mpr ⟨⟨_, _, _, hget⟩, ?_⟩)
  exact List.forall_mem_singleton.mpr ⟨_, _, _, hping⟩

end Calls

end Http

end DittoClient
