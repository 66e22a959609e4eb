import DittoClient.LockStep.Go
import DittoClient.LockStep.Java
import DittoClient.LockStep.Python
import DittoClient.LockStep.Rust
import DittoClient.Transition.Run
import DittoClient.Wire.Server

/-!
# Requests and their answers

A lock-step client takes the next frame on its connection for the answer to the request
it has just written. This is right as long as no pushed frame lies ahead of the answer:
none is unread when the request is written, and none arrives before the answer does. In
every run that keeps to this, each call returns what was computed from the answer to its
own request; otherwise the client takes a pushed watch event for the answer, and every
later call is handed the answer to an earlier request.
-/

namespace DittoClient

namespace LockStep

open DittoClient.Octets
open DittoClient.Protobuf
open DittoClient.Wire
open DittoClient.Program
open DittoClient.Transition

variable {φ : Type}

/-- One public call of a client, with the environment it meets. -/
def callStep (call : CallEnv φ → Call → Client φ Result) (w : World φ)
    (a : Call × CallEnv φ) : Option (World φ) :=
  match call a.2 a.1 w with
  | .ok _ t => some t
  | .error _ t => some t

/-- What a call ensures whether it returns or throws holds after the step. -/
theorem of_callStep {call : CallEnv φ → Call → Client φ Result} {w t : World φ} {c : Call}
    {env : CallEnv φ} {P Q : World φ → Prop} {A : Result → World φ → Prop}
    (h : Ensures P (call env c) (fun res t => A res t ∧ Q t) (fun _ => Q)) (hw : P w)
    (hs : callStep call w (c, env) = some t) : Q t := by
  have hp := h w hw
  cases hc : call env c w with
  | ok res u =>
      rw [hc] at hp
      simp only [callStep, hc, Option.some.injEq] at hs
      subst hs
      exact hp.2
  | error e u =>
      rw [hc] at hp
      simp only [callStep, hc, Option.some.injEq] at hs
      subst hs
      exact hp

/-- One connection to a server that answers every request frame with one response frame
and pushes frames on a connection with a watch only, over a transport that delivers the
frames that are waited for. -/
structure Served (cfg : Config φ) (accepts : ℕ → Bool) (w : World φ)
    (a : Call × CallEnv φ) : Prop where
  orderly : a.2.Orderly
  connects : a.2.connect.Settles cfg.authToken accepts cfg.decode
  answered : a.1.request?.isSome = true →
    ∃ r, a.2.first.outcome accepts cfg.decode = some (.ok r)
  waits : a.1 = .waitWatchEvent → WaitDelivers accepts a.2.first.toArrival w ∧
    (w.held = none → NoPush a.2.first.acts)

/-- No pushed frame lies ahead of the answer to the request of a call. -/
def NothingAhead (w : World φ) (a : Call × CallEnv φ) : Prop :=
  a.1.request?.isSome = true →
    Quiet a.2.first.acts ∧ ∀ i, w.held = some i → (w.conns i).inbound = []

/-- In every run whose calls keep to `C`, a call returns what was computed from the answer
to its own request. -/
def Paired (C : World φ → Call × CallEnv φ → Prop)
    (call : CallEnv φ → Call → Client φ Result) (cfg : Config φ)
    (ping : ClientResponse → Except (Failure φ) Result) : Prop :=
  ∀ ls w, Run (callStep call) C World.init ls w → ∀ c env res t, C w (c, env) →
    call env c w = .ok res t → OwnAnswer cfg ping c res t

/-- A client pairs requests and answers if every call keeps an invariant that holds at
the start, and returns what was computed from the answer to its own request. -/
theorem paired_of_ensures {C : World φ → Call × CallEnv φ → Prop}
    {call : CallEnv φ → Call → Client φ Result} {cfg : Config φ}
    {ping : ClientResponse → Except (Failure φ) Result}
    (I : World φ → Prop) (h₀ : I World.init)
    (hcall : ∀ c env, Ensures (fun w => I w ∧ C w (c, env)) (call env c)
      (fun res t => OwnAnswer cfg ping c res t ∧ I t) (fun _ => I)) :
    Paired C call cfg ping := by
  intro ls w hrun c env res t hc hok
  have hinv : I w := by
    refine hrun.invariant h₀ fun s a u hs hcond hstep => ?_
    exact of_callStep (hcall a.1 a.2) ⟨hs, hcond⟩ hstep
  exact ((hcall c env).of_ok ⟨hinv, hc⟩ hok).1

theorem World.Rested.drained {w : World φ} {a : Call × CallEnv φ} {frame : Request}
    (hr : w.Rested False) (ha : NothingAhead w a) (hc : a.1.request? = some frame) :
    w.Rested True := by
  intro i hi
  exact ⟨(hr i hi).1, fun _ => (ha (by rw [hc]; rfl)).2 i hi⟩

/-- A call without a request has no answer to return. -/
theorem ownAnswer_of_none {cfg : Config φ} {ping : ClientResponse → Except (Failure φ) Result}
    {c : Call} (hc : c.request? = none) (res : Result) (w : World φ) :
    OwnAnswer cfg ping c res w := by
  intro frame h
  rw [hc] at h
  cases h

theorem ensures_of_no_request {cfg : Config φ}
    {ping : ClientResponse → Except (Failure φ) Result} {c : Call} (hc : c.request? = none)
    {P I : World φ → Prop} {m : Client φ Result} (h : Ensures P m (fun _ => I) (fun _ => I)) :
    Ensures P m (fun res t => OwnAnswer cfg ping c res t ∧ I t) (fun _ => I) :=
  h.weaken_post (fun res t ht => ⟨ownAnswer_of_none hc res t, ht⟩) fun _ _ ht => ht

namespace Python

theorem call_paired (cfg : Config φ) (c : Call) (env : CallEnv φ) :
    Ensures (fun w => w.Rested False ∧ Served cfg cfg.accepts w (c, env) ∧
        NothingAhead w (c, env))
      (call cfg env c) (fun res t => OwnAnswer cfg acceptPing c res t ∧ t.Rested False)
      (fun _ t => t.Rested False) := by
  rintro w ⟨hr, hserved, hahead⟩
  cases hc : c.request? with
  | some frame =>
      have hsome : c.request?.isSome = true := by
        rw [hc]
        rfl
      obtain ⟨r, hout⟩ := hserved.answered hsome
      have hsettles : SendSettles cfg env c.retrySafe := fun hnone => by
        rw [hout] at hnone
        cases hnone
      exact ((call_rested_of_request cfg env hc hserved.orderly (hahead hsome).1).weaken_post
        (fun _ _ h => ⟨h.1, h.2.mono False.elim⟩) fun _ _ h => h.mono False.elim) w
          ⟨hr.drained hahead hc, fun _ _ => hsettles⟩
  | none =>
      cases c with
      | connect =>
          exact ensures_of_no_request (c := .connect) rfl
            (connect_rested cfg env False hserved.orderly.connect) w
              ⟨hr, fun _ => hserved.connects⟩
      | close =>
          exact ensures_of_no_request (c := .close) rfl (close_rested env False) w hr
      | waitWatchEvent =>
          exact ensures_of_no_request (c := .waitWatchEvent) rfl (waitWatchEvent_settled cfg env) w
            ⟨hr, (hserved.waits rfl).1⟩
      | _ => cases hc

end Python

namespace Go

theorem call_paired (cfg : Config φ) (c : Call) (env : CallEnv φ) :
    Ensures (fun w => w.Rested False ∧ Served cfg cfg.accepts w (c, env) ∧
        NothingAhead w (c, env))
      (call cfg env c) (fun res t => OwnAnswer cfg acceptPing c res t ∧ t.Rested False)
      (fun _ t => t.Rested False) := by
  rintro w ⟨hr, hserved, hahead⟩
  cases hc : c.request? with
  | some frame =>
      have hsome : c.request?.isSome = true := by
        rw [hc]
        rfl
      obtain ⟨r, hout⟩ := hserved.answered hsome
      have hsettles : SendSettles cfg env c.retrySafe := by
        rintro (hnone | ⟨message, herror⟩)
        · rw [hout] at hnone
          cases hnone
        · rw [hout] at herror
          cases herror
      exact ((call_rested_of_request cfg env hc hserved.orderly (hahead hsome).1).weaken_post
        (fun _ _ h => ⟨h.1, h.2.mono False.elim⟩) fun _ _ h => h.mono False.elim) w
          ⟨hr.drained hahead hc, fun _ _ => hsettles⟩
  | none =>
      cases c with
      | connect =>
          exact ensures_of_no_request (c := .connect) rfl
            (connect_rested cfg env False hserved.orderly.connect) w hr
      | close =>
          exact ensures_of_no_request (c := .close) rfl (close_rested env False) w hr
      | waitWatchEvent =>
          exact ensures_of_no_request (c := .waitWatchEvent) rfl
            (waitWatchEvent_settled cfg env hserved.orderly.connect) w
              ⟨hr, hserved.waits rfl⟩
      | _ => cases hc

end Go

namespace Rust

theorem call_paired (cfg : Config (Fault φ)) (c : Call) (env : CallEnv (Fault φ)) :
    Ensures (fun w => w.Rested False ∧ Served cfg cfg.accepts w (c, env) ∧
        NothingAhead w (c, env))
      (call cfg env c) (fun res t => OwnAnswer cfg acceptPing c res t ∧ t.Rested False)
      (fun _ t => t.Rested False) := by
  rintro w ⟨hr, hserved, hahead⟩
  cases hc : c.request? with
  | some frame =>
      have hsome : c.request?.isSome = true := by
        rw [hc]
        rfl
      obtain ⟨r, hout⟩ := hserved.answered hsome
      have hsettles : SendSettles cfg env c.retrySafe := by
        refine ⟨fun hnone => ?_, ?_⟩
        · rw [hout] at hnone
          cases hnone
        · rintro (hnone | ⟨message, herror⟩)
          · rw [hout] at hnone
            cases hnone
          · rw [hout] at herror
            cases herror
      exact ((call_rested_of_request cfg env hc hserved.orderly (hahead hsome).1).weaken_post
        (fun _ _ h => ⟨h.1, h.2.mono False.elim⟩) fun _ _ h => h.mono False.elim) w
          ⟨hr.drained hahead hc, fun _ _ => ⟨fun _ => hserved.connects, fun _ => hsettles⟩⟩
  | none =>
      cases c with
      | connect =>
          exact ensures_of_no_request (c := .connect) rfl
            (connect_rested cfg env False hserved.orderly.connect) w
              ⟨hr, fun _ _ => hserved.connects⟩
      | close =>
          exact ensures_of_no_request (c := .close) rfl (close_rested env False) w hr
      | waitWatchEvent =>
          exact ensures_of_no_request (c := .waitWatchEvent) rfl
            (waitWatchEvent_settled cfg env hserved.orderly.connect hserved.connects) w
              ⟨hr, hserved.waits rfl⟩
      | _ => cases hc

end Rust

namespace Java

theorem call_paired (cfg : Config φ) (c : Call) (env : CallEnv φ) :
    Ensures (fun w => (w.Rested False ∧ Streams w) ∧ Served cfg (accepts cfg) w (c, env) ∧
        NothingAhead w (c, env))
      (call cfg env c)
      (fun res t => OwnAnswer cfg acceptPing c res t ∧ t.Rested False ∧ Streams t)
      (fun _ t => t.Rested False ∧ Streams t) := by
  rintro w ⟨hr, hserved, hahead⟩
  cases hc : c.request? with
  | some frame =>
      have hsome : c.request?.isSome = true := by
        rw [hc]
        rfl
      exact call_rested_of_request cfg env hc (hahead hsome).1 (hserved.answered hsome) w
        ⟨hr.1.drained hahead hc, hr.2⟩
  | none =>
      cases c with
      | connect =>
          exact ensures_of_no_request (c := .connect) rfl
            (connect_rested cfg env False hserved.orderly.connect hserved.connects) w hr
      | close =>
          exact ensures_of_no_request (c := .close) rfl (close_rested (fun _ => True) False) w trivial
      | waitWatchEvent =>
          exact ensures_of_no_request (c := .waitWatchEvent) rfl
            (waitForWatchEvent_settled cfg env) w ⟨hr, (hserved.waits rfl).1⟩
      | _ => cases hc

theorem streams_init : Streams (World.init : World φ) :=
  by simp [Streams, World.init]

end Java

/-- The calls of a client whose server keeps pushed frames behind the answers. -/
def Unhindered (cfg : Config φ) (accepts : ℕ → Bool) (w : World φ) (a : Call × CallEnv φ) :
    Prop :=
  Served cfg accepts w a ∧ NothingAhead w a

/-- All four clients pair requests and answers while no pushed frame lies ahead of an
answer. -/
theorem answers_paired (cfg : Config φ) (rustCfg : Config (Rust.Fault φ)) :
    Paired (Unhindered cfg cfg.accepts) (Python.call cfg) cfg acceptPing ∧
      Paired (Unhindered cfg cfg.accepts) (Go.call cfg) cfg acceptPing ∧
        Paired (Unhindered rustCfg rustCfg.accepts) (Rust.call rustCfg) rustCfg
            Rust.acceptPing ∧
          Paired (Unhindered cfg (Java.accepts cfg)) (Java.call cfg) cfg acceptPing :=
  ⟨paired_of_ensures _ World.rested_init (Python.call_paired cfg),
    paired_of_ensures _ World.rested_init (Go.call_paired cfg),
    paired_of_ensures _ World.rested_init (Rust.call_paired rustCfg),
    paired_of_ensures _ ⟨World.rested_init, Java.streams_init⟩ (Java.call_paired cfg)⟩

/-- A frame with a response, as an answer. -/
def replyOf (x : ServerResponse) (h : x.encode.length < 2 ^ 32) : ServerFrame :=
  .reply ⟨x.encode, h⟩

/-- A frame with a response, as a push. -/
def pushOf (x : ServerResponse) (h : x.encode.length < 2 ^ 32) : ServerFrame :=
  .push ⟨x.encode, h⟩

/-- An exchange in which every byte is transported. -/
def Exchange.undisturbed (acts : List ServerFrame) : Exchange φ where
  acts := acts
  recvs := [.chunk 4095, .chunk 4095]
  write := .ok

/-- A call in which nothing goes wrong. -/
def CallEnv.undisturbed (acts : List ServerFrame) : CallEnv φ where
  lock := none
  connect := ⟨.ok, none, none, .undisturbed [], none⟩
  first := .undisturbed acts
  shutdown := none
  reconnect := ⟨.ok, none, none, .undisturbed [], none⟩
  retry := .undisturbed []

/-- The settings of a client without a token that accepts all arguments. -/
def Config.plain (decode : Decoder) : Config φ where
  authToken := none
  autoReconnect := true
  maxFrameBytes := 8 * 1024 * 1024
  decode := decode
  validate := fun _ => .ok ()
  normalizeAtomic := fun _ e => e

/-- A call in which nothing goes wrong keeps to the premises, if the server answers. -/
theorem served_undisturbed {cfg : Config φ} {accepts : ℕ → Bool} (htoken : cfg.authToken = none)
    {acts : List ServerFrame} {c : Call} (hc : c ≠ .waitWatchEvent)
    (hout : c.request?.isSome = true →
      ∃ r, (Exchange.undisturbed acts : Exchange φ).outcome accepts cfg.decode = some (.ok r))
    (w : World φ) : Served cfg accepts w (c, .undisturbed acts) where
  orderly := by
    constructor <;> simp [CallEnv.undisturbed, Exchange.undisturbed, NoPush, Quiet]
  connects := by
    intro _ h
    rw [htoken] at h
    cases h
  answered := hout
  waits := fun h => absurd h hc

/-- What a call returns is not the answer to its own request if that answer, found at its
place in the order of the answers, gives another result. -/
theorem not_ownAnswer {cfg : Config φ} {ping : ClientResponse → Except (Failure φ) Result}
    {c : Call} {frame : Request} (hc : c.request? = some frame) {t : World φ} {i : ℕ}
    (hheld : t.held = some i) {before : List Written} {x : Written}
    (hwritten : (t.conns i).written = before ++ [x]) {p : Payload}
    (hp : (t.conns i).replies[before.countP Written.complete]? = some p)
    {r : ClientResponse} (hd : cfg.decode p.bytes = .ok r) {res : Result}
    (hne : c.accept ping r ≠ .ok res) : ¬ OwnAnswer cfg ping c res t := by
  intro h
  obtain ⟨r', ⟨j, hj, before', x', p', hb, -, -, hp', hd'⟩, hr⟩ := h frame hc
  rw [hheld] at hj
  cases hj
  rw [hwritten] at hb
  rw [← List.append_inj_left' hb rfl, hp] at hp'
  cases hp'
  rw [hd] at hd'
  cases hd'
  exact hne hr

section Shifted

/-- The settings of a Python client. -/
def pythonConfig : Config Unit :=
  .plain pythonDialect.decodeResponse

/-- A watch whose first event is pushed at once. -/
def watchAct : List ServerFrame :=
  [replyOf .watching (by decide), pushOf (.watchEvent "k" (some [120]) 1) (by decide)]

/-- The answer to a request for the key `a`. -/
def valueA : List ServerFrame :=
  [replyOf (.value "a" [97] 1) (by decide)]

/-- The answer to a request for the key `b`. -/
def valueB : List ServerFrame :=
  [replyOf (.value "b" [98] 2) (by decide)]

/-- A client connects, watches a key, and asks for another one while an event of the
watch is unread. -/
def watchedGet : List (Call × CallEnv Unit) :=
  [(.connect, .undisturbed []), (.watch "k" none, .undisturbed watchAct),
    (.get "a" none, .undisturbed valueA)]

theorem served_watchedGet : ∀ a ∈ watchedGet, ∀ w,
    Served pythonConfig pythonConfig.accepts w a := by
  intro a ha w
  simp only [watchedGet, List.mem_cons, List.not_mem_nil, or_false] at ha
  rcases ha with rfl | rfl | rfl
  · exact served_undisturbed rfl (by decide) (fun h => by cases h) w
  · exact served_undisturbed rfl (by decide) (fun _ => ⟨_, rfl⟩) w
  · exact served_undisturbed rfl (by decide) (fun _ => ⟨_, rfl⟩) w

/-- The next call after these is handed the answer to the last of them. -/
theorem shifted : ∃ w, exec (callStep (Python.call pythonConfig)) (fun _ _ => True)
      World.init watchedGet = some w ∧
    ∃ t, Python.call pythonConfig (.undisturbed valueB) (.get "b" none) w =
        .ok (.value (some ([97], 1))) t ∧ t.held = some 0 ∧
      (t.conns 0).written =
        [⟨.watch "k" none, true, 0⟩, ⟨.get "a" none, true, 2⟩] ++
          [⟨.get "b" none, true, 3⟩] ∧
      (t.conns 0).replies[2]? = some ⟨(ServerResponse.value "b" [98] 2).encode, by decide⟩ :=
  ⟨_, rfl, _, rfl, rfl, rfl, rfl⟩

/-- A pushed event that is unread when a request is written shifts the answers: without
the condition on pushed frames a `get` returns the value of another key. -/
theorem answers_shifted :
    ¬ Paired (Served pythonConfig pythonConfig.accepts) (Python.call pythonConfig)
      pythonConfig acceptPing := by
  intro h
  obtain ⟨w, hexec, t, hcall, hheld, hwritten, hreply⟩ := shifted
  have hrun := (run_of_exec hexec).of_forall_mem served_watchedGet
  have hserved : Served pythonConfig pythonConfig.accepts w
      (.get "b" none, .undisturbed valueB) :=
    served_undisturbed rfl (by decide) (fun _ => ⟨_, rfl⟩) w
  have hdecode : pythonConfig.decode (ServerResponse.value "b" [98] 2).encode =
      .ok (.value "b" [98] 2) := rfl
  exact not_ownAnswer rfl hheld hwritten hreply hdecode (fun hr => by cases hr)
    (h _ w hrun _ _ _ t hserved hcall)

/-- With the event pushed behind the answer instead, the `get` is handed its own value. -/
theorem answers_paired_watched : ∃ w t,
    Run (callStep (Python.call pythonConfig))
      (Unhindered pythonConfig pythonConfig.accepts) World.init
      [(.connect, .undisturbed []), (.watch "k" none, .undisturbed watchAct.dropLast)] w ∧
    Python.call pythonConfig (.undisturbed (valueA ++ watchAct.drop 1)) (.get "a" none) w =
      .ok (.value (some ([97], 1))) t ∧
    OwnAnswer pythonConfig acceptPing (.get "a" none) (.value (some ([97], 1))) t := by
  have hrun : ∃ v, callStep (Python.call pythonConfig) World.init
        (.connect, .undisturbed []) = some v ∧ v.held = some 0 ∧ (v.conns 0).inbound = [] ∧
      ∃ w, callStep (Python.call pythonConfig) v
        (.watch "k" none, .undisturbed watchAct.dropLast) = some w ∧ w.held = some 0 ∧
          (w.conns 0).inbound = [] ∧
        ∃ t, Python.call pythonConfig (.undisturbed (valueA ++ watchAct.drop 1))
          (.get "a" none) w = .ok (.value (some ([97], 1))) t :=
    ⟨_, rfl, rfl, rfl, _, rfl, rfl, rfl, _, rfl⟩
  obtain ⟨v, hv, hv₀, hvin, w, hw, hw₀, hwin, t, ht⟩ := hrun
  have hconnect : Unhindered pythonConfig pythonConfig.accepts World.init
      (.connect, .undisturbed []) :=
    ⟨served_undisturbed rfl (by decide) (fun h => by cases h) _, fun h => by cases h⟩
  have hwatch : Unhindered pythonConfig pythonConfig.accepts v
      (.watch "k" none, .undisturbed watchAct.dropLast) := by
    refine ⟨served_undisturbed rfl (by decide) (fun _ => ⟨_, rfl⟩) _, fun _ => ⟨?_, ?_⟩⟩
    · rintro f ⟨⟩
      rfl
    · intro i hi
      rw [hv₀] at hi
      cases hi
      exact hvin
  have hget : Unhindered pythonConfig pythonConfig.accepts w
      (.get "a" none, .undisturbed (valueA ++ watchAct.drop 1)) := by
    refine ⟨served_undisturbed rfl (by decide) (fun _ => ⟨_, rfl⟩) _, fun _ => ⟨?_, ?_⟩⟩
    · rintro f ⟨⟩
      rfl
    · intro i hi
      rw [hw₀] at hi
      cases hi
      exact hwin
  have hpair := (answers_paired pythonConfig (.plain pythonDialect.decodeResponse)).1
  have hall := (Run.single hconnect hv).append (Run.single hwatch hw)
  exact ⟨w, t, hall, ht, hpair _ w hall _ _ _ t hget ht⟩

end Shifted

end LockStep

end DittoClient
