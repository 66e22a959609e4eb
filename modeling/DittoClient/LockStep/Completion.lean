import DittoClient.LockStep.Pairing

/-!
# Exchanges that are completed

An exchange that breaks off leaves something behind on its connection: a frame that was
not written to its end, an answer that has not been read, or a part of one. Where nothing
is pushed, the connection a client holds between two calls is free of such remains as long
as every exchange that breaks off is one after which the client drops the connection.
`Completes` is this condition on a call, for the three clients that keep the connection
after some failures, and for the Rust client also after a call that is dropped. The
clients then pair requests and answers as well.
-/

namespace DittoClient

namespace LockStep

open DittoClient.Octets
open DittoClient.Protobuf
open DittoClient.Wire
open DittoClient.Program
open DittoClient.Transition

variable {φ : Type}

/-- Nothing is pushed during a call. -/
structure Unwatched (env : CallEnv φ) : Prop where
  connect : NoPush env.connect.auth.acts
  first : NoPush env.first.acts
  reconnect : NoPush env.reconnect.auth.acts
  retry : NoPush env.retry.acts

theorem NoPush.quiet {acts : List ServerFrame} (h : NoPush acts) : Quiet acts :=
  fun f hf => h f (List.mem_of_mem_head? hf)

theorem Unwatched.orderly {env : CallEnv φ} (h : Unwatched env) : env.Orderly :=
  ⟨h.connect, h.reconnect, h.retry.quiet⟩

theorem Unwatched.noPush {env : CallEnv φ} (h : Unwatched env) : env.NoPush :=
  ⟨h.first, h.retry⟩

/-- Nothing is left over from an exchange on the connection that is held. -/
def World.Completed (w : World φ) : Prop :=
  ∀ i, w.held = some i → (w.conns i).Settled

/-- The states between two calls of a client whose calls keep to `C`. -/
def Completing (C : World φ → Call × CallEnv φ → Prop)
    (call : CallEnv φ → Call → Client φ Result) : Prop :=
  ∀ w, Reachable (callStep call) C World.init w → w.Completed

section Calls

variable {C : World φ → Call × CallEnv φ → Prop} {call : CallEnv φ → Call → Client φ Result}
  {cfg : Config φ} {ping : ClientResponse → Except (Failure φ) Result}

theorem completing_of_ensures
    (hcall : ∀ c env, Ensures (fun w => w.Rested True ∧ C w (c, env)) (call env c)
      (fun res t => OwnAnswer cfg ping c res t ∧ t.Rested True) (fun _ t => t.Rested True)) :
    Completing C call := by
  rintro w ⟨ls, hrun⟩ i hi
  have hrest : w.Rested True := by
    refine hrun.invariant World.rested_init fun s a u hs hcond hstep => ?_
    exact of_callStep (hcall a.1 a.2) ⟨hs, hcond⟩ hstep
  exact (hrest i hi).1

/-- A request during which nothing is pushed leaves the connection drained. -/
theorem drained_of_unwatched {c : Call} {env : CallEnv φ} (hn : Unwatched env)
    {P : World φ → Prop} {m : Client φ Result}
    (h : Ensures P m (fun res t => OwnAnswer cfg ping c res t ∧ t.Rested env.NoPush)
      (fun _ t => t.Rested env.NoPush)) :
    Ensures P m (fun res t => OwnAnswer cfg ping c res t ∧ t.Rested True)
      (fun _ t => t.Rested True) :=
  h.weaken_post (fun _ _ ht => ⟨ht.1, ht.2.mono fun _ => hn.noPush⟩)
    fun _ _ ht => ht.mono fun _ => hn.noPush

end Calls

namespace Python

/-- When a call leaves no exchange half-done. -/
structure Completes (cfg : Config φ) (w : World φ) (a : Call × CallEnv φ) : Prop where
  unwatched : Unwatched a.2
  connecting : a.1 = .connect → w.held = none →
    a.2.connect.Settles cfg.authToken cfg.accepts cfg.decode
  sending : a.1.request?.isSome = true → cfg.Admits a.1 → w.Connected →
    SendSettles cfg a.2 a.1.retrySafe

theorem call_completes (cfg : Config φ) (c : Call) (env : CallEnv φ) :
    Ensures (fun w => w.Rested True ∧ Completes cfg w (c, env)) (call cfg env c)
      (fun res t => OwnAnswer cfg acceptPing c res t ∧ t.Rested True)
      (fun _ t => t.Rested True) := by
  rintro w ⟨hr, hw⟩
  cases hc : c.request? with
  | some frame =>
      exact drained_of_unwatched hw.unwatched (call_rested_of_request cfg env hc
        hw.unwatched.orderly hw.unwatched.first.quiet) w ⟨hr, hw.sending (by simp [hc])⟩
  | none =>
      cases c with
      | connect =>
          exact ensures_of_no_request (c := .connect) rfl
            (connect_rested cfg env True hw.unwatched.connect) w ⟨hr, hw.connecting rfl⟩
      | close => exact ensures_of_no_request (c := .close) rfl (close_rested env True) w hr
      | waitWatchEvent =>
          exact ensures_of_no_request (c := .waitWatchEvent) rfl
            ((waitWatchEvent_rested cfg env hw.unwatched.first).weaken_post
              (fun _ _ h => h.elim) fun _ _ h => h) w hr
      | _ => cases hc

end Python

namespace Go

/-- When a call leaves no exchange half-done. -/
structure Completes (cfg : Config φ) (w : World φ) (a : Call × CallEnv φ) : Prop where
  unwatched : Unwatched a.2
  sending : a.1.request?.isSome = true → cfg.Admits a.1 →
    a.2.Reaches (authToken cfg) cfg.accepts cfg.decode w → SendSettles cfg a.2 a.1.retrySafe

theorem call_completes (cfg : Config φ) (c : Call) (env : CallEnv φ) :
    Ensures (fun w => w.Rested True ∧ Completes cfg w (c, env)) (call cfg env c)
      (fun res t => OwnAnswer cfg acceptPing c res t ∧ t.Rested True)
      (fun _ t => t.Rested True) := by
  rintro w ⟨hr, hw⟩
  cases hc : c.request? with
  | some frame =>
      exact drained_of_unwatched hw.unwatched (call_rested_of_request cfg env hc
        hw.unwatched.orderly hw.unwatched.first.quiet) w ⟨hr, hw.sending (by simp [hc])⟩
  | none =>
      cases c with
      | connect =>
          exact ensures_of_no_request (c := .connect) rfl
            (connect_rested cfg env True hw.unwatched.connect) w hr
      | close => exact ensures_of_no_request (c := .close) rfl (close_rested env True) w hr
      | waitWatchEvent =>
          exact ensures_of_no_request (c := .waitWatchEvent) rfl
            ((waitWatchEvent_rested cfg env hw.unwatched.connect
              hw.unwatched.first).weaken_post (fun _ _ h => h.elim) fun _ _ h => h) w hr
      | _ => cases hc

end Go

namespace Rust

/-- When a call leaves no exchange half-done. -/
structure Completes (cfg : Config (Fault φ)) (w : World (Fault φ))
    (a : Call × CallEnv (Fault φ)) : Prop where
  unwatched : Unwatched a.2
  connecting : a.1 = .connect ∨ a.1 = .waitWatchEvent → a.2.lock = none → w.held = none →
    a.2.connect.Settles cfg.authToken cfg.accepts cfg.decode
  sending : a.1.request?.isSome = true → cfg.Admits a.1 → SendsFrom cfg a.2 a.1.retrySafe w

theorem call_completes (cfg : Config (Fault φ)) (c : Call) (env : CallEnv (Fault φ)) :
    Ensures (fun w => w.Rested True ∧ Completes cfg w (c, env)) (call cfg env c)
      (fun res t => OwnAnswer cfg acceptPing c res t ∧ t.Rested True)
      (fun _ t => t.Rested True) := by
  rintro w ⟨hr, hw⟩
  cases hc : c.request? with
  | some frame =>
      exact drained_of_unwatched hw.unwatched (call_rested_of_request cfg env hc
        hw.unwatched.orderly hw.unwatched.first.quiet) w ⟨hr, hw.sending (by simp [hc])⟩
  | none =>
      cases c with
      | connect =>
          exact ensures_of_no_request (c := .connect) rfl
            (connect_rested cfg env True hw.unwatched.connect) w
              ⟨hr, hw.connecting (Or.inl rfl)⟩
      | close => exact ensures_of_no_request (c := .close) rfl (close_rested env True) w hr
      | waitWatchEvent =>
          exact ensures_of_no_request (c := .waitWatchEvent) rfl
            ((waitWatchEvent_rested cfg env hw.unwatched.connect
              hw.unwatched.first).weaken_post (fun _ _ h => h.elim) fun _ _ h => h) w
                ⟨hr, hw.connecting (Or.inr rfl)⟩
      | _ => cases hc

end Rust

/-- In every state a client reaches by calls that leave no exchange half-done, every
frame written on the connection that is held has had its answer read to the end. -/
theorem exchanges_completed (cfg : Config φ) (rustCfg : Config (Rust.Fault φ)) :
    Completing (Python.Completes cfg) (Python.call cfg) ∧
      Completing (Go.Completes cfg) (Go.call cfg) ∧
        Completing (Rust.Completes rustCfg) (Rust.call rustCfg) :=
  ⟨completing_of_ensures (Python.call_completes cfg),
    completing_of_ensures (Go.call_completes cfg),
    completing_of_ensures (Rust.call_completes rustCfg)⟩

section Unanswered

/-- A client connects and asks for a key; neither the request nor its second attempt is
answered in time. -/
def unanswered : List (Call × CallEnv φ) :=
  [(.connect, .undisturbed []), (.get "a" none, .undisturbed [])]

theorem unwatched_undisturbed {acts : List ServerFrame} (h : NoPush acts) :
    Unwatched (CallEnv.undisturbed acts : CallEnv φ) where
  connect := by simp [CallEnv.undisturbed, Exchange.undisturbed, NoPush]
  first := h
  reconnect := by simp [CallEnv.undisturbed, Exchange.undisturbed, NoPush]
  retry := by simp [CallEnv.undisturbed, Exchange.undisturbed, NoPush]

theorem not_completing_of_unanswered {call : CallEnv φ → Call → Client φ Result}
    (h : ∃ w, exec (callStep call) (fun _ _ => True) World.init unanswered = some w ∧
      ∃ i, w.held = some i ∧ (w.conns i).replies.length = 0 ∧
        (w.conns i).written.length = 1) :
    ¬ Completing (fun _ a => Unwatched a.2) call := by
  intro hcomp
  obtain ⟨w, hexec, i, hheld, hreplies, hwritten⟩ := h
  have hrun := (run_of_exec hexec).of_forall_mem (D := fun _ a => Unwatched a.2)
    fun a ha _ => by
      simp only [unanswered, List.mem_cons, List.not_mem_nil, or_false] at ha
      rcases ha with rfl | rfl
      · exact unwatched_undisturbed (by simp [NoPush])
      · exact unwatched_undisturbed (by simp [NoPush])
  have hanswered := (hcomp w ⟨_, hrun⟩ i hheld).answered
  rw [hreplies, hwritten] at hanswered
  cases hanswered

/-- When the second attempt at a `get` times out as well, each of the three clients keeps
the connection with the unanswered request. -/
theorem unanswered_kept :
    ¬ Completing (fun _ a => Unwatched a.2) (Python.call pythonConfig) ∧
      ¬ Completing (fun _ a => Unwatched a.2)
          (Go.call (.plain pythonDialect.decodeResponse : Config Unit)) ∧
        ¬ Completing (fun _ a => Unwatched a.2)
          (Rust.call (.plain (rustDialect false).decodeResponse : Config (Rust.Fault Unit))) :=
  ⟨not_completing_of_unanswered ⟨_, rfl, _, rfl, rfl, rfl⟩,
    not_completing_of_unanswered ⟨_, rfl, _, rfl, rfl, rfl⟩,
    not_completing_of_unanswered ⟨_, rfl, _, rfl, rfl, rfl⟩⟩

end Unanswered

/-- A Rust client pairs requests and answers, whichever calls are dropped, if no call is
dropped inside an exchange. -/
theorem answers_kept (cfg : Config (Rust.Fault φ)) :
    Paired (Rust.Completes cfg) (Rust.call cfg) cfg Rust.acceptPing :=
  paired_of_ensures _ World.rested_init (Rust.call_completes cfg)

section Dropped

/-- The settings of a Rust client. -/
def rustConfig : Config (Rust.Fault Unit) :=
  .plain (rustDialect false).decodeResponse

/-- A call that is dropped where it would read the answer. -/
def droppedEnv : CallEnv (Rust.Fault Unit) :=
  { CallEnv.undisturbed valueA with first := ⟨⟨valueA, [.fail .dropped]⟩, .ok⟩ }

/-- A client connects, and its first `get` is dropped. -/
def droppedGet : List (Call × CallEnv (Rust.Fault Unit)) :=
  [(.connect, .undisturbed []), (.get "a" none, droppedEnv)]

theorem noPush_valueA : NoPush valueA := by
  simp [NoPush, valueA, replyOf, ServerFrame.reply?]

theorem noPush_valueB : NoPush valueB := by
  simp [NoPush, valueB, replyOf, ServerFrame.reply?]

theorem unwatched_droppedGet : ∀ a ∈ droppedGet, Unwatched a.2 := by
  intro a ha
  simp only [droppedGet, List.mem_cons, List.not_mem_nil, or_false] at ha
  rcases ha with rfl | rfl
  · exact unwatched_undisturbed (by simp [NoPush])
  · exact ⟨(unwatched_undisturbed noPush_valueA).connect, noPush_valueA,
      (unwatched_undisturbed noPush_valueA).reconnect,
      (unwatched_undisturbed noPush_valueA).retry⟩

/-- A call that is dropped while it waits for its answer leaves the answer to the next
call. -/
theorem answers_not_kept :
    ¬ Paired (fun _ a => Unwatched a.2) (Rust.call rustConfig) rustConfig Rust.acceptPing := by
  intro h
  have hrun : ∃ w, exec (callStep (Rust.call rustConfig)) (fun _ _ => True) World.init
        droppedGet = some w ∧
      ∃ t, Rust.call rustConfig (.undisturbed valueB) (.get "b" none) w =
          .ok (.value (some ([97], 1))) t ∧ t.held = some 0 ∧
        (t.conns 0).written = [⟨.get "a" none, true, 0⟩] ++ [⟨.get "b" none, true, 1⟩] ∧
        (t.conns 0).replies[1]? = some ⟨(ServerResponse.value "b" [98] 2).encode, by decide⟩ :=
    ⟨_, rfl, _, rfl, rfl, rfl, rfl⟩
  obtain ⟨w, hexec, t, hcall, hheld, hwritten, hreply⟩ := hrun
  have hdropped := (run_of_exec hexec).of_forall_mem (D := fun _ a => Unwatched a.2)
    fun a ha _ => unwatched_droppedGet a ha
  have hdecode : rustConfig.decode (ServerResponse.value "b" [98] 2).encode =
      .ok (.value "b" [98] 2) := rfl
  exact not_ownAnswer rfl hheld hwritten hreply hdecode (fun hr => by cases hr)
    (h _ w hdropped _ _ _ t (unwatched_undisturbed noPush_valueB) hcall)

end Dropped

end LockStep

end DittoClient
