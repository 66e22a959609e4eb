import DittoClient.LockStep.Recovery

/-!
# Closing a connection that is out of step

A client whose answers are shifted, or that has left an exchange half-done, is put back in order by
`close`: it forgets the connection, in whatever state this is, and the calls that follow begin on a
new one (`closing_heals`).
-/

namespace DittoClient

namespace LockStep

open DittoClient.Protobuf
open DittoClient.Wire
open DittoClient.Program
open DittoClient.Transition

variable {φ : Type}

/-- After a call of `close` that returns, in whatever state it was made, a call of a run that keeps
to `C` returns what was computed from the answer to its own request. -/
def Heals (C : World φ → Call × CallEnv φ → Prop) (call : CallEnv φ → Call → Client φ Result)
    (cfg : Config φ) (ping : ClientResponse → Except (Failure φ) Result) : Prop :=
  ∀ v closing closed w, call closing .close v = .ok closed w →
    ∀ ls t, Run (callStep call) C w ls t → ∀ c env res u, C t (c, env) →
      call env c t = .ok res u → OwnAnswer cfg ping c res u

/-- A client heals if `close` establishes an invariant that every call keeps, and under which it
returns what was computed from the answer to its own request. -/
theorem heals_of_ensures {C : World φ → Call × CallEnv φ → Prop}
    {call : CallEnv φ → Call → Client φ Result} {cfg : Config φ}
    {ping : ClientResponse → Except (Failure φ) Result} (I : World φ → Prop)
    (hclose : ∀ env, Ensures (fun _ => True) (call env .close) (fun _ t => I t) fun _ _ => True)
    (hcall : ∀ c env, Ensures (fun w => I w ∧ C w (c, env)) (call env c)
      (fun res t => OwnAnswer cfg ping c res t ∧ I t) (fun _ => I)) :
    Heals C call cfg ping := by
  intro v closing closed w hclosed ls t hrun c env res u hc hok
  have hstart : I w := (hclose closing).of_ok trivial hclosed
  have hinv : I t := by
    refine hrun.invariant hstart fun s a u hs hcond hstep => ?_
    exact of_callStep (hcall a.1 a.2) ⟨hs, hcond⟩ hstep
  exact ((hcall c env).of_ok ⟨hinv, hc⟩ hok).1

/-- A client that is not connected holds no connection, and then nothing is left on one. -/
theorem rested_of_not_connected {w : World φ} {np : Prop} (h : ¬ w.Connected) : w.Rested np := by
  refine World.rested_of_none ?_
  simpa [World.Connected] using h

/-- The connection is forgotten, and then the socket is shut down. -/
theorem release_meet_rested (shutdown : Option φ) {np : Prop} {P : World φ → Prop} :
    Ensures P (do
      release
      meet shutdown
      pure Result.done) (fun _ t => t.Rested np) (fun _ _ => True) := by
  refine (release_ensures _ _).bind fun _ => Ensures.bind ((meet_ensures shutdown).weaken_post
    (fun _ _ h => h.1) fun _ _ _ => trivial) fun _ => ensures_pure _ fun _ h => ?_
  exact World.rested_of_none h

namespace Python

theorem close_heals (env : CallEnv φ) (np : Prop) :
    Ensures (fun _ => True) (close env) (fun _ t => t.Rested np) (fun _ _ => True) := by
  refine Ensures.bind (R := fun _ t => t.Rested np) ((connected_ensures _ _).bind fun b =>
    Ensures.ite (fun _ => ?_) fun hb => ?_) fun _ => ensures_pure _ fun _ h => h
  · refine Ensures.bind ((meet_ensures env.shutdown).weaken_post (fun _ _ h => h)
      fun _ _ _ => trivial) fun _ => ?_
    exact (release_ensures _ _).weaken_post (fun _ _ h => World.rested_of_none h) fun _ _ h => h
  · exact ensures_pure _ fun w hw => rested_of_not_connected fun hc => hb (hw.2.mpr hc)

end Python

namespace Go

theorem close_heals (env : CallEnv φ) (np : Prop) :
    Ensures (fun _ => True) (close env) (fun _ t => t.Rested np) (fun _ _ => True) := by
  refine (connected_ensures _ _).bind fun b => Ensures.ite (fun _ => ?_) fun hb => ?_
  · exact release_meet_rested env.shutdown
  · exact ensures_pure _ fun w hw => rested_of_not_connected fun hc => hb (hw.2.mpr hc)

end Go

namespace Rust

theorem close_heals (env : CallEnv (Fault φ)) (np : Prop) :
    Ensures (fun _ => True) (close env) (fun _ t => t.Rested np) (fun _ _ => True) := by
  refine Ensures.bind ((meet_ensures env.lock).weaken_post (fun _ _ h => h)
    fun _ _ _ => trivial) fun _ => ?_
  refine (connected_ensures _ _).bind fun b => Ensures.ite (fun _ => ?_) fun hb => ?_
  · exact release_meet_rested env.shutdown
  · exact ensures_pure _ fun w hw => rested_of_not_connected fun hc => hb (hw.2.mpr hc)

end Rust

/-- Whatever came before, and whatever state the connection is in, the clients in Python, Go, Rust
and Java pair requests and answers again after a call of `close` that returns. -/
theorem closing_heals (cfg : Config φ) (rustCfg : Config (Rust.Fault φ)) :
    Heals (Python.Recovers cfg) (Python.call cfg) cfg acceptPing ∧
      Heals (Go.Recovers cfg) (Go.call cfg) cfg acceptPing ∧
        Heals (Rust.Recovers rustCfg) (Rust.call rustCfg) rustCfg Rust.acceptPing ∧
          Heals (Java.Recovers cfg) (Java.call cfg) cfg acceptPing := by
  refine ⟨?_, ?_, ?_, ?_⟩
  · exact heals_of_ensures _ (fun env => Python.close_heals env False) (Python.call_recovers cfg)
  · exact heals_of_ensures _ (fun env => Go.close_heals env False) (Go.call_recovers cfg)
  · exact heals_of_ensures _ (fun env => Rust.close_heals env False) (Rust.call_recovers rustCfg)
  · exact heals_of_ensures _ (fun _ => (Java.close_rested (fun _ => True) False).weaken_post
      (fun _ _ h => h) fun _ _ _ => trivial) (Java.call_recovers cfg)

end LockStep

end DittoClient
