import DittoClient.LockStep.Growth

/-!
# How often a call hands a frame over

A call hands over the frame of its own request once, or twice when it may be sent again, and no
frame of another request (`Hands`). The clients are built from the same pieces: connecting hands
over an Auth frame at most, closing and waiting hand over nothing.
-/

namespace DittoClient

namespace LockStep

open DittoClient.Protobuf
open DittoClient.Wire
open DittoClient.Program

variable {φ : Type}

/-- How often a call may hand over a frame. -/
def Call.transmissions (c : Call) (frame : Request) : ℕ :=
  if c.request? = some frame then if c.retrySafe then 2 else 1 else 0

/-- A call of a client hands over no frame but its own and Auth frames. -/
def Hands (call : CallEnv φ → Call → Client φ Result) : Prop :=
  ∀ (env : CallEnv φ) (c : Call) (frame : Request), (∀ token, Request.auth token ≠ frame) →
    ∀ w : World φ, w.Sound →
      Ensures (· = w) (call env c) (fun _ t => w.Grows frame (c.transmissions frame) t)
        (fun _ t => w.Grows frame (c.transmissions frame) t)

section Pieces

variable {accepts : ℕ → Bool} {decode : Decoder} {frame : Request} {α : Type}

/-- What is traced grows. -/
theorem grows_of_tracedAt {m : Client φ α} {Q : α → List Event → World φ → Prop}
    {E : Failure φ → List Event → World φ → Prop} {n : ℕ} {w : World φ}
    (h : TracedAt (Event.Step accepts decode) m Q E w)
    (hQ : ∀ a es t, Q a es t → es.countP (Event.hands frame) ≤ n)
    (hE : ∀ e es t, E e es t → es.countP (Event.hands frame) ≤ n) (hw : w.Sound) :
    Ensures (· = w) m (fun _ t => w.Grows frame n t) (fun _ t => w.Grows frame n t) := by
  rintro w rfl
  cases hm : m w with
  | ok a t =>
      obtain ⟨es, hwent, hq⟩ := h.of_ok hm
      exact (Went.grows hw hwent frame).mono (hQ a es t hq)
  | error e t =>
      obtain ⟨es, hwent, he⟩ := h.of_error hm
      exact (Went.grows hw hwent frame).mono (hE e es t he)

theorem grows_of_calms {m : Client φ α} {n : ℕ} (h : Calms accepts decode frame m) {w : World φ}
    (hw : w.Sound) :
    Ensures (· = w) m (fun _ t => w.Grows frame n t) (fun _ t => w.Grows frame n t) :=
  grows_of_tracedAt (h w) (fun _ _ _ hes => (Calm.countP hes).le.trans (Nat.zero_le n))
    (fun _ _ _ hes => (Calm.countP hes).le.trans (Nat.zero_le n)) hw

/-- The frame of a call itself. -/
theorem grows_of_calling {cfg : Config φ} {enter : Client φ Unit}
    {attempt : Client φ ClientResponse} {ping : ClientResponse → Except (Failure φ) Result}
    {c : Call} (hc : c.request? = some frame) {m : Client φ Result}
    (h : Calling cfg accepts enter attempt ping c frame m) {w : World φ} (hw : w.Sound) :
    Ensures (· = w) m (fun _ t => w.Grows frame (c.transmissions frame) t)
      (fun _ t => w.Grows frame (c.transmissions frame) t) := by
  let x := c.sending cfg accepts enter attempt frame w
  have hcount : ∀ es t, x.Sends w es t →
      es.countP (Event.hands frame) ≤ c.transmissions frame := by
    intro es t hes
    rw [Call.transmissions, if_pos hc]
    rcases hes with hone | ⟨hagain, hretried⟩
    · refine hone.once.trans ?_
      split
      · exact Nat.le_succ 1
      · exact le_rfl
    · rw [if_pos (Bool.and_eq_true_iff.mp hagain).1]
      exact hretried.countP_le
  exact grows_of_tracedAt (h w) (fun _ es t hes => hcount es t hes.1)
    (fun _ es t hes => hcount es t hes) hw

theorem ofExcept_calms (x : Except (Failure φ) α) : Calms accepts decode frame (ofExcept x) := by
  intro w
  unfold ofExcept
  cases x with
  | ok a => exact ⟨[], Path.nil w, List.forall_mem_nil _⟩
  | error e => exact ⟨[], Path.nil w, List.forall_mem_nil _⟩

theorem request_calms {send : Client φ ClientResponse} (h : Calms accepts decode frame send)
    (accept : ClientResponse → Except (Failure φ) Result) :
    Calms accepts decode frame (request send accept) :=
  h.bind fun _ => ofExcept_calms _

/-- One attempt at a request, and a second one. -/
theorem attempts_calms {first second : Client φ ClientResponse} {closing connect : Client φ Unit}
    {isErr : Failure φ → Bool} {retrySafe auto : Bool} (hfirst : Calms accepts decode frame first)
    (hclosing : Calms accepts decode frame closing)
    (hconnect : Calms accepts decode frame connect)
    (hsecond : Calms accepts decode frame second) :
    Calms accepts decode frame
      (tryCatch first fun err =>
        if isErr err then do
          closing
          if retrySafe then
            if auto then do
              connect
              second
            else throw err
          else throw .outcomeUnknown
        else throw err) :=
  hfirst.tryCatch fun _ => Within.ite (hclosing.bind fun _ =>
    Within.ite (Within.ite (hconnect.bind fun _ => hsecond) (Within.throw _)) (Within.throw _))
      (Within.throw _)

/-- A wait for a watch event. -/
theorem await_grows {pre : Client φ α} (hpre : Calms accepts decode frame pre) (a : Arrival φ)
    (n : ℕ) {w : World φ} (hw : w.Sound) :
    Ensures (· = w)
      (pre >>= fun _ => request (awaitFrame accepts decode a) acceptWatchEvent)
      (fun _ t => w.Grows frame n t) (fun _ t => w.Grows frame n t) := by
  refine Ensures.bind ((grows_of_calms (n := 0) hpre hw).weaken_post (fun _ _ h => h)
    fun _ _ h => h.mono (Nat.zero_le n)) fun _ => ?_
  refine Ensures.bind (R := fun _ t => w.Grows frame 0 t) ?_ fun r => ?_
  · intro t ht
    refine ((awaitFrame_grows accepts decode a ht.sound frame).weaken_post ?_ ?_) t rfl
    · exact fun _ _ h => ht.trans h
    · exact fun _ _ h => (ht.trans h).mono (Nat.zero_le n)
  · cases acceptWatchEvent (φ := φ) r with
    | ok res =>
        intro t ht
        exact ht.mono (Nat.zero_le n)
    | error e =>
        intro t ht
        exact ht.mono (Nat.zero_le n)

end Pieces

namespace Python

variable {frame : Request}

theorem send_calms (cfg : Config φ) (env : CallEnv φ) {other : Request} (retrySafe : Bool)
    (hauth : ∀ token, Request.auth token ≠ frame) (hne : other ≠ frame) :
    Calms cfg.accepts cfg.decode frame (send cfg env other retrySafe) :=
  connected_calms.bind fun _ => Within.ite
    (attempts_calms ((exchange_exchanges env.first other).calms hne)
      (closeLocked_calms env.shutdown) (connectLocked_calms cfg env.reconnect hauth)
      ((exchange_exchanges env.retry other).calms hne)) (Within.throw _)

theorem call_hands (cfg : Config φ) : Hands (call cfg) := by
  intro env c frame hauth w hw
  by_cases hown : c.request? = some frame
  · exact grows_of_calling hown (call_calling cfg env hown) hw
  · have hother : ∀ other retrySafe accept, c.request? = some other →
        Ensures (· = w) (operation cfg env other retrySafe accept)
          (fun _ t => w.Grows frame (c.transmissions frame) t)
          (fun _ t => w.Grows frame (c.transmissions frame) t) := by
      intro other retrySafe accept hc
      have hne : other ≠ frame := fun h => hown (h ▸ hc)
      exact grows_of_calms ((check_calms cfg other).bind fun _ =>
        request_calms (send_calms cfg env retrySafe hauth hne) accept) hw
    cases c with
    | connect =>
        exact grows_of_calms ((connectLocked_calms cfg env.connect hauth).bind
          fun _ => Within.pure _) hw
    | close =>
        have hclose : Calms cfg.accepts cfg.decode frame (closeLocked env.shutdown) :=
          closeLocked_calms env.shutdown
        exact grows_of_calms (hclose.bind fun _ => Within.pure _) hw
    | waitWatchEvent =>
        refine Ensures.bind ((connected_ensures (· = w) _).weaken_post (fun _ _ h => h)
          fun _ _ h => h) fun b => Ensures.ite (fun _ => ?_)
            fun _ => ensures_throw _ fun t ht => ?_
        · have hpre : Calms cfg.accepts cfg.decode frame (pure () : Client φ Unit) := Within.pure ()
          refine Ensures.mono (await_grows hpre env.first.toArrival _ hw) (fun _ h => h.1)
            (fun _ _ h => h) fun _ _ h => h
        · rw [ht.1]
          exact .refl hw frame _
    | ping =>
        have hne : Request.ping ≠ frame := fun h => hown (congrArg some h)
        exact grows_of_calms (request_calms (send_calms cfg env true hauth hne) _) hw
    | _ => exact hother _ _ _ rfl

end Python

namespace Go

variable {frame : Request}

theorem sendRequestLocked_calms (cfg : Config φ) (env : CallEnv φ) {other : Request}
    (retrySafe : Bool) (hauth : ∀ token, Request.auth token ≠ frame) (hne : other ≠ frame) :
    Calms cfg.accepts cfg.decode frame (sendRequestLocked cfg env other retrySafe) :=
  attempts_calms ((exchange_exchanges env.first other).calms hne) release_calms
    (ensureConnectedLocked_calms cfg env.reconnect hauth)
    ((exchange_exchanges env.retry other).calms hne)

theorem call_hands (cfg : Config φ) : Hands (call cfg) := by
  intro env c frame hauth w hw
  have hconnect := ensureConnectedLocked_calms cfg env.connect hauth
  by_cases hown : c.request? = some frame
  · exact grows_of_calling hown (call_calling cfg env hown) hw
  · have hrequest : ∀ other retrySafe accept, c.request? = some other →
        Calms cfg.accepts cfg.decode frame
          (request (sendRequestLocked cfg env other retrySafe) accept) := by
      intro other retrySafe accept hc
      have hne : other ≠ frame := fun h => hown (h ▸ hc)
      exact request_calms (sendRequestLocked_calms cfg env retrySafe hauth hne) accept
    have hoperation : ∀ other retrySafe accept, c.request? = some other →
        Ensures (· = w) (operation cfg env other retrySafe accept)
          (fun _ t => w.Grows frame (c.transmissions frame) t)
          (fun _ t => w.Grows frame (c.transmissions frame) t) := fun other retrySafe accept hc =>
      grows_of_calms (hconnect.bind fun _ => (check_calms cfg other).bind fun _ =>
        hrequest other retrySafe accept hc) hw
    have hatomic : ∀ name other accept, c.request? = some other →
        Ensures (· = w) (atomic cfg env name other accept)
          (fun _ t => w.Grows frame (c.transmissions frame) t)
          (fun _ t => w.Grows frame (c.transmissions frame) t) := fun name other accept hc =>
      grows_of_calms ((mapFailure_calms hconnect _).bind fun _ => (check_calms cfg other).bind
        fun _ => mapFailure_calms (hrequest other false accept hc) _) hw
    cases c with
    | connect =>
        exact grows_of_calms ((connectLocked_calms cfg env.connect hauth).bind
          fun _ => Within.pure _) hw
    | close =>
        have hclose : Calms cfg.accepts cfg.decode frame (call cfg env .close) :=
          connected_calms.bind fun _ => Within.ite (release_calms.bind fun _ =>
            (meet_calms env.shutdown).bind fun _ => Within.pure _) (Within.pure _)
        exact grows_of_calms hclose hw
    | waitWatchEvent => exact await_grows hconnect env.first.toArrival _ hw
    | ping => exact grows_of_calms (hconnect.bind fun _ => hrequest _ _ _ rfl) hw
    | setNx key value ttl ns => exact hatomic _ _ _ rfl
    | incr key delta ttl ns => exact hatomic _ _ _ rfl
    | _ => exact hoperation _ _ _ rfl

end Go

namespace Rust

variable {frame : Request}

theorem sendRequest_calms (cfg : Config (Fault φ)) (env : CallEnv (Fault φ)) {other : Request}
    (retrySafe : Bool) (hauth : ∀ token, Request.auth token ≠ frame) (hne : other ≠ frame) :
    Calms cfg.accepts cfg.decode frame (sendRequest cfg env other retrySafe) :=
  (meet_calms env.lock).bind fun _ => (ensureConnectedLocked_calms cfg env.connect hauth).bind
    fun _ => attempts_calms ((exchange_exchanges env.first other).calms hne) release_calms
      (ensureConnectedLocked_calms cfg env.reconnect hauth)
      ((exchange_exchanges env.retry other).calms hne)

theorem call_hands (cfg : Config (Fault φ)) : Hands (call cfg) := by
  intro env c frame hauth w hw
  have hconnect := ensureConnectedLocked_calms cfg env.connect hauth
  by_cases hown : c.request? = some frame
  · exact grows_of_calling hown (call_calling cfg env hown) hw
  · have hrequest : ∀ other retrySafe accept, c.request? = some other →
        Calms cfg.accepts cfg.decode frame
          (request (sendRequest cfg env other retrySafe) accept) := by
      intro other retrySafe accept hc
      have hne : other ≠ frame := fun h => hown (h ▸ hc)
      exact request_calms (sendRequest_calms cfg env retrySafe hauth hne) accept
    have hoperation : ∀ other retrySafe accept, c.request? = some other →
        Ensures (· = w) (operation cfg env other retrySafe accept)
          (fun _ t => w.Grows frame (c.transmissions frame) t)
          (fun _ t => w.Grows frame (c.transmissions frame) t) := fun other retrySafe accept hc =>
      grows_of_calms ((check_calms cfg other).bind fun _ => hrequest other retrySafe accept hc) hw
    have hatomic : ∀ name other accept, c.request? = some other →
        Ensures (· = w) (atomic cfg env name other accept)
          (fun _ t => w.Grows frame (c.transmissions frame) t)
          (fun _ t => w.Grows frame (c.transmissions frame) t) := fun name other accept hc =>
      grows_of_calms ((check_calms cfg other).bind fun _ =>
        mapFailure_calms (hrequest other false accept hc) _) hw
    cases c with
    | connect =>
        exact grows_of_calms ((meet_calms env.lock).bind fun _ => hconnect.bind
          fun _ => Within.pure _) hw
    | close =>
        have hclose : Calms cfg.accepts cfg.decode frame (call cfg env .close) :=
          (meet_calms env.lock).bind fun _ => connected_calms.bind fun _ =>
            Within.ite (release_calms.bind fun _ => (meet_calms env.shutdown).bind
              fun _ => Within.pure _) (Within.pure _)
        exact grows_of_calms hclose hw
    | waitWatchEvent =>
        have hmeet : Calms cfg.accepts cfg.decode frame (meet env.lock) := meet_calms env.lock
        have hpre := hmeet.bind fun _ => hconnect
        have hwait := await_grows hpre env.first.toArrival
          (Call.waitWatchEvent.transmissions frame) hw
        rw [bind_assoc] at hwait
        exact hwait
    | ping => exact grows_of_calms (hrequest _ _ _ rfl) hw
    | setNx key value ttl ns => exact hatomic _ _ _ rfl
    | incr key delta ttl ns => exact hatomic _ _ _ rfl
    | _ => exact hoperation _ _ _ rfl

end Rust

namespace Java

variable {frame : Request}

theorem sendAndRead_calms (cfg : Config φ) (env : CallEnv φ) {other : Request} (retrySafe : Bool)
    (hauth : ∀ token, Request.auth token ≠ frame) (hne : other ≠ frame) :
    Calms (LockStep.Java.accepts cfg) cfg.decode frame (sendAndRead cfg env other retrySafe) :=
  attempts_calms ((exchangeFrames_exchanges cfg env.first other).calms hne)
    closeSocketOnly_closes.calms (connectSocket_calms cfg env.reconnect hauth)
    ((exchangeFrames_exchanges cfg env.retry other).calms hne)

theorem call_hands (cfg : Config φ) : Hands (call cfg) := by
  intro env c frame hauth w hw
  by_cases hown : c.request? = some frame
  · exact grows_of_calling hown (call_calling cfg env hown) hw
  · have hoperation : ∀ other retrySafe accept, c.request? = some other →
        Calms (LockStep.Java.accepts cfg) cfg.decode frame
          (operation cfg env other retrySafe accept) := by
      intro other retrySafe accept hc
      have hne : other ≠ frame := fun h => hown (h ▸ hc)
      exact (check_calms cfg other).bind fun _ =>
        request_calms (sendAndRead_calms cfg env retrySafe hauth hne) accept
    cases c with
    | connect =>
        exact grows_of_calms ((connectSocket_calms cfg env.connect hauth).bind
          fun _ => Within.pure _) hw
    | close =>
        have hclose : Calms (LockStep.Java.accepts cfg) cfg.decode frame
            (closeSocketOnly : Client φ Unit) := closeSocketOnly_closes.calms
        exact grows_of_calms (hclose.bind fun _ => Within.pure _) hw
    | waitWatchEvent =>
        have hinput : Ensures (· = w) (hasInput : Client φ Bool) (fun _ t => t = w)
            (fun _ _ => False) := by
          rintro w rfl
          exact rfl
        refine Ensures.bind (hinput.weaken_post (fun _ _ h => h) fun _ _ h => h.elim) fun b =>
          Ensures.ite (fun _ => ?_) fun _ => ensures_throw _ fun t ht => ?_
        · have hpre : Calms (LockStep.Java.accepts cfg) cfg.decode frame
              (pure () : Client φ Unit) := Within.pure ()
          exact await_grows hpre env.first.toArrival _ hw
        · rw [ht]
          exact .refl hw frame _
    | ping =>
        have hne : Request.ping ≠ frame := fun h => hown (congrArg some h)
        exact grows_of_calms (request_calms (sendAndRead_calms cfg env true hauth hne) _) hw
    | setNx key value ttl ns => exact grows_of_calms (mapFailure_calms (hoperation _ _ _ rfl) _) hw
    | incr key delta ttl ns => exact grows_of_calms (mapFailure_calms (hoperation _ _ _ rfl) _) hw
    | _ => exact grows_of_calms (hoperation _ _ _ rfl) hw

end Java

end LockStep

end DittoClient
