import DittoClient.LockStep.Traffic
import DittoClient.Program.Trace

/-!
# The events of a call

What a call does on the network is a list of events: it opens a connection, hands a frame
to the socket, reads a frame or fails to, or closes what it holds. `Event.Step` says how each
of them changes the connections. `Sending.Sends` is the pattern that the events of a request
follow: one attempt, or two of which the first one fails.
-/

namespace DittoClient

namespace LockStep

open DittoClient.Protobuf
open DittoClient.Wire
open DittoClient.Program

variable {φ : Type}

/-- What happens on the network during a call. -/
inductive Event
  | opened (i : ℕ)
  | handed (i : ℕ) (frame : Request)
  | read (i : ℕ) (r : ClientResponse)
  | lost (i : ℕ)
  | closed
  | streams
  deriving DecidableEq

namespace Event

/-- How an event changes the world. A frame that is lost may have been read in part. -/
def Step (accepts : ℕ → Bool) (decode : Decoder) : Event → World φ → World φ → Prop
  | opened i, w, t => i = w.next ∧ (dial .ok >>= hold) w = .ok () t
  | handed i frame, w, t => w.held = some i ∧ ∃ (a : Arrival φ) (complete : Bool),
      t = a.apply i (w.update i fun c => c.write frame complete)
  | read i r, w, t => w.held = some i ∧ recvFrame accepts decode w = .ok r t
  | lost i, w, t => w.held = some i ∧ ∃ e, recvFrame accepts decode w = .error e t
  | closed, w, t => release w = .ok () t
  | streams, w, t => t = { w with input := t.input, output := t.output }

/-- Whether `frame` is handed to a socket. -/
def hands (frame : Request) : Event → Bool
  | handed _ f => decide (f = frame)
  | _ => false

/-- Whether a connection is opened. -/
def opens : Event → Bool
  | opened _ => true
  | _ => false

@[simp] theorem hands_handed (frame : Request) (i : ℕ) :
    (handed i frame).hands frame = true := decide_eq_true rfl

end Event

/-- The path of a call whose connections are read with `accepts` and `decode`. -/
abbrev Went (accepts : ℕ → Bool) (decode : Decoder) : World φ → List Event → World φ → Prop :=
  Path (Event.Step accepts decode)

section Held

variable {accepts : ℕ → Bool} {decode : Decoder} {w t : World φ}

/-- A frame is read or fails to be read on the connection that is held. -/
theorem recvFrame_held (w : World φ) :
    Ensures (· = w) (recvFrame accepts decode) (fun _ t => t.held = w.held)
      (fun _ t => t.held = w.held) :=
  (recvFrame_follows accepts decode w).weaken_post (fun _ _ h => h.held) fun _ _ h => h.held

/-- The connection that is held after an event was held before it, or has been opened. -/
theorem Event.Step.held {e : Event} (h : e.Step accepts decode w t) {j : ℕ}
    (hj : t.held = some j) : w.held = some j ∨ e = .opened j := by
  cases e with
  | opened i =>
      obtain ⟨rfl, hopen⟩ := h
      cases hopen
      cases hj
      exact Or.inr rfl
  | handed i frame =>
      obtain ⟨-, a, complete, rfl⟩ := h
      exact Or.inl hj
  | read i r => exact Or.inl (((recvFrame_held w).of_ok rfl h.2).symm.trans hj)
  | lost i =>
      obtain ⟨-, e, h⟩ := h
      exact Or.inl (((recvFrame_held w).of_error rfl h).symm.trans hj)
  | closed =>
      have hnone := (release_ensures (fun _ => True) fun _ _ => True).of_ok trivial h
      rw [hnone] at hj
      cases hj
  | streams =>
      rw [h] at hj
      exact Or.inl hj

/-- The connection that is held after a path was held before it, or has been opened on
the way. -/
theorem Went.held {es : List Event} (h : Went accepts decode w es t) {j : ℕ}
    (hj : t.held = some j) : w.held = some j ∨ .opened j ∈ es := by
  induction h with
  | nil => exact Or.inl hj
  | cons hstep _ ih =>
      rcases ih hj with h | h
      · rcases hstep.held h with h | rfl
        · exact Or.inl h
        · exact Or.inr (List.mem_cons_self ..)
      · exact Or.inr (List.mem_cons_of_mem _ h)

/-- A frame that is handed over after the connection was closed goes to a connection
opened since. -/
theorem Went.opened_of_closed {mid post : List Event} {j : ℕ} {frame : Request}
    (h : Went accepts decode w (.closed :: (mid ++ .handed j frame :: post)) t) :
    .opened j ∈ mid := by
  cases h with
  | cons hclose hrest =>
      obtain ⟨u, hmid, hpost⟩ := hrest.of_append
      have hnone := (release_ensures (fun _ => True) fun _ _ => True).of_ok trivial hclose
      cases hpost with
      | cons hhand _ =>
          rcases Went.held hmid hhand.1 with h | h
          · rw [hnone] at h
            cases h
          · exact h

end Held

/-- Events among which `frame` is not handed over. -/
abbrev Calm (frame : Request) (es : List Event) : Prop :=
  ∀ e ∈ es, e.hands frame = false

theorem Calm.countP {frame : Request} {es : List Event} (h : Calm frame es) :
    es.countP (Event.hands frame) = 0 :=
  List.countP_eq_zero.mpr fun e he => by simp [h e he]

/-- The frame is handed over at most once, and no connection is opened after that. -/
structure Once (frame : Request) (es : List Event) : Prop where
  once : es.countP (Event.hands frame) ≤ 1
  settled : es.Pairwise fun e e' => e.hands frame = true → e'.opens = false

/-- The events end with the frame and a response that was read after it. -/
def EndsWith (frame : Request) (r : ClientResponse) (es : List Event) : Prop :=
  ∃ pre i, es = pre ++ [.handed i frame, .read i r]

/-- How a client sends a request. -/
structure Sending (φ : Type) where
  accepts : ℕ → Bool
  decode : Decoder
  frame : Request
  /-- The states in which the first attempt may begin. -/
  begins : World φ → Prop
  /-- The first attempt. -/
  attempt : Client φ ClientResponse
  /-- Whether a second attempt may be made. -/
  again : Bool

namespace Sending

variable (x : Sending φ)

/-- How an event changes the world. -/
abbrev Step : Event → World φ → World φ → Prop :=
  Event.Step x.accepts x.decode

/-- The path of a request. -/
abbrev Went : World φ → List Event → World φ → Prop :=
  LockStep.Went x.accepts x.decode

/-- The first attempt begins in `u` and fails, which leaves the world as `v`. -/
def Fails (u v : World φ) : Prop :=
  x.begins u ∧ ∃ e, x.attempt u = .error e v

/-- After a failed attempt the connection is closed, and a second attempt is made. -/
def Retried (w : World φ) (es : List Event) (t : World φ) : Prop :=
  ∃ pre first second u v, es = pre ++ (first ++ .closed :: second) ∧ Calm x.frame pre ∧
    x.Fails u v ∧ x.Went w pre u ∧ x.Went u first v ∧ x.Went v (.closed :: second) t ∧
      first.countP (Event.hands x.frame) ≤ 1 ∧ second.countP (Event.hands x.frame) ≤ 1

/-- The events of a request: one attempt, or two when it may be sent again. -/
def Sends (w : World φ) (es : List Event) (t : World φ) : Prop :=
  Once x.frame es ∨ (x.again = true ∧ x.Retried w es t)

/-- The frame is handed over once. Or, where it may be sent again, there was a first attempt
that handed it over once at most and failed, and after that it is handed over once at most,
on a connection opened since. -/
def Twice (w : World φ) (es : List Event) (t : World φ) : Prop :=
  Once x.frame es ∨ x.again = true ∧ ∃ pre first second u v,
    es = pre ++ (first ++ second) ∧ Calm x.frame pre ∧
      x.Fails u v ∧ x.Went w pre u ∧ x.Went u first v ∧ x.Went v second t ∧
        first.countP (Event.hands x.frame) ≤ 1 ∧ second.countP (Event.hands x.frame) ≤ 1 ∧
          ∀ mid j post, second = mid ++ .handed j x.frame :: post → .opened j ∈ mid

end Sending

section Sends

variable {x : Sending φ} {frame : Request} {pre es : List Event} {w u t : World φ}

theorem Calm.once (h : Calm frame es) : Once frame es where
  once := by simp [h.countP]
  settled := List.pairwise_of_forall_mem_list fun e he e' _ hhand => by
    rw [h e he] at hhand
    cases hhand

theorem Once.append (hpre : Calm frame pre) (h : Once frame es) : Once frame (pre ++ es) where
  once := by simpa [List.countP_append, hpre.countP] using h.once
  settled := List.pairwise_append.mpr ⟨hpre.once.settled, h.settled, fun e he e' _ hhand => by
    rw [hpre e he] at hhand
    cases hhand⟩

theorem Sending.Retried.append (hwent : x.Went w pre u) (hpre : Calm x.frame pre)
    (h : x.Retried u es t) : x.Retried w (pre ++ es) t := by
  obtain ⟨mid, first, second, v, v', rfl, hmid, hfails, hbegin, hrest⟩ := h
  exact ⟨pre ++ mid, first, second, v, v', (List.append_assoc ..).symm,
    List.forall_mem_append.mpr ⟨hpre, hmid⟩, hfails, hwent.append hbegin, hrest⟩

theorem Sending.Sends.append (hwent : x.Went w pre u) (hpre : Calm x.frame pre)
    (h : x.Sends u es t) : x.Sends w (pre ++ es) t :=
  h.imp (Once.append hpre) fun h => ⟨h.1, h.2.append hwent hpre⟩

theorem EndsWith.append {r : ClientResponse} (pre : List Event) (h : EndsWith frame r es) :
    EndsWith frame r (pre ++ es) := by
  obtain ⟨mid, i, rfl⟩ := h
  exact ⟨pre ++ mid, i, by simp⟩

theorem Sending.Retried.countP_le (h : x.Retried w es t) :
    es.countP (Event.hands x.frame) ≤ 2 := by
  obtain ⟨pre, first, second, u, v, rfl, hpre, -, -, -, -, hfirst, hsecond⟩ := h
  have hclosed : (Event.closed :: second).countP (Event.hands x.frame) =
      second.countP (Event.hands x.frame) := List.countP_cons_of_neg (by simp [Event.hands])
  rw [List.countP_append, List.countP_append, hpre.countP, hclosed]
  omega

/-- A request that is not sent again hands its frame over once. -/
theorem Sending.Sends.once (h : x.Sends w es t) (hagain : x.again = false) :
    Once x.frame es := by
  refine h.resolve_right fun h => ?_
  rw [hagain] at h
  exact Bool.noConfusion h.1

/-- A request that may be sent again hands its frame over once more at most. -/
theorem Sending.Sends.twice (h : x.Sends w es t) : x.Twice w es t := by
  refine h.imp_right fun ⟨hagain, pre, first, second, u, v, heq, hpre, hfails, hbegin, hattempt,
    hrest, hfirst, hsecond⟩ => ⟨hagain, pre, first, .closed :: second, u, v, heq, hpre, hfails,
    hbegin, hattempt, hrest, hfirst, ?_, fun mid j post heq => ?_⟩
  · simpa [Event.hands] using hsecond
  · cases mid with
    | nil => cases heq
    | cons e mid =>
        obtain ⟨rfl, rfl⟩ := List.cons.inj heq
        exact List.mem_cons_of_mem _ (Went.opened_of_closed hrest)

end Sends

end LockStep

end DittoClient
