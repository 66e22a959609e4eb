import DittoClient.LockStep.Events

/-!
# How often a request is sent

The four lock-step clients send a request in the same way: one exchange, and when it fails
with an error that is caught, the connection is closed and a retry-safe request is sent
once more on a connection opened for it. `attempts_sent` traces this pattern once; each
client instantiates it with its own exchange, its own way of closing and connecting, and
its own test of which errors it catches. `requests_transmitted` draws the conclusion for
every call from every state, whatever the network does.
-/

namespace DittoClient

namespace LockStep

open DittoClient.Protobuf
open DittoClient.Wire
open DittoClient.Program

variable {φ : Type} {accepts : ℕ → Bool} {decode : Decoder} {frame : Request}

/-- The program hands over no frame of a call. -/
abbrev Calms (accepts : ℕ → Bool) (decode : Decoder) (frame : Request) {α : Type}
    (m : Client φ α) : Prop :=
  Within (Event.Step accepts decode) (fun e => e.hands frame = false) m

/-- What is left of a failed attempt: nothing was handed over, or the frame was and its
answer was not awaited or got lost. -/
def Attempt.Left (frame : Request) (es : List Event) : Prop :=
  es = [] ∨ ∃ i, es = [.handed i frame] ∨ es = [.handed i frame, .lost i]

/-- The program is one exchange of `frame` for a response. -/
def Exchanges (accepts : ℕ → Bool) (decode : Decoder) (frame : Request)
    (m : Client φ ClientResponse) : Prop :=
  Traced (Event.Step accepts decode) m (fun r es => ∃ i, es = [.handed i frame, .read i r])
    fun _ es => Attempt.Left frame es

/-- The program closes the connection, or fails to. -/
def Closes (accepts : ℕ → Bool) (decode : Decoder) (m : Client φ Unit) : Prop :=
  Traced (Event.Step accepts decode) m
    (fun _ es => es = [.closed] ∨ es = [.closed, .streams]) fun _ es => es = []

section Pieces

theorem connected_traced (E : Failure φ → List Event → World φ → Prop) (w : World φ) :
    TracedAt (Event.Step accepts decode) connected
      (fun b es t => b = w.held.isSome ∧ es = [] ∧ t = w) E w :=
  ⟨[], Path.nil w, rfl, rfl, rfl⟩

theorem connected_calms : Calms accepts decode frame (connected : Client φ Bool) :=
  fun w => ⟨[], Path.nil w, by simp⟩

theorem dial_hold_calms (d : Dial φ) : Calms accepts decode frame (dial d >>= hold) := by
  intro w
  cases d with
  | ok => exact ⟨[.opened w.next], Path.single ⟨rfl, rfl⟩, by simp [Event.hands]⟩
  | failed f => exact ⟨[], Path.nil w, by simp⟩

theorem meet_calms (f : Option φ) : Calms accepts decode frame (meet f) := by
  intro w
  cases f with
  | none => exact ⟨[], Path.nil w, by simp⟩
  | some f => exact ⟨[], Path.nil w, by simp⟩

theorem release_traced (E : Failure φ → List Event → Prop) :
    Traced (Event.Step accepts decode) release (fun _ es => es = [.closed]) E := by
  refine fun w => TracedAt.intro (fun _ t h => ⟨[.closed], Path.single h, rfl⟩) fun e t h => ?_
  exact ((release_ensures (fun _ : World φ => True) fun _ _ => False).of_error trivial h).elim

theorem release_calms : Calms accepts decode frame (release : Client φ Unit) := by
  refine (release_traced fun _ _ => False).mono ?_ fun _ _ h => h.elim
  rintro - es rfl
  simp [Event.hands]

theorem check_calms (cfg : Config φ) (req : Request) :
    Calms accepts decode frame (cfg.check req) := by
  intro w
  unfold Config.check ofExcept
  cases (cfg.validate req).mapError Failure.invalid with
  | ok u => exact ⟨[], Path.nil w, by simp⟩
  | error e => exact ⟨[], Path.nil w, by simp⟩

/-- Handing a frame to the socket. -/
theorem sendall_traced (accepts : ℕ → Bool) (decode : Decoder) (x : Exchange φ)
    (frame : Request) (w : World φ) :
    TracedAt (Event.Step accepts decode) (sendall x frame)
      (fun _ es t => ∃ i, t.held = some i ∧ es = [.handed i frame])
      (fun _ es _ => Attempt.Left frame es) w := by
  unfold sendall
  cases hw : w.held with
  | none =>
      simp only [TracedAt, hw]
      exact ⟨[], Path.nil w, Or.inl rfl⟩
  | some i =>
      cases hx : x.write with
      | ok =>
          simp only [TracedAt, hw]
          exact ⟨[.handed i frame], Path.single ⟨hw, x.toArrival, true, rfl⟩, i, hw, rfl⟩
      | failed complete f =>
          simp only [TracedAt, hw]
          exact ⟨[.handed i frame], Path.single ⟨hw, x.toArrival, complete, rfl⟩,
            Or.inr ⟨i, Or.inl rfl⟩⟩
      | refused f =>
          simp only [TracedAt, hw]
          exact ⟨[], Path.nil w, Or.inl rfl⟩

theorem exchange_exchanges (x : Exchange φ) (frame : Request) :
    Exchanges accepts decode frame (exchange accepts decode x frame) := by
  refine fun w => TracedAt.bind (sendall_traced accepts decode x frame w) fun _ es t _ _ hes => ?_
  obtain ⟨i, hheld, rfl⟩ := hes
  refine TracedAt.intro (fun r v hr => ?_) fun e v hr => ?_
  · exact ⟨[.read i r], Path.single ⟨hheld, hr⟩, i, rfl⟩
  · exact ⟨[.lost i], Path.single ⟨hheld, e, hr⟩, Or.inr ⟨i, Or.inr rfl⟩⟩

/-- The exchange of another frame. -/
theorem Exchanges.calms {other : Request} {m : Client φ ClientResponse}
    (h : Exchanges accepts decode other m) (hne : other ≠ frame) :
    Calms accepts decode frame m := by
  refine h.mono ?_ ?_
  · rintro r es ⟨i, rfl⟩
    simp [Event.hands, hne]
  · rintro e es (rfl | ⟨i, rfl | rfl⟩) <;> simp [Event.hands, hne]

/-- Closing hands over nothing. -/
theorem Closes.calms {m : Client φ Unit} (h : Closes accepts decode m) :
    Calms accepts decode frame m := by
  refine h.mono ?_ ?_
  · rintro - es (rfl | rfl) <;> simp [Event.hands]
  · rintro - es rfl
    simp

theorem release_closes : Closes accepts decode (release : Client φ Unit) :=
  (release_traced fun _ _ => False).mono (fun _ _ h => Or.inl h) fun _ _ h => h.elim

end Pieces

section Attempts

variable {x : Sending φ} {es : List Event} {w : World φ} {α β : Type}

theorem Attempt.Left.countP_le (h : Attempt.Left frame es) :
    es.countP (Event.hands frame) ≤ 1 := by
  rcases h with rfl | ⟨i, rfl | rfl⟩ <;> simp [Event.hands]

/-- A failed attempt, and what follows it as long as that neither hands the frame over
nor opens a connection. -/
theorem Attempt.Left.once (h : Attempt.Left frame es) {post : List Event}
    (hpost : ∀ e ∈ post, e.hands frame = false ∧ e.opens = false) :
    Once frame (es ++ post) where
  once := by
    rw [List.countP_append, Calm.countP fun e he => (hpost e he).1]
    exact h.countP_le
  settled := by
    have hpair : es.Pairwise fun e e' => e.hands frame = true → e'.opens = false := by
      rcases h with rfl | ⟨i, rfl | rfl⟩ <;> simp [Event.opens]
    exact List.pairwise_append.mpr ⟨hpair, List.pairwise_of_forall_mem_list
      fun _ _ e' he' _ => (hpost e' he').2, fun _ _ e' he' _ => (hpost e' he').2⟩

/-- An answered exchange. -/
theorem once_answered (frame : Request) (i : ℕ) (r : ClientResponse) :
    Once frame [.handed i frame, .read i r] where
  once := by simp [Event.hands]
  settled := by simp [Event.opens]

/-- Run from `w`, the program sends the request, and what it returns was read off the response
to it by `A`. -/
abbrev Sending.SentBy (x : Sending φ) (m : Client φ α) (A : α → ClientResponse → Prop)
    (w : World φ) : Prop :=
  TracedAt x.Step m
    (fun a es t => x.Sends w es t ∧ ∃ r, A a r ∧ EndsWith x.frame r es)
    (fun _ es t => x.Sends w es t) w

/-- One attempt at a request, a second one when it may be sent again. -/
theorem attempts_sent (x : Sending φ) {second : Client φ ClientResponse}
    {closing connect : Client φ Unit} {isErr : Failure φ → Bool} {retrySafe auto : Bool}
    (hfirst : Exchanges x.accepts x.decode x.frame x.attempt)
    (hclosing : Closes x.accepts x.decode closing)
    (hconnect : Calms x.accepts x.decode x.frame connect)
    (hsecond : Exchanges x.accepts x.decode x.frame second)
    (hagain : x.again = (retrySafe && auto)) (hbegin : x.begins w) :
    x.SentBy
      (tryCatch x.attempt fun err =>
        if isErr err then do
          closing
          if retrySafe then
            if auto then do
              connect
              second
            else throw err
          else throw .outcomeUnknown
        else throw err) Eq w := by
  refine TracedAt.tryCatch ((hfirst w).mono ?_ fun _ _ _ _ _ h => h)
    fun err es v hfail hattempt hleft => TracedAt.ite (fun _ => ?_)
      fun _ => tracedAt_throw _ (Or.inl (hleft.once (by simp)))
  · rintro r es t - - ⟨i, rfl⟩
    exact ⟨Or.inl (once_answered x.frame i r), r, rfl, [], i, rfl⟩
  refine TracedAt.bind ((hclosing v).mono (fun _ _ _ _ _ h => h) ?_) fun _ fs u _ hclosed hfs => ?_
  · rintro e fs t - - rfl
    exact Or.inl (hleft.once (by simp))
  have hstill : Once x.frame (es ++ (fs ++ [])) := by
    refine hleft.once ?_
    rcases hfs with rfl | rfl <;> simp [Event.hands, Event.opens]
  refine TracedAt.ite (fun hsafe => TracedAt.ite (fun hauto => ?_)
    fun _ => tracedAt_throw _ (Or.inl hstill)) fun _ => tracedAt_throw _ (Or.inl hstill)
  -- the second attempt, on a connection opened for it
  obtain ⟨tail, rfl, htail⟩ : ∃ tail, fs = .closed :: tail ∧ Calm x.frame tail := by
    rcases hfs with rfl | rfl
    · exact ⟨[], rfl, List.forall_mem_nil _⟩
    · exact ⟨[.streams], rfl, List.forall_mem_singleton.mpr rfl⟩
  have hretried : ∀ {gs hs : List Event} {u' t : World φ}, Calm x.frame gs → x.Went u gs u' →
      hs.countP (Event.hands x.frame) ≤ 1 → x.Went u' hs t →
        x.Sends w (es ++ (.closed :: tail ++ (gs ++ hs))) t := by
    intro gs hs u' t hgs hconnected hhs hsent
    refine Or.inr ⟨by rw [hagain, hsafe, hauto]; rfl, [], es, tail ++ (gs ++ hs), w, v, rfl,
      List.forall_mem_nil _, ⟨hbegin, err, hfail⟩, Path.nil w, hattempt, ?_, hleft.countP_le, ?_⟩
    · exact hclosed.append (hconnected.append hsent)
    · simpa [List.countP_append, htail.countP, hgs.countP] using hhs
  refine TracedAt.bind ((hconnect u).mono (fun _ _ _ _ _ h => h) fun e gs t _ hpath hgs => ?_)
    fun _ gs u' _ hconnected hgs => (hsecond u').mono ?_ fun e hs t _ hpath hhs =>
      hretried hgs hconnected hhs.countP_le hpath
  · have hnone : ([] : List Event).countP (Event.hands x.frame) ≤ 1 := by simp
    simpa using hretried hgs hpath hnone (Path.nil t)
  · rintro r hs t - hpath ⟨i, rfl⟩
    exact ⟨hretried hgs hconnected (once_answered x.frame i r).once hpath, r, rfl,
      es ++ (.closed :: tail ++ gs), i, by simp⟩

/-- What precedes the sending of a request. -/
theorem Calms.then_sent {pre : Client φ α} {rest : α → Client φ β}
    {A : β → ClientResponse → Prop} (hpre : Calms x.accepts x.decode x.frame pre)
    (hrest : ∀ a u, pre w = .ok a u → x.SentBy (rest a) A u) :
    x.SentBy (pre >>= rest) A w := by
  refine TracedAt.bind ((hpre w).mono (fun _ _ _ _ _ h => h)
    fun _ _ _ _ _ h => Or.inl (Calm.once h)) fun a es u hm hwent hes =>
      (hrest a u hm).mono ?_ fun _ _ _ _ _ h => h.append hwent hes
  rintro b fs t - - ⟨hsends, r, hr, hends⟩
  exact ⟨hsends.append hwent hes, r, hr, hends.append es⟩

/-- Reading the result off the response. -/
theorem request_sent {send : Client φ ClientResponse}
    (accept : ClientResponse → Except (Failure φ) Result) (h : x.SentBy send Eq w) :
    x.SentBy (request send accept) (fun res r => accept r = .ok res) w := by
  refine TracedAt.bind h fun r es t _ _ hes => ?_
  obtain ⟨hsends, r, rfl, hends⟩ := hes
  unfold ofExcept
  cases hr : accept r with
  | ok res => exact tracedAt_pure res ⟨by simpa using hsends, r, hr, by simpa using hends⟩
  | error e => exact tracedAt_throw e (by simpa using hsends)

/-- Renaming a failure is no event. -/
theorem mapFailure_sent {m : Client φ α} {A : α → ClientResponse → Prop}
    (f : Failure φ → Failure φ) (h : x.SentBy m A w) : x.SentBy (mapFailure f m) A w :=
  h.tryCatch fun _ es t _ _ hes => tracedAt_throw _ (by simpa using hes)

end Attempts

end LockStep

end DittoClient
