import DittoClient.LockStep.Call

/-!
# Specifications shared by the lock-step clients

The state between two calls is described by what is true of the connection that is held.
`World.Rested` says that it is settled, and drained as long as nothing is pushed; the
specifications here say how opening, releasing and using the connection treat it. The
clients differ only in how they put these parts together.
-/

namespace DittoClient

namespace LockStep

open DittoClient.Protobuf
open DittoClient.Wire
open DittoClient.Program

variable {φ : Type}

namespace World

/-- The connection that is held, if there is one, is at rest. -/
def Rested (noPush : Prop) (w : World φ) : Prop :=
  ∀ i, w.held = some i → (w.conns i).Rested noPush

/-- A connection is held. -/
def Connected (w : World φ) : Prop :=
  w.held.isSome = true

/-- The last frame written on the connection that is held was `frame`, and the answer to
it decodes to `r`. -/
def Answered (decode : Decoder) (frame : Request) (r : ClientResponse) (w : World φ) :
    Prop :=
  ∃ i, w.held = some i ∧ (w.conns i).Answers decode frame r

theorem rested_of_none {noPush : Prop} {w : World φ} (h : w.held = none) :
    w.Rested noPush := by
  intro i hi
  rw [h] at hi
  cases hi

theorem Rested.mono {p q : Prop} {w : World φ} (h : w.Rested p) (hpq : q → p) :
    w.Rested q :=
  fun i hi => ⟨(h i hi).1, fun hq => (h i hi).2 (hpq hq)⟩

theorem rested_init {noPush : Prop} : (init : World φ).Rested noPush :=
  rested_of_none rfl

end World

section

variable {P : World φ → Prop}

theorem connected_ensures (P : World φ → Prop) (E : Failure φ → World φ → Prop) :
    Ensures P connected (fun b w => P w ∧ (b = true ↔ w.Connected)) E :=
  fun _ hw => ⟨hw, Iff.rfl⟩

/-- A pure computation leaves the state alone. -/
theorem ofExcept_ensures {α : Type} (x : Except (Failure φ) α) :
    Ensures P (ofExcept x) (fun a w => P w ∧ x = .ok a) (fun e w => P w ∧ x = .error e) := by
  intro w hw
  cases x with
  | ok a => exact ⟨hw, rfl⟩
  | error e => exact ⟨hw, rfl⟩

theorem meet_ensures (f : Option φ) :
    Ensures P (meet f) (fun _ w => P w ∧ f = none) (fun _ w => P w ∧ f.isSome = true) := by
  intro w hw
  cases f with
  | none => exact ⟨hw, rfl⟩
  | some f => exact ⟨hw, rfl⟩

/-- After a release no connection is held. -/
theorem release_ensures (P : World φ → Prop) (E : Failure φ → World φ → Prop) :
    Ensures P release (fun _ t => t.held = none) E := by
  intro w _
  cases h : w.held with
  | none => simp only [release, h]
  | some i => simp only [release, h]

/-- A connection that was opened and stored is at rest. -/
theorem dial_hold_ensures (d : Dial φ) :
    Ensures P (dial d >>= hold)
      (fun _ t => d.isOk = true ∧ t.Connected ∧ t.Rested True)
      (fun _ t => d.isOk = false ∧ P t) := by
  intro w hw
  cases d with
  | failed f => exact ⟨rfl, hw⟩
  | ok =>
      refine ⟨rfl, rfl, ?_⟩
      rintro i ⟨⟩
      change Connection.Rested True ((w.update w.next fun _ => Connection.fresh).conns w.next)
      rw [World.update_conns_self]
      exact ⟨Connection.settled_fresh, fun _ => rfl⟩

/-- What a program leaves behind it also leaves behind when its response is read. -/
theorem request_ensures {send : Client φ ClientResponse} {A : ClientResponse → World φ → Prop}
    {Q : World φ → Prop} (accept : ClientResponse → Except (Failure φ) Result)
    (h : Ensures P send (fun r t => A r t ∧ Q t) (fun _ t => Q t)) :
    Ensures P (request send accept)
      (fun res t => (∃ r, A r t ∧ accept r = .ok res) ∧ Q t) (fun _ t => Q t) := by
  refine h.bind fun r => (ofExcept_ensures (accept r)).weaken_post ?_ ?_
  · rintro res t ⟨⟨ha, hq⟩, hr⟩
    exact ⟨⟨r, ha, hr⟩, hq⟩
  · rintro e t ⟨⟨-, hq⟩, -⟩
    exact hq

/-- Renaming a failure does not change what is left behind. -/
theorem mapFailure_ensures {α : Type} {m : Client φ α} {Q : α → World φ → Prop}
    {R : World φ → Prop} (f : Failure φ → Failure φ) (h : Ensures P m Q fun _ => R) :
    Ensures P (mapFailure f m) Q fun _ => R :=
  h.tryCatch fun _ => ensures_throw _ fun _ hr => hr

/-- Arguments that are refused leave the state alone. -/
theorem check_ensures (cfg : Config φ) (req : Request) :
    Ensures P (cfg.check req) (fun _ w => cfg.validate req = .ok () ∧ P w)
      (fun e w => (∃ message, e = .invalid message) ∧ P w) := by
  refine (ofExcept_ensures _).weaken_post ?_ ?_
  · rintro u w ⟨hw, hok⟩
    cases h : cfg.validate req with
    | ok v => exact ⟨rfl, hw⟩
    | error e =>
        rw [h] at hok
        cases hok
  · rintro e w ⟨hw, herr⟩
    cases h : cfg.validate req with
    | ok v =>
        rw [h] at herr
        cases herr
    | error m =>
        rw [h] at herr
        cases herr
        exact ⟨⟨m, rfl⟩, hw⟩

end

/-- An exchange on a connection at rest. -/
theorem exchange_rested (accepts : ℕ → Bool) (decode : Decoder) (x : Exchange φ)
    (req : Request) (hq : Quiet x.acts) :
    Ensures (fun w => w.Connected ∧ w.Rested True) (exchange accepts decode x req)
      (fun r t => x.outcome accepts decode = some (.ok r) ∧ t.Connected ∧
        t.Answered decode req r ∧ t.Rested (NoPush x.acts))
      (fun e t => t.Connected ∧
        ((∃ d, e = .decode d ∧ x.outcome accepts decode = some (.error d) ∧
            t.Rested (NoPush x.acts)) ∨
          (e.isIo = true ∧ x.outcome accepts decode = none ∧
            (∀ f, e = .fault f → x.Meets f) ∧
              (x.refused = true → t.Rested (NoPush x.acts))))) := by
  rintro w ⟨hconn, hrest⟩
  obtain ⟨i, hi⟩ := Option.isSome_iff_exists.mp hconn
  obtain ⟨hs, hin⟩ := hrest i hi
  have hheld : ∀ {t : World φ} {p : Prop}, t.held = some i → (t.conns i).Rested p →
      t.Rested p := by
    rintro t p ht h j hj
    rw [ht] at hj
    cases hj
    exact h
  refine ((exchange_ensures accepts decode hi hs (hin trivial) x req hq).weaken_post
    ?_ ?_) w rfl
  · rintro r t ⟨ht, hout, hans, hr⟩
    exact ⟨hout, by rw [World.Connected, ht]; rfl, ⟨i, ht, hans⟩, hheld ht hr⟩
  · rintro e t ⟨ht, h⟩
    refine ⟨by rw [World.Connected, ht]; rfl, ?_⟩
    rcases h with ⟨d, he, hout, hr⟩ | ⟨hio, hout, hf, hr⟩
    · exact Or.inl ⟨d, he, hout, hheld ht hr⟩
    · exact Or.inr ⟨hio, hout, hf, fun h => hheld ht (hr h)⟩

/-- Whether an exchange leaves nothing half-done: it runs to its end, or does not begin. -/
def Exchange.Settles (accepts : ℕ → Bool) (decode : Decoder) (x : Exchange φ) : Prop :=
  (x.outcome accepts decode).isSome = true ∨ x.refused = true

/-- Whether an exchange fails with an error that can be caught: it breaks off, or its
response is malformed. -/
def Exchange.Fails (accepts : ℕ → Bool) (decode : Decoder) (x : Exchange φ) : Prop :=
  x.outcome accepts decode = none ∨
    ∃ message, x.outcome accepts decode = some (.error (.malformed message))

/-- Whether an attempt to connect leaves no exchange half-done: the Auth exchange, if
there is one, runs to its end or does not begin. -/
def Attempt.Settles (token : Option String) (accepts : ℕ → Bool) (decode : Decoder)
    (a : Attempt φ) : Prop :=
  a.dial.isOk = true → token.isSome = true → a.auth.Settles accepts decode

/-- Whether an attempt to connect succeeds: the connection is opened, and the server
answers AuthOk if there is a token. -/
def Attempt.Opens (token : Option String) (accepts : ℕ → Bool) (decode : Decoder)
    (a : Attempt φ) : Prop :=
  a.dial.isOk = true ∧
    (token.isSome = true → a.auth.outcome accepts decode = some (.ok .authOk))

/-- A connection is held when a request is sent: there was one, or it is opened first. -/
def CallEnv.Reaches (token : Option String) (accepts : ℕ → Bool) (decode : Decoder)
    (env : CallEnv φ) (w : World φ) : Prop :=
  w.Connected ∨ (w.held = none ∧ env.connect.Opens token accepts decode)

/-- The second attempt at a request leaves nothing half-done, if the connection for it is
opened. -/
def CallEnv.RetrySettles (token : Option String) (accepts : ℕ → Bool) (decode : Decoder)
    (env : CallEnv φ) : Prop :=
  env.reconnect.Opens token accepts decode → env.retry.Settles accepts decode

/-- The second attempt at a request, when it settles. -/
theorem retry_rested (accepts : ℕ → Bool) (decode : Decoder) (x : Exchange φ) (req : Request)
    {np : Prop} (hnp : np → LockStep.NoPush x.acts) (hq : Quiet x.acts)
    (hs : x.Settles accepts decode) :
    Ensures (fun w => w.Connected ∧ w.Rested True) (exchange accepts decode x req)
      (fun r t => t.Answered decode req r ∧ t.Rested np) (fun _ t => t.Rested np) := by
  refine (exchange_rested accepts decode x req hq).weaken_post ?_ ?_
  · rintro r t ⟨-, -, hans, hr⟩
    exact ⟨hans, hr.mono hnp⟩
  · rintro e t ⟨-, ⟨d, -, -, hr⟩ | ⟨-, hnone, -, hr⟩⟩
    · exact hr.mono hnp
    · rcases hs with h | h
      · rw [hnone] at h
        cases h
      · exact (hr h).mono hnp

/-- The Auth exchange of the clients that leave the connection stored when it breaks off.
The connection is closed by `closing` when the answer is not AuthOk. -/
theorem authenticate_rested (accepts : ℕ → Bool) (decode : Decoder) (x : Exchange φ)
    (token : String) (closing : Client φ Unit) (np : Prop) (hx : LockStep.NoPush x.acts)
    (hs : x.Settles accepts decode)
    (hclose : Ensures (fun w => w.Connected ∧ w.Rested np) closing (fun _ t => t.Rested np)
      (fun _ t => t.Rested np)) :
    Ensures (fun w => w.Connected ∧ w.Rested True)
      (do
        let resp ← exchange accepts decode x (.auth token)
        if resp = .authOk then pure ()
        else do
          closing
          throw (authFailure resp))
      (fun _ t => x.outcome accepts decode = some (.ok .authOk) ∧ t.Connected ∧ t.Rested np)
      (fun _ t => t.Rested np) := by
  refine Ensures.bind ((exchange_rested accepts decode x (.auth token)
    fun f hf => hx f (List.mem_of_mem_head? hf)).weaken_post (fun _ _ h => h) ?_) fun resp => ?_
  · rintro e t ⟨-, ⟨d, -, -, hr⟩ | ⟨-, hout, -, hr⟩⟩
    · exact hr.mono fun _ => hx
    · rcases hs with h | h
      · rw [hout] at h
        cases h
      · exact (hr h).mono fun _ => hx
  · refine Ensures.ite (fun hok => ensures_pure _ ?_) fun _ => ?_
    · rintro t ⟨hout, hc, -, hr⟩
      exact ⟨by rw [hout, hok], hc, hr.mono fun _ => hx⟩
    · refine (hclose.strengthen_pre ?_).bind fun _ => ensures_throw _ fun t ht => ht
      rintro t ⟨-, hc, -, hr⟩
      exact ⟨hc, hr.mono fun _ => hx⟩

/-- Nothing is pushed on a connection that was just opened, where nothing is watched: not
during an Auth exchange, and not ahead of the answer to the second attempt. -/
structure CallEnv.Orderly (env : CallEnv φ) : Prop where
  connect : NoPush env.connect.auth.acts
  reconnect : NoPush env.reconnect.auth.acts
  retry : Quiet env.retry.acts

/-- Nothing is pushed during the exchanges of a request. -/
def CallEnv.NoPush (env : CallEnv φ) : Prop :=
  LockStep.NoPush env.first.acts ∧ LockStep.NoPush env.retry.acts

/-- A wait that has begun to read a frame reads it to its end. -/
def WaitDelivers (accepts : ℕ → Bool) (a : Arrival φ) (w : World φ) : Prop :=
  ∀ i, w.held = some i → ∀ p rest,
    ((a.apply i w).conns i).inbound = Octets.frame p ++ rest →
      delivers accepts a.recvs p.bytes.length = true

/-- What a call returns was computed from a response of which `A` holds. -/
def Computed (ping : ClientResponse → Except (Failure φ) Result) (c : Call)
    (A : ClientResponse → World φ → Prop) (res : Result) (w : World φ) : Prop :=
  ∃ r, A r w ∧ c.accept ping r = .ok res

/-- What a call returns was computed from the answer to its own request. -/
def OwnAnswer (cfg : Config φ) (ping : ClientResponse → Except (Failure φ) Result)
    (c : Call) (res : Result) (w : World φ) : Prop :=
  ∀ frame, c.request? = some frame → Computed ping c (World.Answered cfg.decode frame) res w

theorem ownAnswer_of_request {cfg : Config φ}
    {ping : ClientResponse → Except (Failure φ) Result} {c : Call} {frame : Request}
    (hc : c.request? = some frame) {res : Result} {w : World φ}
    (h : Computed ping c (World.Answered cfg.decode frame) res w) :
    OwnAnswer cfg ping c res w := by
  intro frame' h'
  rw [hc] at h'
  cases h'
  exact h

/-- A wait leaves the connection settled if it reads frames to their end. -/
theorem awaitFrame_settled (accepts : ℕ → Bool) (decode : Decoder) (a : Arrival φ) :
    Ensures (fun w => w.Connected ∧ w.Rested False ∧ WaitDelivers accepts a w)
      (awaitFrame accepts decode a) (fun _ t => t.Rested False) (fun _ t => t.Rested False) := by
  rintro w ⟨hconn, hrest, hdel⟩
  obtain ⟨i, hi⟩ := Option.isSome_iff_exists.mp hconn
  have hheld : ∀ {t : World φ}, t.held = some i → (t.conns i).Settled → t.Rested False := by
    rintro t ht h j hj
    rw [ht] at hj
    cases hj
    exact ⟨h, False.elim⟩
  refine ((awaitFrame_ensures accepts decode hi (hrest i hi).1 a (hdel i hi)).weaken_post
    ?_ ?_) w rfl
  · rintro r t ⟨ht, hs, -⟩
    exact hheld ht hs
  · rintro e t ⟨ht, hs, -⟩
    exact hheld ht hs

/-- With nothing inbound and nothing pushed, a wait fails and leaves the connection at
rest. -/
theorem awaitFrame_rested (accepts : ℕ → Bool) (decode : Decoder) {a : Arrival φ}
    (ha : NoPush a.acts) :
    Ensures (fun w => w.Connected ∧ w.Rested True) (awaitFrame accepts decode a)
      (fun _ _ => False) (fun _ t => t.Rested True) := by
  rintro w ⟨hconn, hrest⟩
  obtain ⟨i, hi⟩ := Option.isSome_iff_exists.mp hconn
  obtain ⟨hs, hin⟩ := hrest i hi
  have hnil : ((a.apply i w).conns i).inbound = [] := by
    obtain ⟨ps, hps, hfold⟩ := hs.foldl_serve a.acts
    have hempty : ps = [] := by
      refine List.eq_nil_iff_forall_not_mem.mpr fun f hf => ?_
      have hsome := ha f (hps f hf).1
      rw [(hps f hf).2] at hsome
      cases hsome
    rw [Arrival.apply_conns_self, hfold, hempty, List.append_nil]
    exact hin trivial
  have hdel : ∀ p rest, ((a.apply i w).conns i).inbound = Octets.frame p ++ rest →
      delivers accepts a.recvs p.bytes.length = true := by
    intro p rest h
    rw [hnil] at h
    have hlen := congrArg List.length h
    simp at hlen
    omega
  refine ((awaitFrame_ensures accepts decode hi hs a hdel).weaken_post ?_ ?_) w rfl
  · rintro r t ⟨-, -, hne, -⟩
    exact hne hnil
  · rintro e t ⟨ht, hs', hin'⟩ j hj
    rw [ht] at hj
    cases hj
    exact ⟨hs', fun _ => hin' hnil⟩

end LockStep

end DittoClient
