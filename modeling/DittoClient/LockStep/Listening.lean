import DittoClient.LockStep.Hearing
import DittoClient.LockStep.Linearizable

/-!
# The watch events that a lock-step client returns

While no pushed frame lies ahead of an answer and the client drops the connection of an exchange
that breaks off, the events that a client returns on a connection are those that were pushed on it,
in this order, up to what is still unread: none is lost, none comes twice and none is made up
(`events_returned`).
-/

namespace DittoClient

namespace LockStep

open DittoClient.Octets
open DittoClient.Protobuf
open DittoClient.Wire
open DittoClient.Program
open DittoClient.Transition

variable {φ : Type}

/-- What a call that returns has read: a wait the pushed frame with its event, and any other call
none. -/
def World.Listens (decode : Decoder) (heard : ℕ → ℕ) (c : Call) (res : Result) (t : World φ) :
    Prop :=
  if c = .waitWatchEvent then t.Hears decode heard (some res) else t.Heard heard

/-- A call reads no other pushed frame than the one that it waits for. -/
def Listening (C : World φ → Call × CallEnv φ → Prop) (decode : Decoder)
    (call : CallEnv φ → Call → Client φ Result) (I : World φ → Prop) : Prop :=
  ∀ (c : Call) (env : CallEnv φ) (heard : ℕ → ℕ),
    Ensures (fun w => I w ∧ C w (c, env) ∧ w.Heard heard) (call env c)
      (fun res t => t.Listens decode heard c res)
      (fun _ t => t.Heard heard ∨ t.Hears decode heard none)

section Calls

variable {heard : ℕ → ℕ} {c : Call} {decode : Decoder} {m : Client φ Result} {P : World φ → Prop}

/-- A call that waits for nothing. -/
theorem listens_of_heard (hc : c ≠ .waitWatchEvent)
    (h : Ensures P m (fun _ t => t.Heard heard) (fun _ t => t.Heard heard)) :
    Ensures P m (fun res t => t.Listens decode heard c res)
      (fun _ t => t.Heard heard ∨ t.Hears decode heard none) := by
  refine h.weaken_post (fun res t ht => ?_) fun _ _ ht => Or.inl ht
  rw [World.Listens, if_neg hc]
  exact ht

/-- A call that sends a request waits for nothing. -/
theorem ne_wait_of_request {frame : Request} (hc : c.request? = some frame) :
    c ≠ .waitWatchEvent := by
  rintro rfl
  cases hc

/-- A wait. -/
theorem listens_of_hears
    (h : Ensures P m (fun res t => t.Hears decode heard (some res))
      (fun _ t => t.Heard heard ∨ t.Hears decode heard none)) :
    Ensures P m (fun res t => t.Listens decode heard .waitWatchEvent res)
      (fun _ t => t.Heard heard ∨ t.Hears decode heard none) := by
  refine h.weaken_post (fun res t ht => ?_) fun _ _ ht => ht
  rw [World.Listens, if_pos rfl]
  exact ht

end Calls

namespace Python

variable {heard : ℕ → ℕ}

theorem closeLocked_heard (shutdown : Option φ) :
    Ensures (World.Heard heard) (closeLocked shutdown) (fun _ t => t.Heard heard)
      (fun _ t => t.Heard heard) :=
  (connected_ensures _ _).bind fun _ => Ensures.ite
    (fun _ => ((meet_heard shutdown).strengthen_pre fun _ h => h.1).bind fun _ =>
      ((release_heard _).mono (fun _ h => h.toCounting) (fun _ _ h => h.2) fun _ _ h => h))
      fun _ => ensures_pure _ fun _ h => h.1

/-- Closing forgets the connection, or raises and keeps it. -/
theorem closeLocked_drops (shutdown : Option φ) :
    Ensures (fun w => w.Connected ∧ w.Counting heard ∧ (shutdown.isSome = true → w.Heard heard))
      (closeLocked shutdown) (fun _ t => shutdown = none ∧ t.held = none ∧ t.Heard heard)
      (fun _ t => t.Heard heard) := by
  refine (connected_ensures _ _).bind fun b => Ensures.ite (fun _ => ?_) fun hb => ?_
  · refine Ensures.bind ((meet_ensures shutdown).weaken_post (fun _ _ h => h)
      fun _ _ h => h.1.1.2.2 h.2) fun _ => ?_
    rintro t ⟨⟨⟨-, hcounting, -⟩, -⟩, hnone⟩
    exact ((release_heard _).weaken_post (fun _ _ h => ⟨hnone, h⟩) fun _ _ h => h) t hcounting
  · exact ensures_pure _ fun w hw => absurd (hw.2.mpr hw.1.1) hb

theorem connectLocked_heard (cfg : Config φ) {a : Attempt φ} (ha : NoPush a.auth.acts)
    (hs : a.Settles cfg.authToken cfg.accepts cfg.decode) :
    Ensures (World.Heard heard) (connectLocked cfg a) (fun _ t => t.Heard heard)
      (fun _ t => t.Heard heard) := by
  refine (connected_ensures _ _).bind fun b => Ensures.ite
    (fun _ => ensures_pure _ fun _ h => h.1) fun _ => ?_
  refine ((dial_hold_heard a.dial).strengthen_pre fun _ h => h.1).bind fun _ =>
    Ensures.of_fact fun hdial => ?_
  cases htoken : cfg.authToken with
  | none => exact ensures_pure _ fun _ h => h.2.2
  | some token =>
      exact authenticate_heard cfg.accepts cfg.decode a.auth token ha
        (hs hdial (by rw [htoken]; rfl)) (closeLocked_heard a.shutdown)

theorem send_heard (cfg : Config φ) (env : CallEnv φ) (frame : Request) (retrySafe : Bool)
    (henv : env.Orderly) (hq : Quiet env.first.acts) (hs : SendSettles cfg env retrySafe) :
    Ensures (fun w => w.Rested True ∧ w.Heard heard) (send cfg env frame retrySafe)
      (fun _ t => t.Heard heard) (fun _ t => t.Heard heard) := by
  refine (connected_ensures _ _).bind fun b => Ensures.ite (fun hb => ?_)
    fun _ => ensures_throw _ fun _ h => h.1.2
  refine Ensures.tryCatch ((exchange_fails cfg.accepts cfg.decode env.first frame
    hq).strengthen_pre fun w hw => ⟨hw.2.mp hb, hw.1⟩) fun first => Ensures.ite (fun hio => ?_)
      fun hio => ensures_throw _ ?_
  · -- the first exchange broke off
    by_cases hout : env.first.outcome cfg.accepts cfg.decode = none
    · obtain ⟨hshut, hretry⟩ := hs hout
      refine ((closeLocked_drops env.shutdown).strengthen_pre ?_).bind fun _ =>
        Ensures.of_fact fun hnone => Ensures.ite (fun hsafe => Ensures.ite (fun hauto => ?_)
          fun _ => ensures_throw _ fun _ h => h.2) fun _ => ensures_throw _ fun _ h => h.2
      · rintro t ⟨hc, hcounting, ⟨d, rfl, -⟩ | ⟨-, -, -, hrefused⟩⟩
        · cases hio
        · exact ⟨hc, hcounting, fun hsome => hrefused (hshut hsome)⟩
      · obtain ⟨hattempt, hagain⟩ := hretry (by rw [hnone]; rfl) hsafe hauto
        refine (((connectLocked_rested cfg env.reconnect false True henv.reconnect
          fun _ => hattempt).and (connectLocked_heard cfg henv.reconnect hattempt)).mono ?_
            (fun _ _ h => ⟨h.1.1 rfl, h.1.2.1, h.1.2.2, h.2⟩) fun _ _ h => h.2).bind fun _ =>
              Ensures.of_fact fun hopens => exchange_settles_heard cfg.accepts cfg.decode
                env.retry frame henv.retry (hagain hopens)
        exact fun t ht => ⟨⟨by rw [ht.1]; rfl, World.rested_of_none ht.1⟩, ht.2⟩
    · rintro t ⟨-, -, ⟨d, rfl, -⟩ | ⟨-, hnone, -⟩⟩
      · cases hio
      · exact absurd hnone hout
  · rintro t ⟨-, -, ⟨d, -, -, ht⟩ | ⟨hyes, -⟩⟩
    · exact ht
    · exact absurd hyes hio

theorem call_listening (cfg : Config φ) :
    Listening (Recovers cfg) cfg.decode (call cfg) (World.Rested False) := by
  rintro c env heard w ⟨hr, hw, hheard⟩
  cases hc : c.request? with
  | some frame =>
      have hsome : c.request?.isSome = true := by
        rw [hc]
        rfl
      have hcall : Ensures (fun w => w.Rested True ∧ w.Heard heard) (call cfg env c)
          (fun _ t => t.Heard heard) (fun _ t => t.Heard heard) :=
        (call_ensures_of_request cfg env hc (A := fun _ _ => True) (fun _ h => h.2) fun _ =>
          (send_heard cfg env frame c.retrySafe hw.orderly (hw.ahead hsome).1
            (hw.sends hsome)).weaken_post (fun _ _ h => ⟨trivial, h⟩)
              fun _ _ h => h).weaken_post (fun _ _ h => h.2) fun _ _ h => h
      exact listens_of_heard (ne_wait_of_request hc) hcall w ⟨hr.drained hw.ahead hc, hheard⟩
  | none =>
      cases c with
      | connect =>
          refine listens_of_heard (c := .connect) (fun h => by cases h) ?_ w hheard
          exact (connectLocked_heard cfg hw.orderly.connect hw.connects).bind
            fun _ => ensures_pure _ fun _ h => h
      | close =>
          refine listens_of_heard (c := .close) (fun h => by cases h) ?_ w hheard
          exact (closeLocked_heard env.shutdown).bind fun _ => ensures_pure _ fun _ h => h
      | waitWatchEvent =>
          have hwait : Ensures (fun w => w.Rested False ∧ w.Heard heard ∧
              WaitDelivers cfg.accepts env.first.toArrival w) (waitWatchEvent cfg env)
              (fun res t => t.Hears cfg.decode heard (some res))
              (fun _ t => t.Heard heard ∨ t.Hears cfg.decode heard none) := by
            refine (connected_ensures _ _).bind fun b => Ensures.ite (fun hb => ?_)
              fun _ => ensures_throw _ fun _ h => Or.inl h.1.2.1
            exact (awaitFrame_hears cfg.accepts cfg.decode env.first.toArrival).strengthen_pre
              fun w hw => ⟨hw.2.mp hb, hw.1⟩
          exact listens_of_hears hwait w ⟨hr, hheard, (hw.waits rfl).1⟩
      | _ => cases hc

end Python

namespace Go

variable {heard : ℕ → ℕ}

theorem connectLocked_heard (cfg : Config φ) {a : Attempt φ} (ha : NoPush a.auth.acts) :
    Ensures (World.Heard heard) (connectLocked cfg a) (fun _ t => t.Heard heard)
      (fun _ t => t.Heard heard) := by
  refine (dial_hold_heard a.dial).bind fun _ => Ensures.of_fact fun hdial => ?_
  cases htoken : authToken cfg with
  | none => exact ensures_pure _ fun _ h => h.2.2
  | some token =>
      refine Ensures.bind (R := fun _ t => t.Heard heard) ?_ fun resp => Ensures.ite
        (fun _ => ensures_pure _ fun _ h => h) fun _ =>
          ((release_heard _).strengthen_pre fun _ h => h.toCounting).bind
            fun _ => ensures_throw _ fun _ h => h.2
      refine Ensures.tryCatch (exchange_fails cfg.accepts cfg.decode a.auth (.auth token)
        fun f hf => ha f (List.mem_of_mem_head? hf)) fun err => Ensures.ite (fun _ => ?_)
          fun herr => ensures_throw _ ?_
      · exact ((release_heard _).strengthen_pre fun _ h => h.2.1).bind fun _ =>
          ensures_throw _ fun _ h => h.2
      · rintro t ⟨-, -, ⟨d, -, -, ht⟩ | ⟨hio, -⟩⟩
        · exact ht
        · exact absurd (isErr_of_isIo hio) herr

theorem ensureConnectedLocked_heard (cfg : Config φ) {a : Attempt φ} (ha : NoPush a.auth.acts)
    {w : World φ} (hw : w.Heard heard) :
    Ensures (· = w) (ensureConnectedLocked cfg a)
      (fun _ t => w.Reached t ∧ t.Heard heard ∧
        (w.held = none → a.Opens (authToken cfg) cfg.accepts cfg.decode))
      (fun _ t => t.Heard heard) := by
  refine (connected_ensures _ _).bind fun b => Ensures.ite (fun hb => ?_) fun hb => ?_
  · rintro t ⟨rfl, hconn⟩
    have hc := hconn.mp hb
    refine ⟨⟨hc, Or.inl rfl⟩, hw, fun hnone => ?_⟩
    rw [World.Connected, hnone] at hc
    cases hc
  · rintro t ⟨rfl, hconn⟩
    have hnone : t.held = none := by
      have hnot : ¬ t.Connected := fun h => hb (hconn.mpr h)
      simpa [World.Connected] using hnot
    refine (((connectLocked_rested cfg a True ha).and (connectLocked_heard cfg ha)).weaken_post
      ?_ fun _ _ h => h.2) t ⟨World.rested_of_none hnone, hw⟩
    rintro - u ⟨⟨hopens, hc, hr⟩, hu⟩
    exact ⟨⟨hc, Or.inr ⟨hnone, hr⟩⟩, hu, fun _ => hopens⟩

theorem sendRequestLocked_heard (cfg : Config φ) (env : CallEnv φ) (frame : Request)
    (retrySafe : Bool) (henv : env.Orderly) (hq : Quiet env.first.acts)
    (hs : SendSettles cfg env retrySafe) :
    Ensures (fun w => w.Connected ∧ w.Rested True ∧ w.Heard heard)
      (sendRequestLocked cfg env frame retrySafe) (fun _ t => t.Heard heard)
      (fun _ t => t.Heard heard) := by
  refine Ensures.tryCatch (exchange_fails cfg.accepts cfg.decode env.first frame hq) fun err =>
    Ensures.ite (fun herr => ?_) fun herr => ensures_throw _ ?_
  · -- an error value: the connection is dropped
    by_cases hfail : env.first.Fails cfg.accepts cfg.decode
    · refine ((release_heard _).strengthen_pre fun _ h => h.2.1).bind fun _ => Ensures.ite
        (fun hsafe => Ensures.ite (fun hauto => ?_) fun _ => ensures_throw _ fun _ h => h.2)
          fun _ => ensures_throw _ fun _ h => h.2
      rintro u ⟨hnone, hu⟩
      refine Ensures.bind (ensureConnectedLocked_heard cfg henv.reconnect hu) (fun _ => ?_) u rfl
      rintro t ⟨hreached, ht, hopens⟩
      exact exchange_settles_heard cfg.accepts cfg.decode env.retry frame henv.retry
        (hs hfail hsafe hauto (hopens hnone)) t
          ⟨hreached.connected, hreached.rested (World.rested_of_none hnone), ht⟩
    · rintro t ⟨-, -, ⟨d, rfl, hd, -⟩ | ⟨-, hnone, -⟩⟩
      · exact absurd (fails_of_isErr hd herr) hfail
      · exact absurd (Or.inl hnone) hfail
  · rintro t ⟨-, -, ⟨d, -, -, ht⟩ | ⟨hio, -⟩⟩
    · exact ht
    · exact absurd (isErr_of_isIo hio) herr

theorem call_listening (cfg : Config φ) :
    Listening (Recovers cfg) cfg.decode (call cfg) (World.Rested False) := by
  rintro c env heard w ⟨hr, hw, hheard⟩
  have hconnect := ensureConnectedLocked_heard cfg hw.orderly.connect hheard
  cases hc : c.request? with
  | some frame =>
      have hsome : c.request?.isSome = true := by
        rw [hc]
        rfl
      have hrest : w.Rested True := hr.drained hw.ahead hc
      have hsend : Ensures (fun w => w.Connected ∧ w.Rested True ∧ w.Heard heard)
          (sendRequestLocked cfg env frame c.retrySafe) (fun _ t => t.Heard heard)
          (fun _ t => t.Heard heard) :=
        sendRequestLocked_heard cfg env frame c.retrySafe hw.orderly (hw.ahead hsome).1
          (hw.sends hsome)
      have hcall : Ensures (· = w) (call cfg env c) (fun _ t => t.Heard heard)
          (fun _ t => t.Heard heard) := by
        refine (call_ensures_of_request cfg env hc (A := fun _ _ => True) (fun _ h => h.2.2)
          (hconnect.weaken_post ?_ fun _ _ h => h) fun _ => hsend.weaken_post
            (fun _ _ h => ⟨trivial, h⟩) fun _ _ h => h).weaken_post (fun _ _ h => h.2)
              fun _ _ h => h
        exact fun _ t h => ⟨h.1.connected, h.1.rested hrest, h.2.1⟩
      exact listens_of_heard (ne_wait_of_request hc) hcall w rfl
  | none =>
      cases c with
      | connect =>
          refine listens_of_heard (c := .connect) (fun h => by cases h) ?_ w hheard
          exact (connectLocked_heard cfg hw.orderly.connect).bind
            fun _ => ensures_pure _ fun _ h => h
      | close =>
          refine listens_of_heard (c := .close) (fun h => by cases h) ?_ w hheard
          refine (connected_ensures _ _).bind fun b => Ensures.ite (fun _ => ?_)
            fun _ => ensures_pure _ fun _ h => h.1
          exact ((release_heard _).strengthen_pre fun _ h => h.1.toCounting).bind fun _ =>
            ((meet_heard env.shutdown).strengthen_pre fun _ h => h.2).bind
              fun _ => ensures_pure _ fun _ h => h
      | waitWatchEvent =>
          refine listens_of_hears (Ensures.bind (hconnect.weaken_post (fun _ _ h => h)
            fun _ _ h => Or.inl h) fun _ => (awaitFrame_hears cfg.accepts cfg.decode
              env.first.toArrival).strengthen_pre ?_) w rfl
          rintro t ⟨hreached, ht, -⟩
          obtain ⟨hrest, hdelivers⟩ := hreached.waits hr (hw.waits rfl).1 (hw.waits rfl).2
          exact ⟨hreached.connected, hrest, ht, hdelivers⟩
      | _ => cases hc

end Go

namespace Rust

variable {heard : ℕ → ℕ}

theorem ensureConnectedLocked_heard (cfg : Config (Fault φ)) {a : Attempt (Fault φ)}
    (ha : NoPush a.auth.acts) (hs : a.Settles cfg.authToken cfg.accepts cfg.decode)
    {w : World (Fault φ)} (hw : w.Heard heard) :
    Ensures (· = w) (ensureConnectedLocked cfg a)
      (fun _ t => w.Reached t ∧ t.Heard heard ∧
        (w.held = none → a.Opens cfg.authToken cfg.accepts cfg.decode))
      (fun _ t => t.Heard heard) := by
  refine (connected_ensures _ _).bind fun b => Ensures.ite (fun hb => ?_) fun hb => ?_
  · rintro t ⟨rfl, hconn⟩
    have hc := hconn.mp hb
    refine ⟨⟨hc, Or.inl rfl⟩, hw, fun hnone => ?_⟩
    rw [World.Connected, hnone] at hc
    cases hc
  · rintro t ⟨rfl, hconn⟩
    have hnone : t.held = none := by
      have hnot : ¬ t.Connected := fun h => hb (hconn.mpr h)
      simpa [World.Connected] using hnot
    refine Ensures.bind (dial_hold_heard a.dial) (fun _ => Ensures.of_fact fun hdial => ?_) t hw
    rw [authenticateLocked]
    cases htoken : cfg.authToken with
    | none =>
        exact ensures_pure _ fun u hu =>
          ⟨⟨hu.1, Or.inr ⟨hnone, hu.2.1⟩⟩, hu.2.2, fun _ => ⟨hdial, by simp⟩⟩
    | some token =>
        have hsettles : a.auth.Settles cfg.accepts cfg.decode := hs hdial (by rw [htoken]; rfl)
        refine ((authenticate_rested cfg.accepts cfg.decode a.auth token release True ha hsettles
          ?_).and (authenticate_heard cfg.accepts cfg.decode a.auth token ha hsettles
            ((release_heard _).mono (fun _ h => h.toCounting) (fun _ _ h => h.2)
              fun _ _ h => h))).mono ?_ ?_ fun _ _ h => h.2
        · exact (release_ensures _ _).weaken_post (fun _ _ h => World.rested_of_none h)
            fun _ _ h => h
        · exact fun u hu => ⟨⟨hu.1, hu.2.1⟩, hu⟩
        · exact fun _ u hu => ⟨⟨hu.1.2.1, Or.inr ⟨hnone, hu.1.2.2⟩⟩, hu.2,
            fun _ => ⟨hdial, fun _ => hu.1.1⟩⟩

theorem sendRequest_heard (cfg : Config (Fault φ)) (env : CallEnv (Fault φ)) (frame : Request)
    (retrySafe : Bool) (henv : env.Orderly) (hq : Quiet env.first.acts)
    (hconnects : env.connect.Settles cfg.authToken cfg.accepts cfg.decode)
    (hs : SendSettles cfg env retrySafe) {w : World (Fault φ)} (hr : w.Rested True)
    (hw : w.Heard heard) :
    Ensures (· = w) (sendRequest cfg env frame retrySafe) (fun _ t => t.Heard heard)
      (fun _ t => t.Heard heard) := by
  have hlock : Ensures (· = w) (meet env.lock) (fun _ t => t = w) (fun _ t => t.Heard heard) :=
    (meet_ensures env.lock).weaken_post (fun _ _ h => h.1) fun _ t h => h.1 ▸ hw
  refine hlock.bind fun _ => (ensureConnectedLocked_heard cfg henv.connect hconnects hw).bind
    fun _ => Ensures.tryCatch ((exchange_fails cfg.accepts cfg.decode env.first frame
      hq).strengthen_pre ?_) fun err => Ensures.ite (fun herr => ?_) fun herr =>
        ensures_throw _ ?_
  · exact fun t h => ⟨h.1.connected, h.1.rested hr, h.2.1⟩
  · -- an error value: the stream is dropped
    by_cases hfail : env.first.Fails cfg.accepts cfg.decode
    · refine ((release_heard _).strengthen_pre fun _ h => h.2.1).bind fun _ => Ensures.ite
        (fun hsafe => Ensures.ite (fun hauto => ?_) fun _ => ensures_throw _ fun _ h => h.2)
          fun _ => ensures_throw _ fun _ h => h.2
      obtain ⟨hattempt, hagain⟩ := hs.retried hfail hsafe hauto
      rintro u ⟨hnone, hu⟩
      refine Ensures.bind (ensureConnectedLocked_heard cfg henv.reconnect hattempt hu)
        (fun _ => ?_) u rfl
      rintro t ⟨hreached, ht, hopens⟩
      exact exchange_settles_heard cfg.accepts cfg.decode env.retry frame henv.retry
        (hagain (hopens hnone)) t
          ⟨hreached.connected, hreached.rested (World.rested_of_none hnone), ht⟩
    · rintro t ⟨-, -, ⟨d, rfl, hd, -⟩ | ⟨-, hnone, -⟩⟩
      · exact absurd (fails_of_isErr hd herr) hfail
      · exact absurd (Or.inl hnone) hfail
  · rintro t ⟨-, -, ⟨d, -, -, ht⟩ | ⟨hio, hnone, hmeets, hrefused⟩⟩
    · exact ht
    · have hdropped : err = .fault .dropped := by
        by_contra hne
        exact herr (isErr_of_isIo hio hne)
      rcases hs.kept hnone with h | h
      · exact hrefused h
      · exact absurd (hmeets _ hdropped) h

theorem call_listening (cfg : Config (Fault φ)) :
    Listening (Recovers cfg) cfg.decode (call cfg) (World.Rested False) := by
  rintro c env heard w ⟨hr, hw, hheard⟩
  have hlock : Ensures (· = w) (meet env.lock) (fun _ t => t = w) (fun _ t => t.Heard heard) :=
    (meet_ensures env.lock).weaken_post (fun _ _ h => h.1) fun _ t h => h.1 ▸ hheard
  have hconnect := ensureConnectedLocked_heard cfg hw.orderly.connect hw.connects hheard
  cases hc : c.request? with
  | some frame =>
      have hsome : c.request?.isSome = true := by
        rw [hc]
        rfl
      have hsend := sendRequest_heard cfg env frame c.retrySafe hw.orderly (hw.ahead hsome).1
        hw.connects (hw.sends hsome) (hr.drained hw.ahead hc) hheard
      have hcall : Ensures (· = w) (call cfg env c) (fun _ t => t.Heard heard)
          (fun _ t => t.Heard heard) :=
        (call_ensures_of_request cfg env hc (A := fun _ _ => True) (fun _ h => h ▸ hheard)
          fun _ => hsend.weaken_post (fun _ _ h => ⟨trivial, h⟩) fun _ _ h => h).weaken_post
            (fun _ _ h => h.2) fun _ _ h => h
      exact listens_of_heard (ne_wait_of_request hc) hcall w rfl
  | none =>
      cases c with
      | connect =>
          have hcall : Ensures (· = w) (connect cfg env) (fun _ t => t.Heard heard)
              (fun _ t => t.Heard heard) :=
            hlock.bind fun _ => (hconnect.weaken_post (fun _ _ h => h.2.1) fun _ _ h => h).bind
              fun _ => ensures_pure _ fun _ h => h
          exact listens_of_heard (c := .connect) (fun h => by cases h) hcall w rfl
      | close =>
          refine listens_of_heard (c := .close) (fun h => by cases h) ?_ w hheard
          refine (meet_heard env.lock).bind fun _ => (connected_ensures _ _).bind fun b =>
            Ensures.ite (fun _ => ?_) fun _ => ensures_pure _ fun _ h => h.1
          exact ((release_heard _).strengthen_pre fun _ h => h.1.toCounting).bind fun _ =>
            ((meet_heard env.shutdown).strengthen_pre fun _ h => h.2).bind
              fun _ => ensures_pure _ fun _ h => h
      | waitWatchEvent =>
          refine listens_of_hears ((hlock.weaken_post (fun _ _ h => h) fun _ _ h => Or.inl h).bind
            fun _ => (hconnect.weaken_post (fun _ _ h => h) fun _ _ h => Or.inl h).bind fun _ =>
              (awaitFrame_hears cfg.accepts cfg.decode env.first.toArrival).strengthen_pre ?_) w rfl
          rintro t ⟨hreached, ht, -⟩
          obtain ⟨hrest, hdelivers⟩ := hreached.waits hr (hw.waits rfl).1 (hw.waits rfl).2
          exact ⟨hreached.connected, hrest, ht, hdelivers⟩
      | _ => cases hc

end Rust

namespace Java

variable {heard : ℕ → ℕ}

theorem closeSocketOnly_heard (E : Failure φ → World φ → Prop) :
    Ensures (World.Counting heard) closeSocketOnly
      (fun _ t => (t.held = none ∧ t.input = false ∧ t.output = false) ∧ t.Heard heard) E :=
  (release_heard _).bind fun _ => fun _ h =>
    ⟨⟨h.1, rfl, rfl⟩, ⟨h.2.opened, h.2.unopened⟩, h.2.held⟩

theorem connectSocket_heard (cfg : Config φ) {a : Attempt φ} (ha : NoPush a.auth.acts)
    (hs : a.Settles cfg.authToken (accepts cfg) cfg.decode) :
    Ensures (World.Heard heard) (connectSocket cfg a) (fun _ t => t.Heard heard)
      (fun _ t => t.Heard heard) := by
  refine (connected_ensures _ _).bind fun b => Ensures.ite
    (fun _ => ensures_pure _ fun _ h => h.1) fun _ => ?_
  refine ((dial_hold_heard a.dial).strengthen_pre fun _ h => h.1).bind fun _ =>
    Ensures.of_fact fun hdial => ?_
  -- the streams are obtained one after the other
  refine Ensures.bind ((meet_ensures a.input).weaken_post (fun _ _ h => h.1) fun _ _ h => h.1.2.2)
    fun _ => Ensures.bind (R := fun _ t => t.input = true ∧ t.Connected ∧ t.Rested True ∧
      t.Heard heard) ?_ fun _ => Ensures.bind ((meet_ensures a.output).weaken_post
        (fun _ _ h => h.1) fun _ _ h => h.1.2.2.2) fun _ => Ensures.bind
          (R := fun _ t => Both t ∧ t.Connected ∧ t.Rested True ∧ t.Heard heard) ?_ fun _ => ?_
  · rintro t ⟨hc, hr, ht⟩
    exact ⟨rfl, hc, hr, ⟨ht.opened, ht.unopened⟩, ht.held⟩
  · rintro t ⟨hin, hc, hr, ht⟩
    exact ⟨⟨hin, rfl⟩, hc, hr, ⟨ht.opened, ht.unopened⟩, ht.held⟩
  · cases htoken : cfg.authToken with
    | none => exact ensures_pure _ fun _ h => h.2.2.2
    | some token =>
        have hauth : a.auth.Settles (accepts cfg) cfg.decode := hs hdial (by rw [htoken]; rfl)
        dsimp only
        rw [← bind_assoc]
        refine Ensures.bind ((sendFrame_readResponse_ensures cfg a.auth (.auth token)
          (exchange_settles_heard (accepts cfg) cfg.decode a.auth (.auth token)
            (fun f hf => ha f (List.mem_of_mem_head? hf)) hauth)).weaken_post (fun _ _ h => h.2)
              fun _ _ h => h.2) fun resp => Ensures.ite (fun _ => ensures_pure _ fun _ h => h)
                fun _ => ?_
        exact ((closeSocketOnly_heard _).strengthen_pre fun _ h => h.toCounting).bind fun _ =>
          ensures_throw _ fun _ h => h.2

theorem sendAndRead_heard (cfg : Config φ) (env : CallEnv φ) (data : Request) (retrySafe : Bool)
    (henv : env.Orderly) (hq : Quiet env.first.acts) (hs : SendSettles cfg env retrySafe) :
    Ensures (fun w => w.Rested True ∧ Streams w ∧ w.Heard heard)
      (sendAndRead cfg env data retrySafe) (fun _ t => t.Heard heard)
      (fun _ t => t.Heard heard) := by
  rintro w ⟨hr, hst, hw⟩
  by_cases ho : w.output = true
  · have hboth : Both w := ⟨hst.1 ho, ho⟩
    refine (Ensures.tryCatch ((sendFrame_readResponse_ensures cfg env.first data (exchange_fails
      (accepts cfg) cfg.decode env.first data hq)).weaken_post (fun _ _ h => h.2)
        fun _ _ h => h.2) fun first => Ensures.ite (fun hio => ?_) fun hio =>
          ensures_throw _ ?_) w ⟨hboth, hst.2 hboth.1, hr, hw⟩
    · -- an `IOException`: the socket is closed
      by_cases hfail : env.first.Fails (accepts cfg) cfg.decode
      · refine ((closeSocketOnly_heard _).strengthen_pre fun _ h => h.2.1).bind fun _ =>
          Ensures.ite (fun hsafe => Ensures.ite (fun hauto => ?_)
            fun _ => ensures_throw _ fun _ h => h.2) fun _ => ensures_throw _ fun _ h => h.2
        obtain ⟨hattempt, hagain⟩ := hs hfail hsafe hauto
        have hconnect : Ensures (fun t => (t.held = none ∧ t.input = false ∧ t.output = false) ∧
            t.Heard heard) (connectSocket cfg env.reconnect)
            (fun _ t => env.reconnect.Opens cfg.authToken (accepts cfg) cfg.decode ∧ Both t ∧
              t.Connected ∧ t.Rested True ∧ t.Heard heard) (fun _ t => t.Heard heard) :=
          ((connectSocket_opens cfg env.reconnect henv.reconnect).and
            (connectSocket_heard cfg henv.reconnect hattempt)).mono (fun t ht => ⟨ht.1.1, ht.2⟩)
              (fun _ _ h => ⟨h.1.1, h.1.2.1, h.1.2.2.1, h.1.2.2.2, h.2⟩) fun _ _ h => h.2
        refine hconnect.bind fun _ => Ensures.of_fact fun hopens => ?_
        exact (sendFrame_readResponse_ensures cfg env.retry data (exchange_settles_heard
          (accepts cfg) cfg.decode env.retry data henv.retry (hagain hopens))).weaken_post
            (fun _ _ h => h.2) fun _ _ h => h.2
      · rintro t ⟨-, -, ⟨d, rfl, hd, -⟩ | ⟨-, hnone, -⟩⟩
        · exact absurd (fails_of_isIoException hd hio) hfail
        · exact absurd (Or.inl hnone) hfail
    · rintro t ⟨-, -, ⟨d, -, -, ht⟩ | ⟨hyes, -⟩⟩
      · exact ht
      · exact absurd (isIoException_of_isIo hyes) hio
  · have hsend : Ensures (· = w) (sendFrame env.first data) (fun _ _ => False)
        (fun e t => e = .nullPointer ∧ t = w) := by
      rintro w rfl
      simp [sendFrame, hasOutput, bind, EStateM.bind, ho]
      exact ⟨rfl, rfl⟩
    refine (Ensures.tryCatch (hsend.bind fun _ => fun _ h => h.elim) fun first =>
      Ensures.ite (fun hio => ?_) fun _ => ensures_throw _ ?_) w rfl
    · rintro t ⟨rfl, -⟩
      cases hio
    · rintro t ⟨-, rfl⟩
      exact hw

theorem call_listening (cfg : Config φ) :
    Listening (Recovers cfg) cfg.decode (call cfg) (fun w => w.Rested False ∧ Streams w) := by
  rintro c env heard w ⟨⟨hr, hst⟩, hw, hheard⟩
  cases hc : c.request? with
  | some frame =>
      have hsome : c.request?.isSome = true := by
        rw [hc]
        rfl
      have hcall : Ensures (fun w => w.Rested True ∧ Streams w ∧ w.Heard heard) (call cfg env c)
          (fun _ t => t.Heard heard) (fun _ t => t.Heard heard) :=
        (call_ensures_of_request cfg env hc (A := fun _ _ => True) (fun _ h => h.2.2) fun _ =>
          (sendAndRead_heard cfg env frame c.retrySafe hw.orderly (hw.ahead hsome).1
            (hw.sends hsome)).weaken_post (fun _ _ h => ⟨trivial, h⟩)
              fun _ _ h => h).weaken_post (fun _ _ h => h.2) fun _ _ h => h
      exact listens_of_heard (ne_wait_of_request hc) hcall w
        ⟨hr.drained hw.ahead hc, hst, hheard⟩
  | none =>
      cases c with
      | connect =>
          refine listens_of_heard (c := .connect) (fun h => by cases h) ?_ w hheard
          exact (connectSocket_heard cfg hw.orderly.connect hw.connects).bind
            fun _ => ensures_pure _ fun _ h => h
      | close =>
          refine listens_of_heard (c := .close) (fun h => by cases h) ?_ w hheard
          exact ((closeSocketOnly_heard _).strengthen_pre fun _ h => h.toCounting).bind fun _ =>
            ensures_pure _ fun _ h => h.2
      | waitWatchEvent =>
          have hinput : Ensures (· = w) hasInput (fun b t => t = w ∧ (b = true ↔ w.input = true))
              (fun _ t => t.Heard heard ∨ t.Hears cfg.decode heard none) := by
            rintro w rfl
            exact ⟨rfl, Iff.rfl⟩
          refine listens_of_hears (hinput.bind fun b => Ensures.ite (fun hb => ?_) fun _ =>
            ensures_throw _ fun t ht => Or.inl (ht.1 ▸ hheard)) w rfl
          refine (awaitFrame_hears (accepts cfg) cfg.decode env.first.toArrival).strengthen_pre ?_
          rintro t ⟨rfl, hin⟩
          exact ⟨hst.2 (hin.mp hb), hr, hheard, (hw.waits rfl).1⟩
      | _ => cases hc

end Java

/-- A client, and the watch events that its calls have returned, with their connections. -/
structure Listener (φ : Type) where
  world : World φ
  events : List (ℕ × Result)

def Listener.init : Listener φ where
  world := World.init
  events := []

/-- The event that a wait has returned. -/
def returnedEvent (c : Call) (res : Result) (t : World φ) : List (ℕ × Result) :=
  match c, t.held with
  | .waitWatchEvent, some i => [(i, res)]
  | _, _ => []

def listenStep (call : CallEnv φ → Call → Client φ Result) (s : Listener φ)
    (a : Call × CallEnv φ) : Option (Listener φ) :=
  match call a.2 a.1 s.world with
  | .ok res t => some ⟨t, s.events ++ returnedEvent a.1 res t⟩
  | .error _ t => some ⟨t, s.events⟩

/-- The events that were returned on a connection. -/
def eventsOn (i : ℕ) (es : List (ℕ × Result)) : List Result :=
  es.filterMap fun x => if x.1 = i then some x.2 else none

/-- In every run that keeps to the condition, the events that were returned on a connection are
those in the first of its pushed frames, and the others are unread. -/
def ReturnsEvents (C : World φ → Call × CallEnv φ → Prop) (decode : Decoder)
    (call : CallEnv φ → Call → Client φ Result) : Prop :=
  ∀ (ls : List (Call × CallEnv φ)) (s : Listener φ),
    Run (listenStep call) (fun s a => C s.world a) Listener.init ls s → ∀ i, ∃ k,
      eventsOn i s.events =
          ((s.world.conns i).pushes.take k).filterMap (watchEvent? decode) ∧
        (s.world.held = some i →
          (s.world.conns i).inbound = frames ((s.world.conns i).pushes.drop k))

/-- The events that were returned are those in the pushed frames that were read. -/
structure World.Returned (decode : Decoder) (heard : ℕ → ℕ) (es : List (ℕ × Result))
    (w : World φ) : Prop where
  read : w.Heard heard
  le : ∀ i, heard i ≤ (w.conns i).pushes.length
  events : ∀ i, eventsOn i es =
    ((w.conns i).pushes.take (heard i)).filterMap (watchEvent? decode)

section Events

variable {decode : Decoder} {heard : ℕ → ℕ} {es : List (ℕ × Result)} {w t : World φ}

theorem eventsOn_append (i : ℕ) (es es' : List (ℕ × Result)) :
    eventsOn i (es ++ es') = eventsOn i es ++ eventsOn i es' :=
  List.filterMap_append

theorem eventsOn_self (i : ℕ) (event : Option Result) :
    eventsOn i (event.toList.map fun res => (i, res)) = event.toList := by
  cases event with
  | none => rfl
  | some res => exact List.filterMap_cons_some (if_pos rfl)

theorem eventsOn_of_ne {i j : ℕ} (h : j ≠ i) (event : Option Result) :
    eventsOn j (event.toList.map fun res => (i, res)) = [] := by
  cases event with
  | none => rfl
  | some res => exact List.filterMap_cons_none (if_neg h.symm)

theorem World.returned_init : (World.init : World φ).Returned decode (fun _ => 0) [] where
  read := World.heard_init
  le _ := Nat.zero_le _
  events _ := rfl

/-- The frames that were read stay the first ones. -/
theorem take_pushes (hsent : ∀ i, (w.conns i).sent <+: (t.conns i).sent) {i k : ℕ}
    (hk : k ≤ (w.conns i).pushes.length) :
    k ≤ (t.conns i).pushes.length ∧
      (t.conns i).pushes.take k = (w.conns i).pushes.take k := by
  obtain ⟨more, hmore⟩ := (hsent i).filterMap ServerFrame.push?
  have hpushes : (t.conns i).pushes = (w.conns i).pushes ++ more := hmore.symm
  rw [hpushes, List.length_append, List.take_append_of_le_length hk]
  exact ⟨Nat.le_add_right_of_le hk, rfl⟩

/-- No pushed frame was read. -/
theorem World.Returned.grow (h : w.Returned decode heard es)
    (hsent : ∀ i, (w.conns i).sent <+: (t.conns i).sent) (ht : t.Heard heard) :
    t.Returned decode heard es where
  read := ht
  le i := (take_pushes hsent (h.le i)).1
  events i := by
    rw [(take_pushes hsent (h.le i)).2]
    exact h.events i

/-- The next pushed frame was read. -/
theorem World.Returned.hear (h : w.Returned decode heard es)
    (hsent : ∀ i, (w.conns i).sent <+: (t.conns i).sent) {event : Option Result}
    (ht : t.Hears decode heard event) : ∃ i heard', t.held = some i ∧
      t.Returned decode heard' (es ++ event.toList.map fun res => (i, res)) := by
  obtain ⟨i, p, hi, hp, hevent, hheard⟩ := ht
  refine ⟨i, _, hi, hheard, fun j => ?_, fun j => ?_⟩
  · by_cases hj : j = i
    · subst hj
      rw [Function.update_self]
      exact (List.getElem?_eq_some_iff.mp hp).1
    · rw [Function.update_of_ne hj]
      exact (take_pushes hsent (h.le j)).1
  · rw [eventsOn_append, h.events j, ← (take_pushes hsent (h.le j)).2]
    by_cases hj : j = i
    · subst hj
      rw [Function.update_self, eventsOn_self, List.take_add_one, hp, List.filterMap_append,
        Option.toList_some, ← hevent]
      rfl
    · rw [Function.update_of_ne hj, eventsOn_of_ne hj, List.append_nil]

end Events

section System

variable {C : World φ → Call × CallEnv φ → Prop} {accepts : ℕ → Bool} {cfg : Config φ}
  {ping : ClientResponse → Except (Failure φ) Result}
  {call : CallEnv φ → Call → Client φ Result} {I : World φ → Prop}

/-- What holds in every run of a client. -/
structure Listener.Tracked (decode : Decoder) (I : World φ → Prop) (s : Listener φ) : Prop where
  inv : I s.world
  sound : s.world.Sound
  returned : ∃ heard, s.world.Returned decode heard s.events

theorem returnedEvent_of_ne {c : Call} (hc : c ≠ .waitWatchEvent) (res : Result) (t : World φ) :
    returnedEvent c res t = [] := by
  cases c with
  | waitWatchEvent => exact absurd rfl hc
  | _ => rfl

/-- A call keeps the account of the events. -/
theorem Behaves.listen_step (h : Behaves C accepts cfg ping call I)
    (hlisten : Listening C cfg.decode call I) {s t : Listener φ} {a : Call × CallEnv φ}
    (hs : s.Tracked cfg.decode I) (hC : C s.world a) (hstep : listenStep call s a = some t) :
    t.Tracked cfg.decode I := by
  obtain ⟨c, env⟩ := a
  obtain ⟨heard, hreturned⟩ := hs.returned
  have hauth : ∀ token, Request.auth token ≠ .ping := fun token he => by cases he
  have hgrows := h.hands env c .ping hauth s.world hs.sound
  have hpairs := h.pairs c env
  have hlistens := hlisten c env heard
  unfold listenStep at hstep
  split at hstep
  · next res u hok =>
      cases hstep
      have hgrow := hgrows.of_ok rfl hok
      have hlast := hlistens.of_ok ⟨hs.inv, hC, hreturned.read⟩ hok
      refine ⟨(hpairs.of_ok ⟨hs.inv, hC⟩ hok).2, hgrow.sound, ?_⟩
      by_cases hc : c = .waitWatchEvent
      · subst hc
        rw [World.Listens, if_pos rfl] at hlast
        obtain ⟨i, heard', hi, hnew⟩ := hreturned.hear hgrow.sent hlast
        refine ⟨heard', ?_⟩
        simp only [returnedEvent, hi]
        exact hnew
      · rw [World.Listens, if_neg hc] at hlast
        refine ⟨heard, ?_⟩
        simp only [returnedEvent_of_ne hc, List.append_nil]
        exact hreturned.grow hgrow.sent hlast
  · next err u herr =>
      cases hstep
      have hgrow := hgrows.of_error rfl herr
      refine ⟨hpairs.of_error ⟨hs.inv, hC⟩ herr, hgrow.sound, ?_⟩
      rcases hlistens.of_error ⟨hs.inv, hC, hreturned.read⟩ herr with hlast | hlast
      · exact ⟨heard, hreturned.grow hgrow.sent hlast⟩
      · obtain ⟨i, heard', -, hnew⟩ := hreturned.hear hgrow.sent hlast
        exact ⟨heard', by simpa using hnew⟩

theorem Behaves.returnsEvents (h : Behaves C accepts cfg ping call I)
    (hlisten : Listening C cfg.decode call I) : ReturnsEvents C cfg.decode call := by
  intro ls s hrun i
  have hinit : (Listener.init : Listener φ).Tracked cfg.decode I :=
    ⟨h.init, World.sound_init, _, World.returned_init⟩
  have htracked := hrun.invariant hinit fun s a t hs hC hstep => h.listen_step hlisten hs hC hstep
  obtain ⟨heard, hreturned⟩ := htracked.returned
  refine ⟨heard i, hreturned.events i, fun hheld => ?_⟩
  exact (hreturned.read.held i hheld).inbound_eq

end System

/-- In every run of the clients in Python, Go, Rust and Java in which they recover from the
exchanges that break off and no pushed frame lies ahead of an answer, the watch events that the
client returns on a connection are those that were pushed on it, in their order, and what is not
returned yet is unread. -/
theorem events_returned (cfg : Config φ) (rustCfg : Config (Rust.Fault φ)) :
    ReturnsEvents (Python.Recovers cfg) cfg.decode (Python.call cfg) ∧
      ReturnsEvents (Go.Recovers cfg) cfg.decode (Go.call cfg) ∧
        ReturnsEvents (Rust.Recovers rustCfg) rustCfg.decode (Rust.call rustCfg) ∧
          ReturnsEvents (Java.Recovers cfg) cfg.decode (Java.call cfg) := by
  refine ⟨?_, ?_, ?_, ?_⟩
  · exact (Python.behaves cfg).returnsEvents (Python.call_listening cfg)
  · exact (Go.behaves cfg).returnsEvents (Go.call_listening cfg)
  · exact (Rust.behaves rustCfg).returnsEvents (Rust.call_listening rustCfg)
  · exact (Java.behaves cfg).returnsEvents (Java.call_listening cfg)

end LockStep

end DittoClient
