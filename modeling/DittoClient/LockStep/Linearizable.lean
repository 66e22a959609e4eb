import DittoClient.LockStep.Recovery
import DittoClient.LockStep.Store

/-!
# The lock-step clients are linearizable

While no pushed frame lies ahead of an answer and the client drops the connection of an exchange
that breaks off, each call of a lock-step client that returns took effect in the service during the
call, once, and its result is computed from the response that the service gave there. What a client
needs for this is that it pairs requests with answers and hands over no frame but its own
(`Behaves`).
-/

namespace DittoClient

namespace LockStep

open DittoClient.Linear
open DittoClient.Octets
open DittoClient.Protobuf
open DittoClient.Wire
open DittoClient.Program
open DittoClient.Transition

variable {φ : Type} {σ : Type*}

/-- The configuration with the decoder of a dialect. -/
def Config.decoding (cfg : Config φ) (d : Dialect) : Config φ :=
  { cfg with decode := d.decodeResponse }

/-- A call is named by the connection and the number of its last frame. Its result is what it makes
of the response of the service to the request that is read out of this frame. -/
def calls (M : Service σ) (e : RequestEncoder) (d : Dialect)
    (ping : ClientResponse → Except (Failure φ) Result) :
    View (Cluster φ M) M.toMachine (ℕ × ℕ) (Call × Result) where
  log := Cluster.log
  invoked s k := k.2 < (s.world.conns k.1).received
  returned s k res := ⟨k.1, k.2, res.1, res.2⟩ ∈ s.done
  fits res r x := ∃ frame y, res.1.request? = some frame ∧ e.reads frame = some r ∧
    d.meaning x = .ok y ∧ res.1.accept ping y = .ok res.2

/-- What a client does in each call that keeps to `C`: it reads its answer behind its last frame,
hands over no other frame, and keeps an invariant under which the answer is its own. -/
structure Behaves (C : World φ → Call × CallEnv φ → Prop) (accepts : ℕ → Bool) (cfg : Config φ)
    (ping : ClientResponse → Except (Failure φ) Result)
    (call : CallEnv φ → Call → Client φ Result) (I : World φ → Prop) : Prop where
  init : I World.init
  hands : Hands call
  calling : ∀ env c frame, c.request? = some frame →
    ∃ enter attempt, Calling cfg accepts enter attempt ping c frame (call env c)
  pairs : ∀ c env, Ensures (fun w => I w ∧ C w (c, env)) (call env c)
    (fun res t => OwnAnswer cfg ping c res t ∧ I t) (fun _ => I)

/-- What holds in every run of a client with a service. -/
structure Cluster.Tracked {M : Service σ} (e : RequestEncoder) (d : Dialect)
    (ping : ClientResponse → Except (Failure φ) Result) (I : World φ → Prop)
    (s : Cluster φ M) : Prop where
  inv : I s.world
  sound : s.world.Sound
  reads : Reads e s.world s.log
  answers : s.Answers
  framed : ∀ x ∈ s.done, (s.world.conns x.conn).requests[x.number]? = x.call.request?
  distinct : (s.done.map fun x => (x.conn, x.number)).Nodup
  fits : ∀ x ∈ s.done, ∃ y ∈ s.log.entries, y.origin = some (x.conn, x.number) ∧
    (calls M e d ping).fits (x.call, x.result) y.request y.response

section Client

variable {C : World φ → Call × CallEnv φ → Prop} {accepts : ℕ → Bool} {cfg : Config φ}
  {ping : ClientResponse → Except (Failure φ) Result}
  {call : CallEnv φ → Call → Client φ Result} {I : World φ → Prop}

/-- The last frame of a call that returns was written during the call. -/
theorem Behaves.last_frame (h : Behaves C accepts cfg ping call I) {env : CallEnv φ} {c : Call}
    {frame : Request} (hc : c.request? = some frame) {w t : World φ} (hw : w.Sound) {res : Result}
    (hok : call env c w = .ok res t) :
    ∃ i before x, t.held = some i ∧ (t.conns i).written = before ++ [x] ∧
      (w.conns i).written <+: before := by
  obtain ⟨enter, attempt, hcalling⟩ := h.calling env c frame hc
  obtain ⟨es, hwent, -, r, -, pre, i, rfl⟩ := (hcalling w).of_ok hok
  obtain ⟨u, hpre, hlast⟩ := hwent.of_append
  have hgrow := Went.grows hw hpre frame
  cases hlast with
  | cons hhand hrest =>
      cases hrest with
      | cons hread hnil =>
          cases hnil
          obtain ⟨hheld, a, complete, rfl⟩ := hhand
          have hadv := (recvFrame_advances accepts cfg.decode _).of_ok rfl hread.2
          refine ⟨i, (u.conns i).written, ⟨frame, complete, (u.conns i).sent.length⟩, ?_, ?_,
            hgrow.written i⟩
          · exact hadv.held.trans hread.1
          · rw [hadv.written, Arrival.apply_written, World.update_conns_self]
            rfl

/-- What a call that returns leaves behind: its frame was written completely, under a number that
was not there before, and the answer with this number gives the result. -/
theorem Behaves.returns (h : Behaves C accepts cfg ping call I) {env : CallEnv φ} {c : Call}
    {frame : Request} (hc : c.request? = some frame) {w t : World φ} (hw : w.Sound)
    (hI : I w) (hC : C w (c, env)) {res : Result} (hok : call env c w = .ok res t) :
    ∃ i k r p, finished c res t = [⟨i, k, c, res⟩] ∧ (t.conns i).requests[k]? = some frame ∧
      (w.conns i).received ≤ k ∧ (t.conns i).replies[k]? = some p ∧ cfg.decode p.bytes = .ok r ∧
        c.accept ping r = .ok res := by
  obtain ⟨i, before, x, hheld, hwritten, hbefore⟩ := h.last_frame hc hw hok
  have hown := ((h.pairs c env).of_ok ⟨hI, hC⟩ hok).1
  obtain ⟨r, ⟨j, hj, before', x', p, hwritten', rfl, hcomplete, hp, hdecode⟩, haccept⟩ :=
    hown frame hc
  obtain rfl : i = j := Option.some.inj (hheld.symm.trans hj)
  obtain ⟨rfl, hlast⟩ := List.append_inj' (hwritten.symm.trans hwritten') rfl
  obtain rfl := (List.cons.inj hlast).1
  obtain ⟨hreceived, hrequest⟩ := requests_of_last hwritten hcomplete
  refine ⟨i, before.countP Written.complete, r, p, ?_, hrequest, ?_, hp, hdecode, haccept⟩
  · simp only [finished, hc, hheld, hreceived, Nat.add_sub_cancel]
  · obtain ⟨more, rfl⟩ := hbefore
    rw [List.countP_append]
    exact Nat.le_add_right _ _

end Client

section System

variable {C : World φ → Call × CallEnv φ → Prop} {accepts : ℕ → Bool} {cfg : Config φ}
  {ping : ClientResponse → Except (Failure φ) Result}
  {call : CallEnv φ → Call → Client φ Result} {I : World φ → Prop} {M : Service σ}
  {e : RequestEncoder} {d : Dialect} {s t : Cluster φ M} {a : ServedCall φ}

theorem Cluster.tracked_init (h : I World.init) :
    (Cluster.init : Cluster φ M).Tracked e d ping I where
  inv := h
  sound := World.sound_init
  reads := reads_empty
  answers i k p hp := by simp [Cluster.init, World.init, Connection.fresh, Connection.replies] at hp
  framed x hx := by cases hx
  distinct := List.nodup_nil
  fits x hx := by cases hx

/-- The world and the log after a step, and the calls that have returned. -/
theorem clusterStep_cases (hs : clusterStep e call s a = some t) :
    takeAll e t.world a.turns s.log = some t.log ∧
      ((∃ res, call a.env a.call s.world = .ok res t.world ∧
          t.done = s.done ++ finished a.call res t.world) ∨
        (∃ err, call a.env a.call s.world = .error err t.world) ∧ t.done = s.done) := by
  unfold clusterStep at hs
  split at hs
  · next res u hok =>
      obtain ⟨l, hl, rfl⟩ := Option.map_eq_some_iff.mp hs
      exact ⟨hl, Or.inl ⟨res, hok, rfl⟩⟩
  · next err u herr =>
      obtain ⟨l, hl, rfl⟩ := Option.map_eq_some_iff.mp hs
      exact ⟨hl, Or.inr ⟨⟨err, herr⟩, rfl⟩⟩

/-- How the connections grow in a step. -/
theorem Behaves.grows (h : Behaves C accepts cfg ping call I) (hw : s.world.Sound)
    (hs : clusterStep e call s a = some t) {frame : Request}
    (hauth : ∀ token, Request.auth token ≠ frame) :
    s.world.Grows frame (a.call.transmissions frame) t.world := by
  have hhands := h.hands a.env a.call frame hauth s.world hw
  obtain ⟨-, ⟨res, hok, -⟩ | ⟨⟨err, herr⟩, -⟩⟩ := clusterStep_cases hs
  · exact hhands.of_ok rfl hok
  · exact hhands.of_error rfl herr

theorem finished_of_none {c : Call} (hc : c.request? = none) (res : Result) (w : World φ) :
    finished c res w = [] := by
  rw [finished, hc]

/-- A step keeps the invariant, and the log grows. A call that has returned in it had not been
called before. -/
theorem Behaves.step (h : Behaves C accepts cfg ping call I)
    (hd : ∀ x : ServerResponse, x.encode.length < 2 ^ 31 → ∀ r,
      cfg.decode x.encode = .ok r ↔ d.meaning x = .ok r)
    (ht : s.Tracked e d ping I) (hb : Behind C e call s a)
    (hs : clusterStep e call s a = some t) :
    t.Tracked e d ping I ∧ s.log.entries <+: t.log.entries ∧
      ∀ k res, (calls M e d ping).returned t k res →
        (calls M e d ping).returned s k res ∨ ¬ (calls M e d ping).invoked s k := by
  have hauth : ∀ token, Request.auth token ≠ .ping := fun token he => by cases he
  have hgrow := h.grows ht.sound hs hauth
  obtain ⟨hturns, hcases⟩ := clusterStep_cases hs
  obtain ⟨hreads, hlog⟩ := (ht.reads.grow hgrow.written).takeAll hturns
  have hanswers := hb.2 t hs
  have hframed : ∀ x ∈ s.done, (t.world.conns x.conn).requests[x.number]? = x.call.request? := by
    intro x hx
    obtain ⟨more, hmore⟩ := requests_mono (hgrow.written x.conn)
    have hold := ht.framed x hx
    obtain ⟨y, hy, horigin, frame, z, hreq, -⟩ := ht.fits x hx
    rw [hreq] at hold ⊢
    rw [← hmore, List.getElem?_append_left (List.getElem?_eq_some_iff.mp hold).1, hold]
  have hfits : ∀ x ∈ s.done, ∃ y ∈ t.log.entries, y.origin = some (x.conn, x.number) ∧
      (calls M e d ping).fits (x.call, x.result) y.request y.response := by
    intro x hx
    obtain ⟨y, hy, hrest⟩ := ht.fits x hx
    exact ⟨y, hlog.subset hy, hrest⟩
  -- nothing has returned that was not there before
  have hsame : I t.world → t.done = s.done → t.Tracked e d ping I ∧
      s.log.entries <+: t.log.entries ∧ ∀ k res, (calls M e d ping).returned t k res →
        (calls M e d ping).returned s k res ∨ ¬ (calls M e d ping).invoked s k := by
    intro hI hdone
    refine ⟨⟨hI, hgrow.sound, hreads, hanswers, ?_, ?_, ?_⟩, hlog, fun k res hk => Or.inl ?_⟩
    · rw [hdone]
      exact hframed
    · rw [hdone]
      exact ht.distinct
    · rw [hdone]
      exact hfits
    · have hk : (⟨k.1, k.2, res.1, res.2⟩ : Done) ∈ t.done := hk
      rw [hdone] at hk
      exact hk
  have hensures := h.pairs a.call a.env
  rcases hcases with ⟨res, hok, hdone⟩ | ⟨⟨err, herr⟩, hdone⟩
  · have hI : I t.world := (hensures.of_ok ⟨ht.inv, hb.1⟩ hok).2
    cases hc : a.call.request? with
    | none =>
        refine hsame hI ?_
        rw [hdone, finished_of_none hc, List.append_nil]
    | some frame =>
        obtain ⟨i, k, r, p, hfinished, hrequest, hfresh, hp, hdecode, haccept⟩ :=
          h.returns hc ht.sound ht.inv hb.1 hok
        rw [hfinished] at hdone
        obtain ⟨x, hx, horigin, hbytes⟩ := hanswers i k p hp
        obtain ⟨frame', hframe', hread⟩ := hreads.frames x hx i k horigin
        obtain rfl : frame' = frame := Option.some.inj (hframe'.symm.trans hrequest)
        have hmeaning : d.meaning x.response = .ok r := by
          obtain ⟨u, hu⟩ := Log.exists_response hx
          rw [hbytes] at hdecode
          exact (hd x.response (hu ▸ M.fits u x.request) r).mp hdecode
        have hnew : ∀ y ∈ s.done, (y.conn, y.number) ≠ (i, k) := by
          intro y hy he
          obtain ⟨z, hz, hzorigin, -⟩ := ht.fits y hy
          rw [he] at hzorigin
          obtain ⟨f, hf, -⟩ := ht.reads.frames z hz i k hzorigin
          have hlt := (List.getElem?_eq_some_iff.mp hf).1
          rw [length_requests] at hlt
          omega
        refine ⟨⟨hI, hgrow.sound, hreads, hanswers, ?_, ?_, ?_⟩, hlog, fun l res' hl => ?_⟩
        · rw [hdone]
          refine List.forall_mem_append.mpr ⟨hframed, List.forall_mem_singleton.mpr ?_⟩
          exact hrequest.trans hc.symm
        · rw [hdone, List.map_append]
          refine List.nodup_append'.mpr ⟨ht.distinct, List.nodup_singleton _, ?_⟩
          rw [List.map_singleton, List.disjoint_singleton]
          intro hmem
          obtain ⟨y, hy, he⟩ := List.mem_map.mp hmem
          exact hnew y hy he
        · rw [hdone]
          exact List.forall_mem_append.mpr ⟨hfits, List.forall_mem_singleton.mpr
            ⟨x, hx, horigin, frame', r, hc, hread, hmeaning, haccept⟩⟩
        · have hl : (⟨l.1, l.2, res'.1, res'.2⟩ : Done) ∈ t.done := hl
          rw [hdone] at hl
          refine (List.mem_append.mp hl).imp id fun hl => ?_
          obtain ⟨rfl, rfl, -, -⟩ := Done.mk.injEq .. ▸ List.mem_singleton.mp hl
          exact Nat.not_lt.mpr hfresh
  · exact hsame (hensures.of_error ⟨ht.inv, hb.1⟩ herr) hdone

/-- The log accounts for the calls. -/
theorem Cluster.Tracked.accounts (h : s.Tracked e d ping I) :
    (calls M e d ping).Accounts s where
  once := h.reads.once
  called k hk := by
    obtain ⟨x, hx, horigin⟩ := List.mem_filterMap.mp hk
    obtain ⟨frame, hframe, -⟩ := h.reads.frames x hx k.1 k.2 horigin
    change k.2 < (s.world.conns k.1).received
    rw [← length_requests]
    exact (List.getElem?_eq_some_iff.mp hframe).1
  answered k res hk := h.fits _ hk

/-- Each call that returns took effect during the call, and nothing takes effect twice. -/
def TakesEffect (C : World φ → Call × CallEnv φ → Prop) (M : Service σ) (e : RequestEncoder)
    (d : Dialect) (ping : ClientResponse → Except (Failure φ) Result)
    (call : CallEnv φ → Call → Client φ Result) : Prop :=
  (calls M e d ping).Linearizable (clusterStep e call) (Behind C e call) Cluster.init ∧
    ∀ s a t, Reachable (clusterStep e call) (Behind C e call) Cluster.init s →
      Behind C e call s a → clusterStep e call s a = some t →
        ∀ k res, (calls M e d ping).returned t k res →
          (calls M e d ping).returned s k res ∨ (calls M e d ping).TakesEffect s t k res

theorem Behaves.takesEffect (h : Behaves C accepts cfg ping call I)
    (hd : ∀ x : ServerResponse, x.encode.length < 2 ^ 31 → ∀ r,
      cfg.decode x.encode = .ok r ↔ d.meaning x = .ok r) (M : Service σ) (e : RequestEncoder) :
    TakesEffect C M e d ping call := by
  have hinit : (Cluster.init : Cluster φ M).Tracked e d ping I := Cluster.tracked_init h.init
  refine ⟨View.linearizable_of_invariant (fun s => s.Tracked e d ping I) hinit
    (fun s a t ht hb hs => ?_) fun s ht => ht.accounts, fun s a t hreach hb hs k res hk => ?_⟩
  · obtain ⟨htracked, hlog, -⟩ := h.step hd ht hb hs
    exact ⟨htracked, hlog⟩
  · have ht := hreach.invariant (I := fun s => s.Tracked e d ping I) hinit
      fun s a t ht hb hs => (h.step hd ht hb hs).1
    obtain ⟨htracked, hlog, hnew⟩ := h.step hd ht hb hs
    exact (hnew k res hk).imp id fun hfresh =>
      View.takesEffect_of_accounts ht.accounts htracked.accounts hlog hk hfresh

end System

section Clients

variable (cfg : Config φ) (rustCfg : Config (Rust.Fault φ))

theorem Python.behaves :
    Behaves (Python.Recovers cfg) cfg.accepts cfg acceptPing (Python.call cfg)
      (World.Rested False) where
  init := World.rested_init
  hands := Python.call_hands cfg
  calling env _ _ hc := ⟨_, _, Python.call_calling cfg env hc⟩
  pairs := Python.call_recovers cfg

theorem Go.behaves :
    Behaves (Go.Recovers cfg) cfg.accepts cfg acceptPing (Go.call cfg) (World.Rested False) where
  init := World.rested_init
  hands := Go.call_hands cfg
  calling env _ _ hc := ⟨_, _, Go.call_calling cfg env hc⟩
  pairs := Go.call_recovers cfg

theorem Rust.behaves :
    Behaves (Rust.Recovers rustCfg) rustCfg.accepts rustCfg Rust.acceptPing (Rust.call rustCfg)
      (World.Rested False) where
  init := World.rested_init
  hands := Rust.call_hands rustCfg
  calling env _ _ hc := ⟨_, _, Rust.call_calling rustCfg env hc⟩
  pairs := Rust.call_recovers rustCfg

theorem Java.behaves :
    Behaves (Java.Recovers cfg) (Java.accepts cfg) cfg acceptPing (Java.call cfg)
      (fun w => w.Rested False ∧ Java.Streams w) where
  init := ⟨World.rested_init, Java.streams_init⟩
  hands := Java.call_hands cfg
  calling env _ _ hc := ⟨_, _, Java.call_calling cfg env hc⟩
  pairs := Java.call_recovers cfg

/-- What a decoder makes of the canonical encoding of a response. -/
theorem decode_encode {d : Dialect} {F : Format} {size : ℕ} (h : d.Follows F size) (hd : d.Plain)
    (hF : F.Standard) (hsize : 2 ^ 31 - 1 ≤ size) (x : ServerResponse)
    (hx : x.encode.length < 2 ^ 31) (r : ClientResponse) :
    d.decodeResponse x.encode = .ok r ↔ d.meaning x = .ok r := by
  have hencodes := encodes_encode hF x (by omega)
  exact Dialect.decodeResponse_encodes h hd (by omega) hencodes r

/-- In every run of a lock-step client that recovers from the exchanges that break off, and in which
no pushed frame lies ahead of an answer, a call that returns took effect in the service during the
call, and its result is computed from the response that the service gave there. -/
theorem calls_take_effect (M : Service σ) (cfg : Config φ) (rustCfg : Config (Rust.Fault φ))
    (overflowChecks : Bool) :
    TakesEffect (Python.Recovers (cfg.decoding pythonDialect)) M pythonEncoder pythonDialect
      acceptPing (Python.call (cfg.decoding pythonDialect)) ∧
    TakesEffect (Go.Recovers (cfg.decoding goDialect)) M goEncoder goDialect
      acceptPing (Go.call (cfg.decoding goDialect)) ∧
    TakesEffect (Rust.Recovers (rustCfg.decoding (rustDialect overflowChecks))) M rustEncoder
      (rustDialect overflowChecks) Rust.acceptPing
        (Rust.call (rustCfg.decoding (rustDialect overflowChecks))) ∧
    TakesEffect (Java.Recovers (cfg.decoding javaDialect)) M javaEncoder javaDialect
      acceptPing (Java.call (cfg.decoding javaDialect)) := by
  refine ⟨?_, ?_, ?_, ?_⟩
  · exact (Python.behaves _).takesEffect
      (decode_encode (python_follows (2 ^ 31)) python_plain python_standard (by decide)) M _
  · exact (Go.behaves _).takesEffect
      (decode_encode go_follows go_plain go_standard (by decide)) M _
  · exact (Rust.behaves _).takesEffect
      (decode_encode (rust_follows overflowChecks) (rust_plain overflowChecks)
        (rust_standard overflowChecks) (by decide)) M _
  · exact (Java.behaves _).takesEffect
      (decode_encode java_follows java_plain java_standard (by decide)) M _

end Clients

end LockStep

end DittoClient
