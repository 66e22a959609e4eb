import DittoClient.LockStep.Unsupported
import DittoClient.Wire.Namespaces

/-!
# Rejected arguments in the Go client

In strict mode the arguments of an operation are checked before anything is sent. The Go client
checks them when it has connected already, so that an operation with arguments that it rejects
may open a connection and authenticate, or fail with an error of the network instead.
`rejected_quietly_iff` says when there is nothing of this.
-/

namespace DittoClient

namespace LockStep

open DittoClient.Protobuf
open DittoClient.Wire
open DittoClient.Program

variable {φ : Type}

namespace Go

/-- The checks of an operation in strict mode: `resolveCoreNamespace` or `resolvePatternNamespace`,
and those of `setBytesLocked`. -/
def strictChecks (alphabet : Alphabet) (r : Request) : Except String Unit := do
  let v := goValidators alphabet
  let r ← v.resolve v.normalizedNamespace true r
  v.validateSet true r

/-- The settings of a client in strict mode. -/
def strictSettings (alphabet : Alphabet) (authToken : Option String) (autoReconnect : Bool)
    (maxFrameBytes : ℕ) (text : Failure φ → String) : Config φ :=
  settings authToken autoReconnect maxFrameBytes (strictChecks alphabet) text

/-- A program that connects if it has to: it does nothing if a connection is held, and else it opens
one or fails with another error than that of a check. -/
structure Connects (connecting : Client φ Unit) (w : World φ) : Prop where
  held : w.Connected → connecting w = .ok () w
  opens : ¬ w.Connected → Ensures (· = w) connecting (fun _ t => t.next = w.next + 1)
    (fun e t => t.next = w.next + 1 ∨ ∀ message, e ≠ .invalid message)

section Connecting

variable {cfg : Config φ} {w : World φ}

/-- Closing a connection opens none. -/
theorem release_throw_next {α : Type} (n : ℕ) (e : Failure φ) :
    Ensures (fun t => t.next = n)
      (do
        release
        throw e : Client φ α)
      (fun _ _ => False) (fun _ t => t.next = n) := by
  refine Ensures.bind (R := fun _ t => t.next = n) ?_ fun _ => ensures_throw _ fun _ h => h
  intro t ht
  cases hheld : t.held with
  | none =>
      simp only [release, hheld]
      exact ht
  | some i =>
      simp only [release, hheld]
      exact ht

/-- Connecting opens a connection, or fails with an error of the network. -/
theorem connectLocked_opens (cfg : Config φ) (a : Attempt φ) (w : World φ) :
    Ensures (· = w) (connectLocked cfg a) (fun _ t => t.next = w.next + 1)
      (fun e t => t.next = w.next + 1 ∨ ∃ f : φ, e = .fault f) := by
  have hdial : Ensures (· = w) (dial a.dial >>= hold) (fun _ t => t.next = w.next + 1)
      (fun e t => t.next = w.next + 1 ∨ ∃ f : φ, e = .fault f) := by
    rintro w rfl
    cases a.dial with
    | ok => rfl
    | failed f => exact Or.inr ⟨f, rfl⟩
  have hauth : ∀ token, Ensures (fun t => t.next = w.next + 1)
      (sendLocked cfg a.auth (.auth token)) (fun _ t => t.next = w.next + 1)
      (fun _ t => t.next = w.next + 1) := by
    intro token t ht
    exact ((exchange_follows cfg.accepts cfg.decode a.auth (.auth token) t).weaken_post
      (fun _ _ h => h.next.trans ht) fun _ _ h => h.next.trans ht) t rfl
  refine hdial.bind fun _ => ?_
  cases authToken cfg with
  | none => exact ensures_pure _ fun _ h => h
  | some token =>
      refine Ensures.bind (Ensures.tryCatch (hauth token) fun err => Ensures.ite (fun _ =>
        (release_throw_next _ err).weaken_post (fun _ _ h => h.elim) fun _ _ h => Or.inl h)
          fun _ => ensures_throw _ fun _ h => Or.inl h) fun resp => ?_
      exact Ensures.ite (fun _ => ensures_pure _ fun _ h => h) fun _ =>
        (release_throw_next _ _).weaken_post (fun _ _ h => h.elim) fun _ _ h => Or.inl h

/-- Connecting, with the errors renamed by a function that makes no error of the network one of a
check. -/
theorem connects (cfg : Config φ) (a : Attempt φ) (w : World φ) (rename : Failure φ → Failure φ)
    (hrename : ∀ f message, rename (.fault f) ≠ .invalid message) :
    Connects (mapFailure rename (ensureConnectedLocked cfg a)) w := by
  refine ⟨fun hw => ?_, fun hw => ?_⟩
  · have hsome : w.held.isSome = true := hw
    simp only [mapFailure, tryCatch, tryCatchThe, MonadExceptOf.tryCatch, EStateM.tryCatch,
      ensureConnectedLocked, connected, bind, EStateM.bind, hsome, if_pos]
    rfl
  · have hconnect : Ensures (· = w) (ensureConnectedLocked cfg a) (fun _ t => t.next = w.next + 1)
        (fun e t => t.next = w.next + 1 ∨ ∃ f : φ, e = .fault f) := by
      refine (connected_ensures _ _).bind fun b => Ensures.ite (fun hb => ensures_pure _ ?_)
        fun _ => (connectLocked_opens cfg a w).strengthen_pre fun _ h => h.1
      rintro t ⟨rfl, hconn⟩
      exact absurd (hconn.mp hb) hw
    refine hconnect.tryCatch fun e => ensures_throw _ ?_
    rintro t (hnext | ⟨f, rfl⟩)
    · exact Or.inl hnext
    · exact Or.inr (hrename f)

/-- Arguments that are rejected leave everything as it is if and only if a connection is held. -/
theorem rejected_iff {connecting : Client φ Unit} (hconnects : Connects connecting w)
    {frame : Request} {message : String} (hrejected : cfg.validate frame = .error message)
    (rest : Client φ Result) :
    (connecting >>= fun _ => cfg.check frame >>= fun _ => rest) w = .error (.invalid message) w ↔
      w.Connected := by
  have hcheck : ∀ t : World φ, (cfg.check frame >>= fun _ => rest) t =
      .error (.invalid message) t := by
    intro t
    simp only [Config.check, hrejected]
    rfl
  constructor
  · intro h
    by_contra hw
    have hopens := hconnects.opens hw w rfl
    change EStateM.bind connecting _ w = _ at h
    cases hrun : connecting w with
    | ok u t =>
        rw [hrun] at hopens
        simp only [EStateM.bind, hrun, hcheck] at h
        cases h
        exact absurd hopens (Nat.ne_of_lt (Nat.lt_succ_self _))
    | error e t =>
        rw [hrun] at hopens
        simp only [EStateM.bind, hrun] at h
        cases h
        rcases hopens with hnext | hne
        · exact absurd hnext (Nat.ne_of_lt (Nat.lt_succ_self _))
        · exact hne message rfl
  · intro hw
    change EStateM.bind connecting _ w = _
    simp only [EStateM.bind, hconnects.held hw, hcheck]

end Connecting

section Strict

variable {cfg : Config φ} {text : Failure φ → String}

/-- An error of the network is not taken for one of a check. -/
theorem normalize_fault (hcfg : cfg.normalizeAtomic = normalizeAtomic text) (name : String)
    (f : φ) (message : String) : normalizeAtomicTCPErr cfg name (.fault f) ≠ .invalid message := by
  change cfg.normalizeAtomic name (.fault f) ≠ _
  rw [hcfg, normalizeAtomic]
  split <;> nofun

theorem mapFailure_id {α : Type} (m : Client φ α) : mapFailure id m = m := by
  funext w
  change EStateM.tryCatch m (fun e => throw e) w = m w
  simp only [EStateM.tryCatch]
  cases m w <;> rfl

/-- An operation connects, and then checks its arguments. -/
theorem call_connects (cfg : Config φ) (hcfg : cfg.normalizeAtomic = normalizeAtomic text) (env : CallEnv φ)
    (w : World φ) {c : Call} {frame : Request} (hc : c.request? = some frame)
    (hping : c ≠ .ping) :
    ∃ connecting rest, Connects connecting w ∧ call cfg env c =
      connecting >>= fun _ => cfg.check frame >>= fun _ => rest := by
  have hatomic := fun name => connects cfg env.connect w _ (normalize_fault hcfg name)
  have hplain := connects cfg env.connect w id fun f message => by nofun
  rw [mapFailure_id] at hplain
  cases c with
  | ping => exact absurd rfl hping
  | setNx key value ttl ns =>
      cases hc
      exact ⟨_, _, hatomic "SET_NX", rfl⟩
  | incr key delta ttl ns =>
      cases hc
      exact ⟨_, _, hatomic "INCR", rfl⟩
  | connect => cases hc
  | close => cases hc
  | waitWatchEvent => cases hc
  | _ =>
      cases hc
      exact ⟨_, _, hplain, rfl⟩

/-- An operation with arguments that are rejected returns the error of the check and does nothing
else, whatever the network would do, if and only if a connection is held. -/
theorem rejected_quietly_iff (alphabet : Alphabet) (authToken : Option String)
    (autoReconnect : Bool) (maxFrameBytes : ℕ) (text : Failure φ → String) (w : World φ)
    (env : CallEnv φ) (c : Call) (frame : Request) (message : String)
    (hc : c.request? = some frame) (hping : c ≠ .ping)
    (hrejected : strictChecks alphabet frame = .error message) :
    call (strictSettings alphabet authToken autoReconnect maxFrameBytes text) env c w =
        .error (.invalid message) w ↔ w.Connected := by
  obtain ⟨connecting, rest, hconnects, hcall⟩ := call_connects
    (strictSettings alphabet authToken autoReconnect maxFrameBytes text) rfl env w hc hping
  rw [hcall]
  exact rejected_iff hconnects hrejected rest

/-- The letters and digits of ASCII. -/
def asciiAlphabet : Alphabet where
  holds := Char.isAlphanum
  ascii _ _ := rfl

/-- A network on which connections are opened and nothing is answered. -/
def silent : CallEnv Unit where
  lock := none
  connect := ⟨.ok, none, none, ⟨⟨[], [.fail ()]⟩, .ok⟩, none⟩
  first := ⟨⟨[], []⟩, .ok⟩
  shutdown := none
  reconnect := ⟨.ok, none, none, ⟨⟨[], []⟩, .ok⟩, none⟩
  retry := ⟨⟨[], []⟩, .ok⟩

theorem rejected_quietly_iff_blank :
    call (strictSettings asciiAlphabet none false 1024 fun _ : Failure Unit => "") silent
        (.get " " none) World.init =
      .error (.invalid "invalid get request: key must not be empty") World.init ↔
        (World.init : World Unit).Connected :=
  rejected_quietly_iff asciiAlphabet none false 1024 _ World.init silent (.get " " none)
    (.get " " none) _ rfl nofun (by decide)

/-- A blank key is rejected, but the client has connected and sent its token by then, and reports
that this failed. -/
theorem rejected_after_auth :
    strictChecks asciiAlphabet (.get " " none) =
        .error "invalid get request: key must not be empty" ∧
      ∃ t, call (strictSettings asciiAlphabet (some "secret") false 1024
          fun _ : Failure Unit => "") silent (.get " " none) World.init = .error (.fault ()) t ∧
        (t.conns 0).written = [⟨.auth "secret", true, 0⟩] :=
  ⟨by decide, _, rfl, rfl⟩

end Strict

end Go

end LockStep

end DittoClient
