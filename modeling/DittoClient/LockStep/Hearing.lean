import DittoClient.LockStep.Pairing

/-!
# The pushed frames that a client reads

Between two calls the client has read up to the boundary behind some of the pushed frames of its
connection, and what is unread are the others (`Connection.Heard`). Connecting, closing and requests
read none of them, as long as no pushed frame lies ahead of an answer, and a wait reads the next
one. `World.Heard` counts the pushed frames that were read on each connection.
-/

namespace DittoClient

namespace LockStep

open DittoClient.Octets
open DittoClient.Protobuf
open DittoClient.Wire
open DittoClient.Program

variable {φ : Type}

/-- The payload of a pushed frame. -/
def ServerFrame.push? : ServerFrame → Option Payload
  | .push p => some p
  | .reply _ => none

/-- The watch event in a pushed frame, if the decoder finds one. -/
def watchEvent? (decode : Decoder) (p : Payload) : Option Result :=
  match decode p.bytes with
  | .ok (.watchEvent key value version) => some (.event key value version)
  | _ => none

namespace Connection

/-- The frames that were pushed, in order. -/
def pushes (c : Connection) : List Payload :=
  c.sent.filterMap ServerFrame.push?

/-- What was read are all the answers and `k` of the pushed frames. -/
def Heard (c : Connection) (k : ℕ) : Prop :=
  ∃ before after, c.sent = before ++ after ∧
    c.read = (frames (before.map ServerFrame.payload)).length ∧
      (before.filterMap ServerFrame.push?).length = k ∧ ∀ f ∈ after, f.reply? = none

variable {c : Connection} {k : ℕ}

theorem heard_fresh : fresh.Heard 0 :=
  ⟨[], [], rfl, rfl, rfl, List.forall_mem_nil _⟩

/-- The payloads of frames that answer nothing. -/
theorem filterMap_push? {fs : List ServerFrame} (h : ∀ f ∈ fs, f.reply? = none) :
    fs.filterMap ServerFrame.push? = fs.map ServerFrame.payload := by
  induction fs with
  | nil => rfl
  | cons f fs ih =>
      obtain ⟨hf, hfs⟩ := List.forall_mem_cons.mp h
      cases f with
      | reply p => cases hf
      | push p => exact congrArg (p :: ·) (ih hfs)

/-- What is unread are the other pushed frames. -/
theorem Heard.inbound_eq (h : c.Heard k) : c.inbound = frames (c.pushes.drop k) := by
  obtain ⟨before, after, hsent, hread, rfl, hunread⟩ := h
  rw [pushes, hsent, List.filterMap_append, List.drop_left]
  rw [inbound, stream, hread, hsent, List.map_append, frames_append, List.drop_left,
    filterMap_push? hunread]

/-- When nothing is unread, everything that was pushed has been read. -/
theorem Heard.eq_length (h : c.Heard k) (hin : c.inbound = []) : k = c.pushes.length := by
  obtain ⟨before, after, hsent, hread, rfl, hunread⟩ := h
  cases after with
  | nil => rw [pushes, hsent, List.append_nil]
  | cons f fs =>
      rw [inbound, stream, hread, hsent, List.map_append, frames_append, List.drop_left] at hin
      have hlen := congrArg List.length hin
      simp only [List.map_cons, frames_cons, List.length_append, length_frame,
        List.length_nil] at hlen
      omega

theorem Heard.append_pushes (h : c.Heard k) {ps : List ServerFrame}
    (hps : ∀ f ∈ ps, f.reply? = none) : Heard { c with sent := c.sent ++ ps } k := by
  obtain ⟨before, after, hsent, hread, hk, hunread⟩ := h
  refine ⟨before, after ++ ps, ?_, hread, hk, List.forall_mem_append.mpr ⟨hunread, hps⟩⟩
  rw [hsent, List.append_assoc]

/-- The next pushed frame is the first one that is unread. -/
theorem Heard.next (h : c.Heard k) : c.inbound = [] ∨ ∃ p rest, c.pushes[k]? = some p ∧
    c.inbound = frame p ++ rest ∧ Heard { c with read := c.read + (frame p).length } (k + 1) := by
  have hin := h.inbound_eq
  obtain ⟨before, after, hsent, hread, rfl, hunread⟩ := h
  cases after with
  | nil =>
      refine Or.inl ?_
      rw [hin, pushes, hsent, List.append_nil, List.drop_length]
      rfl
  | cons f fs =>
      obtain ⟨hf, hfs⟩ := List.forall_mem_cons.mp hunread
      cases f with
      | reply p => cases hf
      | push p =>
          have hpushes : c.pushes = before.filterMap ServerFrame.push? ++
              p :: fs.filterMap ServerFrame.push? := by
            rw [pushes, hsent, List.filterMap_append]
            rfl
          refine Or.inr ⟨p, frames (fs.filterMap ServerFrame.push?), ?_, ?_, ?_⟩
          · rw [hpushes, List.getElem?_append_right le_rfl, Nat.sub_self]
            rfl
          · rw [hin, hpushes, List.drop_left]
            rfl
          · refine ⟨before ++ [.push p], fs, ?_, ?_, ?_, hfs⟩
            · rw [hsent, List.append_assoc]
              rfl
            · rw [List.map_append, frames_append, List.length_append, hread]
              simp [ServerFrame.payload]
            · rw [List.filterMap_append, List.length_append]
              rfl

/-- The answer `p` to a frame is the next frame that is read, and no pushed frame ahead of it. -/
theorem Heard.answer (h : c.Heard k) (hs : c.Settled) (hin : c.inbound = []) (req : Request)
    (p : Payload) (acts : List ServerFrame) {c' : Connection}
    (hc' : c' = (ServerFrame.reply p :: acts).foldl serve (c.write req true)) :
    Heard { c' with read := c'.read + (frame p).length } k := by
  have hread := hs.read_eq hin
  obtain ⟨-, -, hreplies, hsettled, -⟩ := hs.answer hin req p [] rfl
  rw [List.foldl_cons, List.foldl_nil] at hreplies hsettled
  -- the connection when the answer has arrived
  have hfirst : serve (c.write req true) (.reply p) =
      { c.write req true with sent := c.sent ++ [.reply p] } := by
    refine if_pos (by_contra fun hnot => ?_)
    have hkept : serve (c.write req true) (.reply p) = c.write req true := if_neg hnot
    rw [hkept] at hreplies
    have hlen := congrArg List.length hreplies
    rw [List.length_append] at hlen
    exact Nat.ne_of_lt (Nat.lt_succ_self _) hlen
  rw [List.foldl_cons, hfirst] at hc'
  rw [hfirst] at hsettled
  obtain ⟨ps, hps, hfold⟩ := hsettled.foldl_serve acts
  rw [foldl_serve_read, ← hc'] at hfold
  rw [hfold]
  refine Heard.append_pushes ?_ fun f hf => (hps f hf).2
  refine ⟨c.sent ++ [.reply p], [], (List.append_nil _).symm, ?_, ?_, List.forall_mem_nil _⟩
  · rw [List.map_append, frames_append, List.length_append]
    change c.read + _ = _
    rw [hread, stream]
    simp [ServerFrame.payload]
  · rw [List.filterMap_append, List.length_append]
    exact (h.eq_length hin).symm

end Connection

namespace World

/-- Nothing was read on a connection that was not opened yet. -/
structure Counting (heard : ℕ → ℕ) (w : World φ) : Prop where
  opened : ∀ i, w.held = some i → i < w.next
  unopened : ∀ i, w.next ≤ i → heard i = 0

/-- What was read on the connection that is held are `heard` of its pushed frames. -/
structure Heard (heard : ℕ → ℕ) (w : World φ) : Prop extends w.Counting heard where
  held : ∀ i, w.held = some i → (w.conns i).Heard (heard i)

/-- The next pushed frame was read, and the decoder finds `event` in it. -/
def Hears (decode : Decoder) (heard : ℕ → ℕ) (event : Option Result) (t : World φ) : Prop :=
  ∃ i p, t.held = some i ∧ (t.conns i).pushes[heard i]? = some p ∧ watchEvent? decode p = event ∧
    t.Heard (Function.update heard i (heard i + 1))

variable {heard : ℕ → ℕ} {w t : World φ}

theorem heard_init : (init : World φ).Heard fun _ => 0 where
  held i hi := by cases hi
  opened i hi := by cases hi
  unopened _ _ := rfl

theorem Counting.idle (h : w.Counting heard) (hnone : w.held = none) : w.Heard heard where
  toCounting := h
  held i hi := by
    rw [hnone] at hi
    cases hi

theorem Counting.of_follows (h : w.Counting heard) (hheld : t.held = w.held)
    (hnext : t.next = w.next) : t.Counting heard where
  opened i hi := by
    rw [hnext]
    exact h.opened i (hheld ▸ hi)
  unopened i hi := h.unopened i (hnext ▸ hi)

/-- The connection that is held has changed. -/
theorem Heard.of_held (h : w.Heard heard) {i : ℕ} (hi : w.held = some i) (hheld : t.held = w.held)
    (hnext : t.next = w.next) (hconn : (t.conns i).Heard (heard i)) : t.Heard heard where
  toCounting := h.toCounting.of_follows hheld hnext
  held j hj := by
    obtain rfl : i = j := Option.some.inj (hi.symm.trans (hheld.symm.trans hj))
    exact hconn

end World

section Pieces

variable {heard : ℕ → ℕ} {w : World φ} {accepts : ℕ → Bool} {decode : Decoder}

theorem meet_heard (f : Option φ) :
    Ensures (World.Heard heard) (meet f) (fun _ t => t.Heard heard) fun _ t => t.Heard heard :=
  (meet_ensures f).weaken_post (fun _ _ h => h.1) fun _ _ h => h.1

theorem release_heard (E : Failure φ → World φ → Prop) :
    Ensures (World.Counting heard) release (fun _ t => t.held = none ∧ t.Heard heard) E := by
  intro w hw
  cases hheld : w.held with
  | none =>
      simp only [release, hheld]
      exact ⟨trivial, hw.idle hheld⟩
  | some i =>
      simp only [release, hheld]
      refine ⟨trivial, World.Counting.idle ⟨fun j hj => ?_, hw.unopened⟩ rfl⟩
      cases hj

/-- On a connection that is opened nothing was read yet. -/
theorem dial_hold_heard (d : Dial φ) :
    Ensures (World.Heard heard) (dial d >>= hold)
      (fun _ t => d.isOk = true ∧ t.Connected ∧ t.Rested True ∧ t.Heard heard)
      (fun _ t => t.Heard heard) := by
  have hopens : Ensures (World.Heard heard) (dial d >>= hold) (fun _ t => t.Heard heard)
      (fun _ t => t.Heard heard) := by
    intro w hw
    cases d with
    | failed f => exact hw
    | ok =>
        refine ⟨⟨?_, fun i hi => hw.unopened i (Nat.le_of_succ_le hi)⟩, ?_⟩
        · rintro i ⟨⟩
          exact Nat.lt_succ_self _
        · rintro i ⟨⟩
          change Connection.Heard ((w.update w.next fun _ => Connection.fresh).conns w.next) _
          rw [World.update_conns_self, hw.unopened w.next le_rfl]
          exact Connection.heard_fresh
  refine ((dial_hold_ensures (P := fun _ => True) d).and hopens).mono (fun _ h => ⟨trivial, h⟩)
    (fun _ t h => ⟨h.1.1, h.1.2.1, h.1.2.2, h.2⟩) fun _ _ h => h.2

/-- Reading the answer to a frame reads no pushed frame, unless it breaks off. -/
theorem recvFrame_heard {t : World φ} {i k : ℕ} (hi : t.held = some i) {p : Payload}
    {rest : List UInt8} (hin : (t.conns i).inbound = frame p ++ rest)
    (hnext : Connection.Heard { t.conns i with read := (t.conns i).read + (frame p).length } k) :
    Ensures (· = t) (recvFrame accepts decode) (fun _ u => (u.conns i).Heard k)
      (fun _ u => delivers accepts t.recvs p.bytes.length = true → (u.conns i).Heard k) := by
  have hread : ∀ rs, ((t.advance i (frame p).length rs).conns i).Heard k := by
    intro rs
    rw [World.advance_conns_self]
    exact hnext
  refine (recvFrame_ensures hi hin accepts decode).weaken_post ?_ ?_
  · rintro r u ⟨-, -, rs, rfl⟩
    exact hread rs
  · rintro e u (⟨d, -, -, -, rs, rfl⟩ | ⟨-, hnot, -⟩) hdelivers
    · exact hread rs
    · rw [hdelivers] at hnot
      cases hnot

/-- An exchange that does not break off reads no pushed frame. -/
theorem exchange_heard_held {i k : ℕ} (hi : w.held = some i) (hs : (w.conns i).Settled)
    (hin : (w.conns i).inbound = []) (hk : (w.conns i).Heard k) (x : Exchange φ) (req : Request)
    (hq : Quiet x.acts) :
    Ensures (· = w) (exchange accepts decode x req) (fun _ t => (t.conns i).Heard k)
      (fun _ t => x.Settles accepts decode → (t.conns i).Heard k) := by
  rintro w rfl
  cases hx : x.write with
  | refused f =>
      simp only [exchange, sendall, bind, EStateM.bind, hi, hx]
      exact fun _ => hk
  | failed complete f =>
      simp only [exchange, sendall, bind, EStateM.bind, hi, hx]
      intro hsettles
      simp [Exchange.Settles, Exchange.outcome, Exchange.refused, hx] at hsettles
  | ok =>
      have hstep : exchange accepts decode x req w = recvFrame accepts decode
          (x.toArrival.apply i (w.update i fun c => c.write req true)) := by
        simp only [exchange, sendall, bind, EStateM.bind, hi, hx]
      rw [hstep]
      generalize ht : x.toArrival.apply i (w.update i fun c => c.write req true) = t
      have hheld : t.held = some i := by
        rw [← ht]
        exact hi
      have hconn : t.conns i = x.acts.foldl Connection.serve ((w.conns i).write req true) := by
        rw [← ht, Arrival.apply_conns_self, World.update_conns_self]
      have hrecvs : t.recvs = x.recvs := by
        rw [← ht, Arrival.apply_recvs]
      cases hacts : x.acts with
      | nil =>
          have hnone : (t.conns i).inbound = [] := by
            rw [hconn, hacts]
            exact hin
          refine ((recvFrame_ensures_of_nil hheld hnone accepts decode).weaken_post
            (fun _ _ h => h.elim) fun e u _ hsettles => ?_) t rfl
          simp [Exchange.Settles, Exchange.outcome, Exchange.refused, hx, hacts] at hsettles
      | cons f acts =>
          have hreply := hq f (by rw [hacts]; rfl)
          cases f with
          | push p => cases hreply
          | reply p =>
              rw [hacts] at hconn
              obtain ⟨⟨rest, hinb⟩, -⟩ := hs.answer hin req p acts hconn
              refine ((recvFrame_heard hheld hinb (hk.answer hs hin req p acts hconn)).weaken_post
                (fun _ _ h => h) fun e u hread hsettles => hread ?_) t rfl
              rw [hrecvs]
              by_contra hnot
              simp [Exchange.Settles, Exchange.outcome, Exchange.refused, hx, hacts,
                ServerFrame.payload, hnot] at hsettles

/-- An exchange on a connection at rest. -/
theorem exchange_heard (accepts : ℕ → Bool) (decode : Decoder) (x : Exchange φ) (req : Request)
    (hq : Quiet x.acts) :
    Ensures (fun w => w.Connected ∧ w.Rested True ∧ w.Heard heard) (exchange accepts decode x req)
      (fun _ t => t.Heard heard)
      (fun _ t => t.Counting heard ∧ (x.Settles accepts decode → t.Heard heard)) := by
  rintro w ⟨hconn, hrest, hheard⟩
  obtain ⟨i, hi⟩ := Option.isSome_iff_exists.mp hconn
  obtain ⟨hs, hin⟩ := hrest i hi
  refine (((exchange_follows accepts decode x req w).and (exchange_heard_held hi hs
    (hin trivial) (hheard.held i hi) x req hq)).mono ?_ ?_ ?_) w rfl
  · rintro w rfl
    exact ⟨rfl, rfl⟩
  · rintro r t ⟨hfollows, hread⟩
    exact hheard.of_held hi hfollows.held hfollows.next hread
  · rintro e t ⟨hfollows, hread⟩
    exact ⟨hheard.toCounting.of_follows hfollows.held hfollows.next, fun hsettles =>
      hheard.of_held hi hfollows.held hfollows.next (hread hsettles)⟩

/-- An exchange that settles. -/
theorem exchange_settles_heard (accepts : ℕ → Bool) (decode : Decoder) (x : Exchange φ)
    (req : Request) (hq : Quiet x.acts) (hs : x.Settles accepts decode) :
    Ensures (fun w => w.Connected ∧ w.Rested True ∧ w.Heard heard) (exchange accepts decode x req)
      (fun _ t => t.Heard heard) (fun _ t => t.Heard heard) :=
  (exchange_heard accepts decode x req hq).weaken_post (fun _ _ h => h) fun _ _ h => h.2 hs

/-- How an exchange fails: with an error of the decoder, at rest, or by breaking off. -/
theorem exchange_fails (accepts : ℕ → Bool) (decode : Decoder) (x : Exchange φ) (req : Request)
    (hq : Quiet x.acts) :
    Ensures (fun w => w.Connected ∧ w.Rested True ∧ w.Heard heard) (exchange accepts decode x req)
      (fun _ t => t.Heard heard)
      (fun e t => t.Connected ∧ t.Counting heard ∧
        ((∃ d, e = .decode d ∧ x.outcome accepts decode = some (.error d) ∧ t.Heard heard) ∨
          (e.isIo = true ∧ x.outcome accepts decode = none ∧
            (∀ f, e = .fault f → x.Meets f) ∧ (x.refused = true → t.Heard heard)))) := by
  refine ((exchange_rested accepts decode x req hq).and
    (exchange_heard accepts decode x req hq)).mono (fun _ h => ⟨⟨h.1, h.2.1⟩, h⟩)
      (fun _ _ h => h.2) ?_
  rintro e t ⟨⟨hc, ⟨d, he, hd, -⟩ | ⟨hio, hnone, hmeets, -⟩⟩, hcounting, hsettles⟩
  · exact ⟨hc, hcounting, Or.inl ⟨d, he, hd, hsettles (Or.inl (by rw [hd]; rfl))⟩⟩
  · exact ⟨hc, hcounting, Or.inr ⟨hio, hnone, hmeets, fun hrefused => hsettles (Or.inr hrefused)⟩⟩

/-- The Auth exchange of the clients that leave the connection stored when it breaks off. -/
theorem authenticate_heard (accepts : ℕ → Bool) (decode : Decoder) (x : Exchange φ)
    (token : String) {closing : Client φ Unit} (hx : NoPush x.acts) (hs : x.Settles accepts decode)
    (hclose : Ensures (World.Heard heard) closing (fun _ t => t.Heard heard)
      (fun _ t => t.Heard heard)) :
    Ensures (fun w => w.Connected ∧ w.Rested True ∧ w.Heard heard)
      (do
        let resp ← exchange accepts decode x (.auth token)
        if resp = .authOk then pure ()
        else do
          closing
          throw (authFailure resp))
      (fun _ t => t.Heard heard) (fun _ t => t.Heard heard) := by
  refine Ensures.bind (exchange_settles_heard accepts decode x (.auth token)
    (fun f hf => hx f (List.mem_of_mem_head? hf)) hs) fun resp =>
      Ensures.ite (fun _ => ensures_pure _ fun _ h => h) fun _ => ?_
  exact hclose.bind fun _ => ensures_throw _ fun _ h => h

/-- A wait reads the next pushed frame, or none. -/
theorem awaitFrame_heard_held {i k : ℕ} (hi : w.held = some i) (hs : (w.conns i).Settled)
    (hk : (w.conns i).Heard k) (a : Arrival φ) (hdelivers : WaitDelivers accepts a w) :
    Ensures (· = w) (awaitFrame accepts decode a)
      (fun r t => ∃ p, (t.conns i).pushes[k]? = some p ∧ (t.conns i).Heard (k + 1) ∧
        decode p.bytes = .ok r)
      (fun _ t => (t.conns i).Heard k ∨ ∃ p err, (t.conns i).pushes[k]? = some p ∧
        (t.conns i).Heard (k + 1) ∧ decode p.bytes = .error err) := by
  rintro w rfl
  have hstep : awaitFrame accepts decode a w = recvFrame accepts decode (a.apply i w) := by
    simp only [awaitFrame, await, bind, EStateM.bind, hi]
  rw [hstep]
  have hdel := hdelivers i hi
  generalize ht : a.apply i w = t at hdel
  have hheld : t.held = some i := by
    rw [← ht]
    exact hi
  have hrecvs : t.recvs = a.recvs := by
    rw [← ht, Arrival.apply_recvs]
  have hheard : (t.conns i).Heard k := by
    obtain ⟨ps, hps, hfold⟩ := hs.foldl_serve a.acts
    rw [← ht, Arrival.apply_conns_self, hfold]
    exact hk.append_pushes fun f hf => (hps f hf).2
  rcases hheard.next with hnil | ⟨p, rest, hp, hin, hnext⟩
  · refine ((recvFrame_ensures_of_nil hheld hnil accepts decode).weaken_post
      (fun _ _ h => h.elim) ?_) t rfl
    rintro e u ⟨-, -, rs, rfl⟩
    rw [World.advance_conns_self]
    exact Or.inl hheard
  · have hread : ∀ rs, ((t.advance i (frame p).length rs).conns i).pushes[k]? = some p ∧
        ((t.advance i (frame p).length rs).conns i).Heard (k + 1) := by
      intro rs
      rw [World.advance_conns_self]
      exact ⟨hp, hnext⟩
    refine ((recvFrame_ensures hheld hin accepts decode).weaken_post ?_ ?_) t rfl
    · rintro r u ⟨hdecode, -, rs, rfl⟩
      exact ⟨p, (hread rs).1, (hread rs).2, hdecode⟩
    · rintro e u (⟨err, -, hdecode, -, rs, rfl⟩ | ⟨-, hnot, -⟩)
      · exact Or.inr ⟨p, err, (hread rs).1, (hread rs).2, hdecode⟩
      · rw [hrecvs, hdel p rest hin] at hnot
        cases hnot

/-- What a wait makes of a pushed frame is the watch event in it. -/
theorem watchEvent?_of_decode {p : Payload} {r : ClientResponse} (h : decode p.bytes = .ok r) :
    watchEvent? decode p = (acceptWatchEvent (φ := φ) r).toOption := by
  rw [watchEvent?, h]
  cases r with
  | watchEvent key value version => rfl
  | _ => rfl

/-- A wait on the connection that is held returns the watch event in the next pushed frame. -/
theorem awaitFrame_hears (accepts : ℕ → Bool) (decode : Decoder) (a : Arrival φ) :
    Ensures (fun w => w.Connected ∧ w.Rested False ∧ w.Heard heard ∧ WaitDelivers accepts a w)
      (request (awaitFrame accepts decode a) acceptWatchEvent)
      (fun res t => t.Hears decode heard (some res))
      (fun _ t => t.Heard heard ∨ t.Hears decode heard none) := by
  rintro w ⟨hconn, hrest, hheard, hdelivers⟩
  obtain ⟨i, hi⟩ := Option.isSome_iff_exists.mp hconn
  have hnext : ∀ {t : World φ} {p : Payload} {event : Option Result}, w.Follows none t →
      (t.conns i).pushes[heard i]? = some p → (t.conns i).Heard (heard i + 1) →
        watchEvent? decode p = event → t.Hears decode heard event := by
    intro t p event hfollows hp hread hevent
    refine ⟨i, p, hfollows.held.trans hi, hp, hevent, ⟨?_, ?_⟩, ?_⟩
    · intro j hj
      rw [hfollows.next]
      exact hheard.opened j (hfollows.held.symm.trans hj)
    · intro j hj
      rw [hfollows.next] at hj
      rw [Function.update_of_ne (Nat.ne_of_gt ((hheard.opened i hi).trans_le hj))]
      exact hheard.unopened j hj
    · intro j hj
      obtain rfl : i = j := Option.some.inj (hi.symm.trans (hfollows.held.symm.trans hj))
      rw [Function.update_self]
      exact hread
  refine Ensures.bind (P := (· = w)) (((awaitFrame_follows accepts decode a w).and
    (awaitFrame_heard_held hi (hrest i hi).1 (hheard.held i hi) a hdelivers)).mono ?_
      (fun _ _ h => h) ?_) (fun r => ?_) w rfl
  · rintro w rfl
    exact ⟨rfl, rfl⟩
  · rintro e t ⟨hfollows, hread | ⟨p, err, hp, hread, hdecode⟩⟩
    · exact Or.inl (hheard.of_held hi hfollows.held hfollows.next hread)
    · exact Or.inr (hnext hfollows hp hread (by rw [watchEvent?, hdecode]))
  · refine (ofExcept_ensures (acceptWatchEvent r)).weaken_post ?_ ?_
    · rintro res t ⟨⟨hfollows, p, hp, hread, hdecode⟩, haccept⟩
      refine hnext hfollows hp hread ((watchEvent?_of_decode (φ := φ) hdecode).trans ?_)
      rw [haccept]
      rfl
    · rintro e t ⟨⟨hfollows, p, hp, hread, hdecode⟩, haccept⟩
      refine Or.inr (hnext hfollows hp hread ((watchEvent?_of_decode (φ := φ) hdecode).trans ?_))
      rw [haccept]
      rfl

/-- Nothing arrives on a connection at rest when nothing is pushed. -/
theorem waitDelivers_of_rested {a : Arrival φ} (ha : NoPush a.acts) (hw : w.Rested True) :
    WaitDelivers accepts a w := by
  intro i hi p rest hin
  obtain ⟨hs, hdrained⟩ := hw i hi
  obtain ⟨ps, hps, hfold⟩ := hs.foldl_serve a.acts
  have hempty : ps = [] := by
    refine List.eq_nil_iff_forall_not_mem.mpr fun f hf => ?_
    have hreply := ha f (hps f hf).1
    rw [(hps f hf).2] at hreply
    cases hreply
  rw [Arrival.apply_conns_self, hfold, hempty, List.append_nil, hdrained trivial] at hin
  have hlen := congrArg List.length hin
  simp only [List.length_nil, List.length_append, length_frame] at hlen
  omega

/-- A connection is held: the one that was held before, or one that was just opened. -/
structure World.Reached (w t : World φ) : Prop where
  connected : t.Connected
  same : t = w ∨ w.held = none ∧ t.Rested True

theorem World.Reached.rested {t : World φ} (h : w.Reached t) (hw : w.Rested True) :
    t.Rested True := by
  rcases h.same with rfl | ⟨-, hr⟩
  · exact hw
  · exact hr

theorem World.Reached.waits {t : World φ} (h : w.Reached t) (hw : w.Rested False) {a : Arrival φ}
    (hdelivers : WaitDelivers accepts a w) (hfresh : w.held = none → NoPush a.acts) :
    t.Rested False ∧ WaitDelivers accepts a t := by
  rcases h.same with rfl | ⟨hnone, hr⟩
  · exact ⟨hw, hdelivers⟩
  · exact ⟨hr.mono False.elim, waitDelivers_of_rested (hfresh hnone) hr⟩

end Pieces

end LockStep

end DittoClient
