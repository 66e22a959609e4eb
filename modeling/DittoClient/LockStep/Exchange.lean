import DittoClient.LockStep.Reading

/-!
# Writing a frame and reading the answer

A connection is `Settled` when nothing is left over from an exchange: every frame
written on it was written completely and has been answered, the bytes read end at a
frame boundary behind all the answers, and what is still unread was pushed. On a settled
connection with nothing unread, a frame is written, the answer to it is the next frame
to be read, and the connection is settled again once this frame has been read
(`exchange_ensures`). Whether it is read completely, and what the decoder then makes of
it, is a function of the environment of the exchange (`Exchange.outcome`).
-/

namespace DittoClient

namespace LockStep

open DittoClient.Octets
open DittoClient.Protobuf
open DittoClient.Wire
open DittoClient.Program

variable {φ : Type}

namespace Connection

/-- Nothing is left over from an exchange on the connection. -/
structure Settled (c : Connection) : Prop where
  complete : ∀ w ∈ c.written, w.complete = true
  answered : c.replies.length = c.written.length
  boundary : ∃ m ≤ c.sent.length,
    c.read = (frames ((c.sent.take m).map ServerFrame.payload)).length ∧
      ∀ f ∈ c.sent.drop m, f.reply? = none

/-- The server answered the last frame that was written on the connection, completely,
and its answer decodes to `r`. The server answers in order, so this is the answer with
the number of the frame. -/
def Answers (decode : Decoder) (c : Connection) (frame : Request) (r : ClientResponse) :
    Prop :=
  ∃ before x p, c.written = before ++ [x] ∧ x.frame = frame ∧ x.complete = true ∧
    c.replies[before.countP Written.complete]? = some p ∧ decode p.bytes = .ok r

theorem settled_fresh : Settled fresh :=
  ⟨by simp [fresh], rfl, 0, Nat.zero_le _, rfl, by simp [fresh]⟩

theorem Settled.received_eq {c : Connection} (h : c.Settled) :
    c.received = c.written.length := by
  rw [received, List.countP_eq_length]
  exact h.complete

/-- What the server sends does not depend on how far the client has read. -/
theorem foldl_serve_read (acts : List ServerFrame) (c : Connection) (k : ℕ) :
    acts.foldl serve { c with read := c.read + k } =
      { acts.foldl serve c with read := (acts.foldl serve c).read + k } := by
  induction acts generalizing c with
  | nil => rfl
  | cons f acts ih =>
      have hserve : serve { c with read := c.read + k } f =
          { serve c f with read := (serve c f).read + k } := by
        cases f with
        | push p => rfl
        | reply p =>
            by_cases h : c.replies.length < c.received
            · have hsent : serve c (.reply p) = { c with sent := c.sent ++ [.reply p] } :=
                if_pos h
              rw [hsent]
              exact if_pos h
            · have hkept : serve c (.reply p) = c := if_neg h
              rw [hkept]
              exact if_neg h
      rw [List.foldl_cons, List.foldl_cons, hserve, ih]

theorem Settled.append_pushes {c : Connection} (h : c.Settled) {ps : List ServerFrame}
    (hps : ∀ f ∈ ps, f.reply? = none) : Settled { c with sent := c.sent ++ ps } := by
  obtain ⟨m, hm, hread, hunread⟩ := h.boundary
  refine ⟨h.complete, ?_, m, ?_, ?_, ?_⟩
  · rw [replies, List.filterMap_append, List.filterMap_eq_nil_iff.mpr hps, List.append_nil]
    exact h.answered
  · rw [List.length_append]
    exact Nat.le_add_right_of_le hm
  · rw [List.take_append_of_le_length hm]
    exact hread
  · intro f hf
    rw [List.drop_append_of_le_length hm] at hf
    rcases List.mem_append.mp hf with hf | hf
    · exact hunread f hf
    · exact hps f hf

/-- On a settled connection the server sends nothing but pushed frames: there is no
request to be answered. -/
theorem Settled.foldl_serve {c : Connection} (h : c.Settled) (acts : List ServerFrame) :
    ∃ ps, (∀ f ∈ ps, f ∈ acts ∧ f.reply? = none) ∧
      acts.foldl serve c = { c with sent := c.sent ++ ps } := by
  induction acts generalizing c with
  | nil => exact ⟨[], by simp, by simp⟩
  | cons f acts ih =>
      cases f with
      | reply p =>
          have hserve : serve c (.reply p) = c := by
            rw [serve, if_neg (by rw [h.answered, h.received_eq]; exact lt_irrefl _)]
          obtain ⟨ps, hps, heq⟩ := ih h
          refine ⟨ps, fun f hf => ⟨List.mem_cons_of_mem _ (hps f hf).1, (hps f hf).2⟩, ?_⟩
          rw [List.foldl_cons, hserve, heq]
      | push p =>
          have hpush : ∀ f ∈ [ServerFrame.push p], f.reply? = none := by
            simp [ServerFrame.reply?]
          obtain ⟨ps, hps, heq⟩ := ih (h.append_pushes hpush)
          refine ⟨.push p :: ps, ?_, ?_⟩
          · intro f hf
            rcases List.mem_cons.mp hf with rfl | hf
            · exact ⟨List.mem_cons_self, rfl⟩
            · exact ⟨List.mem_cons_of_mem _ (hps f hf).1, (hps f hf).2⟩
          · rw [List.foldl_cons, serve, heq, List.append_assoc]
            rfl

/-- What is inbound on a settled connection: the frames behind a boundary, all of them
pushed. -/
theorem Settled.inbound_eq {c : Connection} (h : c.Settled) :
    ∃ m ≤ c.sent.length,
      c.read = (frames ((c.sent.take m).map ServerFrame.payload)).length ∧
        c.inbound = frames ((c.sent.drop m).map ServerFrame.payload) ∧
          ∀ f ∈ c.sent.drop m, f.reply? = none := by
  obtain ⟨m, hm, hread, hunread⟩ := h.boundary
  refine ⟨m, hm, hread, ?_, hunread⟩
  rw [inbound, hread, List.map_take, stream, drop_frames_take, List.map_drop]

/-- When nothing is inbound, everything the server sent has been read. -/
theorem Settled.read_eq {c : Connection} (h : c.Settled) (hin : c.inbound = []) :
    c.read = c.stream.length := by
  obtain ⟨m, hm, hread, hdrop, -⟩ := h.inbound_eq
  have hlen : (frames ((c.sent.drop m).map ServerFrame.payload)).length = 0 := by
    rw [← hdrop, hin, List.length_nil]
  conv_rhs => rw [stream, ← List.take_append_drop m c.sent, List.map_append,
    frames_append, List.length_append, hlen, Nat.add_zero]
  exact hread

/-- The first frame inbound on a settled connection was pushed, and the connection is
settled when it has been read. -/
theorem Settled.next {c : Connection} (h : c.Settled) :
    c.inbound = [] ∨ ∃ p rest, c.inbound = frame p ++ rest ∧ .push p ∈ c.sent ∧
      Settled { c with read := c.read + (frame p).length } := by
  obtain ⟨m, hm, hread, hin, hunread⟩ := h.inbound_eq
  cases hd : c.sent.drop m with
  | nil => exact Or.inl (by rw [hin, hd]; rfl)
  | cons f fs =>
      have hlt : m < c.sent.length := by
        by_contra hge
        rw [List.drop_of_length_le (Nat.le_of_not_lt hge)] at hd
        cases hd
      have hf : f ∈ c.sent.drop m := by
        rw [hd]
        exact List.mem_cons_self
      have hget : c.sent[m] = f ∧ c.sent.drop (m + 1) = fs := by
        rw [List.drop_eq_getElem_cons hlt] at hd
        exact List.cons.inj hd
      cases f with
      | reply p => cases hunread _ hf
      | push p =>
          refine Or.inr ⟨p, frames (fs.map ServerFrame.payload), ?_,
            List.mem_of_mem_drop hf, ?_⟩
          · rw [hin, hd]
            rfl
          · refine ⟨h.complete, h.answered, m + 1, hlt, ?_, ?_⟩
            · rw [List.take_succ_eq_append_getElem hlt, hget.1, List.map_append,
                frames_append, List.length_append, ← hread]
              simp [ServerFrame.payload]
            · intro g hg
              refine hunread g ?_
              rw [hd]
              refine List.mem_cons_of_mem _ ?_
              rw [← hget.2]
              exact hg

/-- A frame is written on a settled connection with nothing inbound, and the answer `p`
is the next frame the server sends: it is at the front of what is inbound, and once it is
read the connection is settled. -/
theorem Settled.answer {c : Connection} (h : c.Settled) (hin : c.inbound = [])
    (req : Request) (p : Payload) (acts : List ServerFrame) {c' : Connection}
    (hc' : c' = (ServerFrame.reply p :: acts).foldl serve (c.write req true)) :
    (∃ rest, c'.inbound = frame p ++ rest) ∧
      c'.written = c.written ++ [⟨req, true, c.sent.length⟩] ∧ c'.replies = c.replies ++ [p] ∧
      Settled { c' with read := c'.read + (frame p).length } ∧
      ((∀ f ∈ acts, f.reply?.isSome = true) → c'.inbound = frame p) := by
  have hread := h.read_eq hin
  -- the connection when the answer has arrived, and the same once it has been read
  let c₁ : Connection :=
    { c with written := c.written ++ [⟨req, true, c.sent.length⟩],
             sent := c.sent ++ [.reply p] }
  have hfirst : serve (c.write req true) (.reply p) = c₁ := by
    refine if_pos ?_
    have hlt : c.replies.length < (c.write req true).received := by
      have hreceived := h.received_eq
      rw [received] at hreceived
      rw [received, write, List.countP_append, hreceived, h.answered]
      simp
    exact hlt
  have h₁ : Settled { c₁ with read := c₁.read + (frame p).length } := by
    refine ⟨?_, ?_, c₁.sent.length, le_refl _, ?_, ?_⟩
    · intro w hw
      rcases List.mem_append.mp hw with hw | hw
      · exact h.complete w hw
      · rw [List.mem_singleton.mp hw]
    · simpa [c₁, replies, ServerFrame.reply?] using h.answered
    · rw [List.take_length]
      simp only [c₁, List.map_append, frames_append, List.length_append, hread, stream]
      simp [ServerFrame.payload]
    · simp [c₁]
  obtain ⟨ps, hps, hfold⟩ := h₁.foldl_serve acts
  have hboth : { c' with read := c'.read + (frame p).length } =
      { c₁ with read := c₁.read + (frame p).length, sent := c₁.sent ++ ps } := by
    rw [hc', List.foldl_cons, hfirst, ← foldl_serve_read]
    exact hfold
  obtain ⟨hwritten, hsent, hreads, -⟩ := Connection.mk.injEq .. ▸ hboth
  have hreads : c'.read = c.read := Nat.add_right_cancel hreads
  have hinbound : c'.inbound = frame p ++ frames (ps.map ServerFrame.payload) := by
    rw [inbound, hreads, stream, hsent]
    simp only [c₁, hread, List.map_append, frames_append, List.append_assoc]
    rw [stream, List.drop_left]
    simp [ServerFrame.payload]
  refine ⟨⟨_, hinbound⟩, hwritten, ?_, ?_, ?_⟩
  · rw [replies, hsent, List.filterMap_append,
      List.filterMap_eq_nil_iff.mpr fun f hf => (hps f hf).2]
    simp [c₁, replies, ServerFrame.reply?]
  · rw [hboth]
    exact h₁.append_pushes fun f hf => (hps f hf).2
  · intro hacts
    have hnil : ps = [] := by
      refine List.eq_nil_iff_forall_not_mem.mpr fun f hf => ?_
      have hsome := hacts f (hps f hf).1
      rw [(hps f hf).2] at hsome
      cases hsome
    rw [hinbound, hnil]
    simp

/-- The connection is settled, and nothing is inbound if nothing was pushed. -/
def Rested (noPush : Prop) (c : Connection) : Prop :=
  c.Settled ∧ (noPush → c.inbound = [])

end Connection

/-- No frame is pushed ahead of the first answer. -/
abbrev Quiet (acts : List ServerFrame) : Prop :=
  ∀ f ∈ acts.head?, f.reply?.isSome = true

/-- No frame is pushed. -/
abbrev NoPush (acts : List ServerFrame) : Prop :=
  ∀ f ∈ acts, f.reply?.isSome = true

/-- What an exchange comes to: when the frame is written, the server sends a frame and the
receive calls deliver it, what the decoder makes of this frame. -/
def Exchange.outcome (accepts : ℕ → Bool) (decode : Decoder) (x : Exchange φ) :
    Option (Except DecodeError ClientResponse) :=
  match x.write, x.acts with
  | .ok, f :: _ =>
      if delivers accepts x.recvs f.payload.bytes.length then some (decode f.payload.bytes)
      else none
  | _, _ => none

/-- Whether an exchange fails before any byte of the frame is written. -/
def Exchange.refused (x : Exchange φ) : Bool :=
  match x.write with
  | .refused _ => true
  | _ => false

/-- Whether the environment of an exchange contains the failure `f`. -/
def Exchange.Meets (x : Exchange φ) (f : φ) : Prop :=
  (∃ complete, x.write = .failed complete f) ∨ x.write = .refused f ∨ .fail f ∈ x.recvs

/-- Write a frame and read the answer. -/
def exchange (accepts : ℕ → Bool) (decode : Decoder) (x : Exchange φ) (frame : Request) :
    Client φ ClientResponse := do
  sendall x frame
  recvFrame accepts decode

/-- Wait for a frame that answers nothing. -/
def awaitFrame (accepts : ℕ → Bool) (decode : Decoder) (a : Arrival φ) :
    Client φ ClientResponse := do
  await a
  recvFrame accepts decode

section

variable {w : World φ} {i : ℕ} (accepts : ℕ → Bool) (decode : Decoder)

/-- An exchange on a settled connection with nothing inbound returns the answer to its
frame, decoded. It leaves the connection settled when it returns and when it fails in the
decoder or before anything is written. -/
theorem exchange_ensures (hw : w.held = some i) (hs : (w.conns i).Settled)
    (hin : (w.conns i).inbound = []) (x : Exchange φ) (req : Request)
    (hq : Quiet x.acts) :
    Ensures (· = w) (exchange accepts decode x req)
      (fun r t => t.held = some i ∧ x.outcome accepts decode = some (.ok r) ∧
        (t.conns i).Answers decode req r ∧ (t.conns i).Rested (NoPush x.acts))
      (fun e t => t.held = some i ∧
        ((∃ d, e = .decode d ∧ x.outcome accepts decode = some (.error d) ∧
            (t.conns i).Rested (NoPush x.acts)) ∨
          (e.isIo = true ∧ x.outcome accepts decode = none ∧
            (∀ f, e = .fault f → x.Meets f) ∧
              (x.refused = true → (t.conns i).Rested (NoPush x.acts))))) := by
  rintro w rfl
  cases hx : x.write with
  | refused f =>
      simp only [exchange, sendall, bind, EStateM.bind, hw, hx]
      refine ⟨trivial, Or.inr ⟨rfl, by simp [Exchange.outcome, hx], ?_,
        fun _ => ⟨hs, fun _ => hin⟩⟩⟩
      rintro g ⟨⟩
      exact Or.inr (Or.inl hx)
  | failed complete f =>
      simp only [exchange, sendall, bind, EStateM.bind, hw, hx]
      refine ⟨by simpa using hw, Or.inr ⟨rfl, by simp [Exchange.outcome, hx], ?_, ?_⟩⟩
      · rintro g ⟨⟩
        exact Or.inl ⟨complete, hx⟩
      · simp [Exchange.refused, hx]
  | ok =>
      have hstep : exchange accepts decode x req w =
          recvFrame accepts decode
            (x.toArrival.apply i (w.update i fun c => c.write req true)) := by
        simp only [exchange, sendall, bind, EStateM.bind, hw, hx]
      have hrefused : x.refused = false := by
        simp [Exchange.refused, hx]
      rw [hstep, hrefused]
      generalize ht : x.toArrival.apply i (w.update i fun c => c.write req true) = t
      have hheld : t.held = some i := by
        rw [← ht]
        exact hw
      have hconn : t.conns i = x.acts.foldl Connection.serve ((w.conns i).write req true) := by
        rw [← ht, Arrival.apply_conns_self, World.update_conns_self]
      have hrecvs : t.recvs = x.recvs := by
        rw [← ht, Arrival.apply_recvs]
      cases hacts : x.acts with
      | nil =>
          have hnone : (t.conns i).inbound = [] := by
            rw [hconn, hacts]
            exact hin
          refine ((recvFrame_ensures_of_nil hheld hnone accepts decode).weaken_post
            (fun _ _ h => h.elim) ?_) t rfl
          rintro e u ⟨hio, hfault, rs, hu⟩
          rw [hrecvs] at hfault
          refine ⟨by rw [hu]; exact hheld, Or.inr ⟨hio, ?_, ?_, by simp⟩⟩
          · simp [Exchange.outcome, hx, hacts]
          · exact fun f hf => Or.inr (Or.inr (hfault f hf))
      | cons f acts =>
          cases f with
          | push p =>
              have hpush := hq (.push p) (by rw [hacts]; rfl)
              cases hpush
          | reply p =>
              rw [hacts] at hconn
              obtain ⟨⟨rest, hinb⟩, hwritten, hreplies, hsettled, hdrained⟩ :=
                hs.answer hin req p acts hconn
              have hrested : ∀ rs, ((t.advance i (frame p).length rs).conns i).Rested
                  (NoPush (.reply p :: acts)) := by
                intro rs
                refine ⟨by rw [World.advance_conns_self]; exact hsettled, fun hno => ?_⟩
                rw [World.advance_inbound,
                  hdrained fun f hf => hno f (List.mem_cons_of_mem _ hf), List.drop_length]
              have houtcome : x.outcome accepts decode =
                  if delivers accepts t.recvs p.bytes.length then some (decode p.bytes)
                  else none := by
                rw [hrecvs, Exchange.outcome, hx, hacts]
                rfl
              rw [houtcome]
              refine ((recvFrame_ensures hheld hinb accepts decode).weaken_post ?_ ?_) t rfl
              · rintro r u ⟨hdecode, hdel, rs, hu⟩
                refine ⟨by rw [hu]; exact hheld, by rw [if_pos hdel, hdecode], ?_,
                  by rw [hu]; exact hrested rs⟩
                have hlast : (u.conns i).written =
                    (w.conns i).written ++ [⟨req, true, (w.conns i).sent.length⟩] := by
                  rw [hu, World.advance_conns_self]
                  exact hwritten
                refine ⟨(w.conns i).written, _, p, hlast, rfl, rfl, ?_, hdecode⟩
                have hcount : (w.conns i).written.countP Written.complete =
                    (w.conns i).replies.length := by
                  rw [hs.answered]
                  exact hs.received_eq
                have hsame : ((t.advance i (frame p).length rs).conns i).replies =
                    (w.conns i).replies ++ [p] := by
                  rw [World.advance_conns_self]
                  exact hreplies
                rw [hu, hsame, hcount, List.getElem?_concat_length]
              · rintro e u (⟨d, he, hdecode, hdel, rs, hu⟩ | ⟨hio, hdel, hfault, k, rs, hu⟩)
                · refine ⟨by rw [hu]; exact hheld, Or.inl ⟨d, he, ?_, ?_⟩⟩
                  · rw [if_pos hdel, hdecode]
                  · rw [hu]
                    exact hrested rs
                · rw [hrecvs] at hfault
                  refine ⟨by rw [hu]; exact hheld, Or.inr ⟨hio, ?_, ?_, by simp⟩⟩
                  · simp [hdel]
                  · exact fun f hf => Or.inr (Or.inr (hfault f hf))

/-- A wait on a settled connection leaves it settled, provided a frame that has begun to
be read is read to its end. What it returns is a pushed frame. -/
theorem awaitFrame_ensures (hw : w.held = some i) (hs : (w.conns i).Settled)
    (a : Arrival φ)
    (hdel : ∀ p rest, ((a.apply i w).conns i).inbound = frame p ++ rest →
      delivers accepts a.recvs p.bytes.length = true) :
    Ensures (· = w) (awaitFrame accepts decode a)
      (fun r t => t.held = some i ∧ (t.conns i).Settled ∧
        ((a.apply i w).conns i).inbound ≠ [] ∧
          ∃ p, .push p ∈ (t.conns i).sent ∧ decode p.bytes = .ok r)
      (fun _ t => t.held = some i ∧ (t.conns i).Settled ∧
        (((a.apply i w).conns i).inbound = [] → (t.conns i).inbound = [])) := by
  rintro w rfl
  have hstep : awaitFrame accepts decode a w = recvFrame accepts decode (a.apply i w) := by
    simp only [awaitFrame, await, bind, EStateM.bind, hw]
  rw [hstep]
  generalize ht : a.apply i w = t at hdel
  have hheld : t.held = some i := by
    rw [← ht]
    exact hw
  have hrecvs : t.recvs = a.recvs := by
    rw [← ht, Arrival.apply_recvs]
  have hsettled : (t.conns i).Settled := by
    obtain ⟨ps, hps, hfold⟩ := hs.foldl_serve a.acts
    rw [← ht, Arrival.apply_conns_self, hfold]
    exact hs.append_pushes fun f hf => (hps f hf).2
  rcases hsettled.next with hnil | ⟨p, rest, hin, hmem, hnext⟩
  · refine ((recvFrame_ensures_of_nil hheld hnil accepts decode).weaken_post
      (fun _ _ h => h.elim) ?_) t rfl
    rintro e u ⟨-, -, rs, hu⟩
    rw [hu, World.advance_conns_self]
    exact ⟨hheld, hsettled, fun _ => hnil⟩
  · have hne : (t.conns i).inbound ≠ [] := by
      rw [hin]
      exact List.append_ne_nil_of_left_ne_nil (List.ne_nil_of_length_pos (by simp)) _
    have hread : ∀ rs, ((t.advance i (frame p).length rs).conns i).Settled := by
      intro rs
      rw [World.advance_conns_self]
      exact hnext
    refine ((recvFrame_ensures hheld hin accepts decode).weaken_post ?_ ?_) t rfl
    · rintro r u ⟨hdecode, -, rs, hu⟩
      refine ⟨by rw [hu]; exact hheld, by rw [hu]; exact hread rs, hne, p, ?_, hdecode⟩
      rw [hu, World.advance_conns_self]
      exact hmem
    · rintro e u (⟨-, -, -, -, rs, hu⟩ | ⟨-, hnot, -⟩)
      · exact ⟨by rw [hu]; exact hheld, by rw [hu]; exact hread rs, fun h => absurd h hne⟩
      · rw [hrecvs, hdel p rest hin] at hnot
        cases hnot

end

end LockStep

end DittoClient
