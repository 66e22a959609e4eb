import DittoClient.LockStep.Traffic

/-!
# Which payload is read

Whatever is inbound, at a frame boundary or not, reading a frame takes four bytes as a
length and that many bytes as the payload. `payload` computes from the inbound bytes and
the outcomes of the receive calls which payload that is, if it is read to its end; so what
is handed to the decoder is a function of the inputs of a call and of the connection before
it.
-/

namespace DittoClient

namespace LockStep

open DittoClient.Octets
open DittoClient.Protobuf
open DittoClient.Wire
open DittoClient.Program

variable {φ : Type}

/-- The payload that is read from the front of the inbound bytes. -/
def payload (accepts : ℕ → Bool) (rs : List (Recv φ)) (inbound : List UInt8) :
    Option (List UInt8) :=
  let len := ofBigEndian (inbound.take 4)
  if 4 + len ≤ inbound.length ∧ delivers accepts rs len = true then
    some ((inbound.drop 4).take len)
  else none

/-- The connection when the answer to a frame that was written is waited for. -/
def Exchange.awaiting (x : Exchange φ) (frame : Request) (c : Connection) : Connection :=
  x.acts.foldl Connection.serve (c.write frame true)

/-- The payload that is read in an exchange. -/
def Exchange.payload (accepts : ℕ → Bool) (x : Exchange φ) (frame : Request) (c : Connection) :
    Option (List UInt8) :=
  match x.write with
  | .ok => LockStep.payload accepts x.recvs (x.awaiting frame c).inbound
  | _ => none

/-- The connection after an exchange in which a payload of `len` bytes was read. -/
def Exchange.after (x : Exchange φ) (frame : Request) (len : ℕ) (c : Connection) : Connection :=
  { x.awaiting frame c with read := (x.awaiting frame c).read + (4 + len) }

/-- The payload that is read while nothing is asked for. -/
def Arrival.payload (accepts : ℕ → Bool) (a : Arrival φ) (c : Connection) :
    Option (List UInt8) :=
  LockStep.payload accepts a.recvs (a.acts.foldl Connection.serve c).inbound

section

variable {w : World φ} {i : ℕ} (accepts : ℕ → Bool) (decode : Decoder)

/-- What is returned or thrown after reading a frame is what the decoder makes of the
payload that is read; or the transport failed. -/
theorem recvFrame_payload (hw : w.held = some i) :
    Ensures (· = w) (recvFrame accepts decode)
      (fun r t => ∃ bs, payload accepts w.recvs (w.conns i).inbound = some bs ∧
        decode bs = .ok r ∧ ∃ rs, t = w.advance i (4 + bs.length) rs)
      (fun e _ => (∃ bs d, payload accepts w.recvs (w.conns i).inbound = some bs ∧
        decode bs = .error d ∧ e = .decode d) ∨ e.isIo = true) := by
  refine Ensures.bind ((recvn_ensures hw 4).weaken_post (fun _ _ h => h)
    fun _ _ h => Or.inr h.1) fun header => ?_
  rintro t ⟨rs, ht, -, hheader, hfour, hdeliver⟩
  simp only [List.length_nil, Nat.sub_zero, List.nil_append] at ht hheader hfour hdeliver
  have hheld : t.held = some i := by
    rw [ht]
    exact hw
  have hin : (t.conns i).inbound = (w.conns i).inbound.drop 4 := by
    rw [ht, World.advance_inbound]
  refine Ensures.ite (P := (· = t)) (fun hacc => ?_) (fun _ => ensures_throw _ fun _ _ =>
    Or.inr rfl) t rfl
  refine Ensures.bind ((recvn_ensures hheld (ofBigEndian header)).weaken_post
    (fun _ _ h => h) fun _ _ h => Or.inr h.1) fun bs => ?_
  rintro u ⟨rs', hu, -, hbs, hroom, hall⟩
  simp only [List.length_nil, Nat.sub_zero, List.nil_append] at hu hbs hroom hall
  have hrecvs : t.recvs = rs := by
    rw [ht, World.advance_recvs]
  have hlength : bs.length = ofBigEndian header := by
    rw [hbs, List.length_take, Nat.min_eq_left hroom]
  have hpayload : payload accepts w.recvs (w.conns i).inbound = some bs := by
    rw [hin, List.length_drop] at hroom
    rw [hrecvs] at hall
    have hdelivers : delivers accepts w.recvs (ofBigEndian header) = true := by
      simp [delivers, hdeliver, hacc, hall]
    rw [hheader] at hroom hdelivers
    simp only [payload]
    rw [if_pos ⟨by omega, hdelivers⟩, hbs, hin, hheader]
  cases hd : decode bs with
  | ok r =>
      exact ⟨bs, hpayload, hd, rs', by
        rw [hu, ht, World.advance_advance, hlength]⟩
  | error d => exact Or.inl ⟨bs, d, hpayload, hd, rfl⟩

/-- What is returned or thrown after an exchange. -/
theorem exchange_payload (hw : w.held = some i) (x : Exchange φ) (frame : Request) :
    Ensures (· = w) (exchange accepts decode x frame)
      (fun r t => ∃ bs, x.payload accepts frame (w.conns i) = some bs ∧ decode bs = .ok r ∧
        t.held = some i ∧ t.conns i = x.after frame bs.length (w.conns i))
      (fun e _ => (∃ bs d, x.payload accepts frame (w.conns i) = some bs ∧
        decode bs = .error d ∧ e = .decode d) ∨ e.isIo = true) := by
  rintro w rfl
  simp only [exchange, bind, EStateM.bind, sendall, hw]
  cases hx : x.write with
  | failed complete f => exact Or.inr rfl
  | refused f => exact Or.inr rfl
  | ok =>
      dsimp only
      have hread := recvFrame_payload accepts decode
        (show (x.toArrival.apply i (w.update i fun c => c.write frame true)).held = some i from hw)
        _ rfl
      have hconn : (x.toArrival.apply i (w.update i fun c => c.write frame true)).conns i =
          x.awaiting frame (w.conns i) := by
        rw [Arrival.apply_conns_self, World.update_conns_self]
        rfl
      rw [hconn] at hread
      cases hr : recvFrame accepts decode
          (x.toArrival.apply i (w.update i fun c => c.write frame true)) with
      | ok r t =>
          rw [hr] at hread
          obtain ⟨bs, hbs, hd, rs, ht⟩ := hread
          refine ⟨bs, by simpa [Exchange.payload, hx] using hbs, hd, by rw [ht]; exact hw, ?_⟩
          rw [ht, World.advance_conns_self, hconn]
          rfl
      | error e t =>
          rw [hr] at hread
          rcases hread with ⟨bs, d, hbs, hd⟩ | hio
          · exact Or.inl ⟨bs, d, by simpa [Exchange.payload, hx] using hbs, hd⟩
          · exact Or.inr hio

/-- What is returned or thrown after a wait. -/
theorem awaitFrame_payload (hw : w.held = some i) (a : Arrival φ) :
    Ensures (· = w) (awaitFrame accepts decode a)
      (fun r _ => ∃ bs, a.payload accepts (w.conns i) = some bs ∧ decode bs = .ok r)
      (fun e _ => (∃ bs d, a.payload accepts (w.conns i) = some bs ∧
        decode bs = .error d ∧ e = .decode d) ∨ e.isIo = true) := by
  rintro w rfl
  simp only [awaitFrame, bind, EStateM.bind, await, hw]
  have hread := recvFrame_payload accepts decode (show (a.apply i w).held = some i from hw) _ rfl
  rw [Arrival.apply_conns_self, Arrival.apply_recvs] at hread
  cases hr : recvFrame accepts decode (a.apply i w) with
  | ok r t =>
      rw [hr] at hread
      obtain ⟨bs, hbs, hd, -⟩ := hread
      exact ⟨bs, hbs, hd⟩
  | error e t =>
      rw [hr] at hread
      exact hread

end

end LockStep

end DittoClient
