import DittoClient.LockStep.Connection
import DittoClient.Program.Ensures

/-!
# Reading one frame

The receive loop takes the bytes it returns from the front of what is inbound, and when
it fails it has taken at most what was inbound (`recvnLoop_ensures`). Reading a frame
therefore consumes exactly the first frame that is inbound, or fails in the middle of it
(`recvFrame_ensures`); when nothing is inbound it fails without consuming anything.
`deliver` says on the outcomes of the receive calls alone whether a given number of bytes
gets through, so whether a frame is read completely is a condition on the inputs
(`delivers`).
-/

namespace DittoClient

namespace LockStep

open DittoClient.Octets
open DittoClient.Protobuf
open DittoClient.Wire
open DittoClient.Program

variable {φ : Type}

/-- A failure of the transport, as opposed to a frame that was read completely and is
refused: in Python the `OSError` family, which includes the error for an oversized
frame. -/
def Failure.isIo : Failure φ → Bool
  | .fault _ => true
  | .timeout => true
  | .closedByServer => true
  | .frameTooLarge _ => true
  | _ => false

/-- What is left of the outcomes of the receive calls once `n` bytes have come through,
if they do. -/
def deliver : List (Recv φ) → ℕ → Option (List (Recv φ))
  | rs, 0 => some rs
  | .chunk extra :: rs, n + 1 => deliver rs (n - extra)
  | _, _ + 1 => none

theorem Connection.inbound_read_add (c : Connection) (k : ℕ) :
    ({ c with read := c.read + k } : Connection).inbound = c.inbound.drop k := by
  simp [Connection.inbound, Connection.stream, List.drop_drop]

theorem World.advance_inbound (w : World φ) (i k : ℕ) (rs : List (Recv φ)) :
    ((w.advance i k rs).conns i).inbound = (w.conns i).inbound.drop k := by
  rw [World.advance_conns_self, Connection.inbound_read_add]

@[simp] theorem deliver_zero (rs : List (Recv φ)) : deliver rs 0 = some rs := by
  cases rs with
  | nil => rfl
  | cons r rs => cases r <;> rfl

theorem deliver_chunk (extra : ℕ) (rs : List (Recv φ)) {n : ℕ} (hn : 0 < n) :
    deliver (.chunk extra :: rs) n = deliver rs (n - (extra + 1)) := by
  obtain ⟨n, rfl⟩ := Nat.exists_eq_succ_of_ne_zero (Nat.pos_iff_ne_zero.mp hn)
  rw [deliver, Nat.succ_eq_add_one, Nat.add_sub_add_right]

/-- Nothing comes through when the next receive call does not return bytes. -/
theorem deliver_of_not_chunk {rs : List (Recv φ)} {n : ℕ} (hn : 0 < n)
    (hrs : ∀ extra tail, rs ≠ .chunk extra :: tail) : deliver rs n = none := by
  obtain ⟨n, rfl⟩ := Nat.exists_eq_succ_of_ne_zero (Nat.pos_iff_ne_zero.mp hn)
  cases rs with
  | nil => rfl
  | cons r rs =>
      cases r with
      | chunk extra => exact absurd rfl (hrs extra rs)
      | eof => rfl
      | fail f => rfl

/-- One receive call returns the next bytes that are inbound, at most as many as asked
for; or it returns or throws without having taken any. -/
theorem sockRecv_ensures {w : World φ} {i n : ℕ} (hw : w.held = some i) (hn : 0 < n) :
    Ensures (· = w) (sockRecv n)
      (fun got t =>
        (got = [] ∧ (∃ rs, t = w.advance i 0 rs) ∧ deliver w.recvs n = none) ∨
        ∃ extra rs, w.recvs = .chunk extra :: rs ∧ got ≠ [] ∧
          got = (w.conns i).inbound.take (min (extra + 1) n) ∧
          t = w.advance i got.length rs)
      (fun e t => e.isIo = true ∧ (∀ f, e = .fault f → .fail f ∈ w.recvs) ∧
        (∃ rs, t = w.advance i 0 rs) ∧
        (deliver w.recvs n = none ∨ (w.conns i).inbound = [])) := by
  rintro w rfl
  have hkeep : ∃ rs, w = w.advance i 0 rs := ⟨w.recvs, (World.advance_zero w i).symm⟩
  have hpop : ∀ rs, ∃ rs', ({ w with recvs := rs } : World φ) = w.advance i 0 rs' :=
    fun rs => ⟨rs, by simp [World.advance, World.update]⟩
  simp only [sockRecv, hw]
  cases hr : w.recvs with
  | nil => exact ⟨rfl, by simp, hkeep, Or.inl (deliver_of_not_chunk hn (by simp))⟩
  | cons r rs =>
      cases r with
      | fail f =>
          exact ⟨rfl, by simp, by simpa only [hw] using hpop rs,
            Or.inl (deliver_of_not_chunk hn (by simp))⟩
      | eof =>
          exact Or.inl ⟨rfl, by simpa only [hw] using hpop rs,
            deliver_of_not_chunk hn (by simp)⟩
      | chunk extra =>
          by_cases hgot : (w.conns i).inbound.take (min (extra + 1) n) = []
          · have hempty : (w.conns i).inbound = [] := by
              rcases List.take_eq_nil_iff.mp hgot with h | h
              · omega
              · exact h
            simp only [if_pos hgot]
            exact ⟨rfl, by simp, hkeep, Or.inr hempty⟩
          · simp only [if_neg hgot]
            exact Or.inr ⟨extra, rs, rfl, hgot, rfl, rfl⟩

/-- What the receive loop has done when it returns `bs` on top of `data`, out of `n`
bytes: it took the missing bytes from the front of what was inbound in `w`. -/
def Received (w : World φ) (i n : ℕ) (data bs : List UInt8) (t : World φ) : Prop :=
  ∃ rs, t = w.advance i (n - data.length) rs ∧ rs ⊆ w.recvs ∧
    bs = data ++ (w.conns i).inbound.take (n - data.length) ∧
    n - data.length ≤ (w.conns i).inbound.length ∧
    deliver w.recvs (n - data.length) = some rs

/-- What a read of `need` more bytes has done when it fails: it took at most what was
inbound in `w`, and either the receive calls or the inbound bytes did not suffice. -/
def Interrupted (w : World φ) (i need : ℕ) (e : Failure φ) (t : World φ) : Prop :=
  e.isIo = true ∧ (∀ f, e = .fault f → .fail f ∈ w.recvs) ∧
    (∃ k rs, k ≤ (w.conns i).inbound.length ∧ t = w.advance i k rs) ∧
    (deliver w.recvs need = none ∨ (w.conns i).inbound.length < need)

theorem received_of_le (w : World φ) (i : ℕ) {n : ℕ} {data : List UInt8}
    (h : n ≤ data.length) : Received w i n data data w := by
  have hn : n - data.length = 0 := Nat.sub_eq_zero_of_le h
  refine ⟨w.recvs, ?_, ?_, ?_, ?_, ?_⟩ <;> simp [hn]

/-- The first `j` of `k` bytes are taken by one receive call and the others later. -/
theorem take_eq_take_append {l got : List UInt8} {j k : ℕ} (hj : got = l.take j)
    (hk : got.length ≤ k) : l.take k = got ++ (l.drop got.length).take (k - got.length) := by
  have hgot : l.take got.length = got := by
    rw [hj, List.length_take, List.take_eq_take_iff]
    omega
  conv_lhs => rw [← Nat.add_sub_of_le hk, List.take_add, hgot]

/-- The receive loop returns the next bytes that are inbound, or fails having taken at
most what is inbound. It succeeds when enough is inbound and the receive calls deliver
it. The induction is on the bound of the number of calls. -/
theorem recvnLoop_ensures {i : ℕ} (fuel n : ℕ) (data : List UInt8) (w : World φ)
    (hw : w.held = some i) (hlen : data.length ≤ n) (hfuel : n ≤ fuel + data.length) :
    Ensures (· = w) (recvnLoop fuel n data) (Received w i n data)
      (Interrupted w i (n - data.length)) := by
  induction fuel generalizing data w with
  | zero =>
      rw [recvnLoop]
      refine ensures_pure _ ?_
      rintro w rfl
      exact received_of_le w i (by omega)
  | succ fuel ih =>
      rw [recvnLoop]
      refine Ensures.ite (fun hlt => ?_) fun hge => ensures_pure _ ?_
      · have hpos : 0 < n - data.length := Nat.sub_pos_of_lt hlt
        refine Ensures.bind ((sockRecv_ensures hw hpos).weaken_post (fun _ _ h => h) ?_)
          fun got => ?_
        · rintro e t ⟨hio, hfault, ⟨rs, ht⟩, hwhy⟩
          refine ⟨hio, hfault, ⟨0, rs, Nat.zero_le _, ht⟩, hwhy.imp_right fun h => ?_⟩
          rwa [h]
        · refine Ensures.ite (fun hnil => ensures_throw _ ?_) fun hne => ?_
          · rintro t (⟨-, ⟨rs, ht⟩, hnone⟩ | ⟨_, _, _, hne, _⟩)
            · exact ⟨rfl, by simp, ⟨0, rs, Nat.zero_le _, ht⟩, Or.inl hnone⟩
            · exact absurd hnil hne
          · rintro t (⟨hnil, -⟩ | ⟨extra, rs, hr, -, hgot, ht⟩)
            · exact absurd hnil hne
            have hle : got.length ≤ n - data.length := by
              rw [hgot, List.length_take]
              omega
            have hlength : got.length =
                min (min (extra + 1) (n - data.length)) (w.conns i).inbound.length := by
              rw [hgot, List.length_take]
            have hrest := ih (data ++ got) t (by rw [ht]; exact hw)
              (by rw [List.length_append]; omega)
              (by
                have : 0 < got.length := List.length_pos_iff.mpr hne
                rw [List.length_append]
                omega)
            have hinb : (t.conns i).inbound = (w.conns i).inbound.drop got.length := by
              rw [ht, World.advance_inbound]
            have hneed : n - (data ++ got).length = n - data.length - got.length := by
              rw [List.length_append]
              omega
            have hdel : got.length = min (extra + 1) (n - data.length) →
                deliver w.recvs (n - data.length) =
                  deliver t.recvs (n - data.length - got.length) := by
              intro h
              rw [hr, deliver_chunk extra rs hpos, ht, World.advance_recvs]
              congr 1
              omega
            have hsub : t.recvs ⊆ w.recvs := by
              rw [ht, hr]
              exact List.subset_cons_self _ _
            refine (hrest.weaken_post ?_ ?_) t rfl
            · rintro bs u ⟨rs', hu, hsub', hbs, hroom, hall⟩
              rw [hneed] at hu hbs hroom hall
              rw [hinb] at hbs hroom
              rw [List.length_drop] at hroom
              refine ⟨rs', ?_, fun r hr => hsub (hsub' hr), ?_, by omega, ?_⟩
              · rw [hu, ht, World.advance_advance, Nat.add_sub_of_le hle]
              · rw [hbs, List.append_assoc, ← take_eq_take_append hgot hle]
              · rw [hdel (by omega)]
                exact hall
            · rintro e u ⟨hio, hfault, ⟨k, rs', hk, hu⟩, hwhy⟩
              rw [hneed, hinb, List.length_drop] at hwhy
              rw [hinb, List.length_drop] at hk
              refine ⟨hio, fun f hf => hsub (hfault f hf),
                ⟨got.length + k, rs', by omega, ?_⟩, ?_⟩
              · rw [hu, ht, World.advance_advance]
              · rcases hwhy with hnone | hshort
                · by_cases hfull : got.length = min (extra + 1) (n - data.length)
                  · exact Or.inl ((hdel hfull).trans hnone)
                  · exact Or.inr (by omega)
                · exact Or.inr (by omega)
      · rintro w rfl
        exact received_of_le w i (Nat.le_of_not_lt hge)

/-- Whether the receive calls bring in a frame with a payload of `len` bytes: its
length, which has to be accepted, and then its payload. -/
def delivers (accepts : ℕ → Bool) (rs : List (Recv φ)) (len : ℕ) : Bool :=
  match deliver rs 4 with
  | none => false
  | some rs' => accepts len && (deliver rs' len).isSome

theorem recvn_ensures {w : World φ} {i : ℕ} (hw : w.held = some i) (n : ℕ) :
    Ensures (· = w) (recvn n) (Received w i n []) (Interrupted w i n) :=
  recvnLoop_ensures n n [] w hw (Nat.zero_le n) (Nat.le_add_right n 0)

/-- With nothing inbound, reading a frame fails and consumes nothing. -/
theorem recvFrame_ensures_of_nil {w : World φ} {i : ℕ} (hw : w.held = some i)
    (hin : (w.conns i).inbound = []) (accepts : ℕ → Bool) (decode : Decoder) :
    Ensures (· = w) (recvFrame accepts decode) (fun _ _ => False)
      (fun e t => e.isIo = true ∧ (∀ f, e = .fault f → .fail f ∈ w.recvs) ∧
        ∃ rs, t = w.advance i 0 rs) := by
  refine Ensures.bind (R := fun _ _ => False) ?_ fun _ => fun _ h => h.elim
  refine (recvn_ensures hw 4).weaken_post ?_ ?_
  · rintro bs t ⟨rs, -, -, -, hroom, -⟩
    rw [hin] at hroom
    exact absurd hroom (by simp)
  · rintro e t ⟨hio, hfault, ⟨k, rs, hk, ht⟩, -⟩
    rw [hin] at hk
    obtain rfl : k = 0 := by simpa using hk
    exact ⟨hio, hfault, rs, ht⟩

/-- At a frame boundary, the first frame that is inbound is consumed exactly, and what
the decoder makes of its payload is returned or thrown; or the receive calls do not
deliver it. -/
theorem recvFrame_ensures {w : World φ} {i : ℕ} (hw : w.held = some i) {p : Payload}
    {rest : List UInt8} (hin : (w.conns i).inbound = frame p ++ rest) (accepts : ℕ → Bool)
    (decode : Decoder) :
    Ensures (· = w) (recvFrame accepts decode)
      (fun r t => decode p.bytes = .ok r ∧ delivers accepts w.recvs p.bytes.length = true ∧
        ∃ rs, t = w.advance i (frame p).length rs)
      (fun e t =>
        (∃ d, e = .decode d ∧ decode p.bytes = .error d ∧
          delivers accepts w.recvs p.bytes.length = true ∧
            ∃ rs, t = w.advance i (frame p).length rs) ∨
        (e.isIo = true ∧ delivers accepts w.recvs p.bytes.length = false ∧
          (∀ f, e = .fault f → .fail f ∈ w.recvs) ∧ ∃ k rs, t = w.advance i k rs)) := by
  have hlen : 4 + p.bytes.length ≤ (w.conns i).inbound.length := by
    rw [hin, List.length_append, length_frame]
    exact Nat.le_add_right _ _
  refine Ensures.bind ((recvn_ensures hw 4).weaken_post (fun _ _ h => h) ?_) fun header => ?_
  · rintro e t ⟨hio, hfault, ⟨k, rs, -, ht⟩, hwhy⟩
    refine Or.inr ⟨hio, ?_, hfault, k, rs, ht⟩
    rcases hwhy with hnone | hshort
    · simp [delivers, hnone]
    · omega
  · rintro t ⟨rs, ht, hsub, hheader, -, hfour⟩
    simp only [List.length_nil, Nat.sub_zero, List.nil_append] at ht hheader hfour
    have hn : ofBigEndian header = p.bytes.length := by
      rw [hheader, hin, ofBigEndian_take_frame]
    have hheld : t.held = some i := by
      rw [ht]
      exact hw
    have hrecvs : t.recvs = rs := by
      rw [ht, World.advance_recvs]
    have hbody : (t.conns i).inbound = p.bytes ++ rest := by
      rw [ht, World.advance_inbound, hin, drop_frame]
    rw [hn]
    refine (Ensures.ite (P := (· = t)) (fun hacc => ?_) fun hacc => ?_) t rfl
    · refine Ensures.bind ((recvn_ensures hheld p.bytes.length).weaken_post
        (fun _ _ h => h) ?_) fun payload => ?_
      · rintro e u ⟨hio, hfault, ⟨k, rs', -, hu⟩, hwhy⟩
        rw [hrecvs] at hfault hwhy
        rw [hbody, List.length_append] at hwhy
        refine Or.inr ⟨hio, ?_, fun f hf => hsub (hfault f hf), 4 + k, rs',
          by rw [hu, ht, World.advance_advance]⟩
        rcases hwhy with hnone | hshort
        · simp [delivers, hfour, hnone]
        · omega
      · rintro u ⟨rs', hu, -, hpayload, -, hall⟩
        simp only [List.length_nil, Nat.sub_zero, List.nil_append] at hu hpayload hall
        have hp : payload = p.bytes := by
          rw [hpayload, hbody, List.take_left]
        have hdone : u = w.advance i (frame p).length rs' := by
          rw [hu, ht, World.advance_advance, length_frame]
        have hdel : delivers accepts w.recvs p.bytes.length = true := by
          rw [hrecvs] at hall
          simp [delivers, hfour, hacc, hall]
        subst hp
        cases hd : decode p.bytes with
        | ok r => exact ⟨rfl, hdel, rs', hdone⟩
        | error d => exact Or.inl ⟨d, rfl, rfl, hdel, rs', hdone⟩
    · refine ensures_throw _ ?_
      rintro u rfl
      refine Or.inr ⟨rfl, ?_, by simp, 4, rs, ht⟩
      simp [delivers, hfour, hacc]

end LockStep

end DittoClient
