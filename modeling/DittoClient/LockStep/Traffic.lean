import DittoClient.LockStep.Session

/-!
# What one exchange does to the world

Whatever becomes of an exchange, it writes no other frame than its own, and only on the
connection that is held; it takes back nothing the server has sent, and it neither changes
which connection is held nor opens one (`World.Follows`).
-/

namespace DittoClient

namespace LockStep

open DittoClient.Octets
open DittoClient.Protobuf
open DittoClient.Wire
open DittoClient.Program

variable {φ : Type}

/-- `t` comes from `w` by traffic on the connection that is held in which the client
writes no other frame than `frame`. -/
structure World.Follows (w : World φ) (frame : Option Request) (t : World φ) : Prop where
  held : t.held = w.held
  next : t.next = w.next
  input : t.input = w.input
  output : t.output = w.output
  sent : ∀ j, (w.conns j).sent <+: (t.conns j).sent
  written : ∀ j, ∀ x ∈ (t.conns j).written, x ∈ (w.conns j).written ∨
    (w.held = some j ∧ some x.frame = frame ∧ (w.conns j).sent.length ≤ x.seen)

namespace World.Follows

variable {w t u : World φ} {frame : Option Request}

theorem refl (w : World φ) (frame : Option Request) : w.Follows frame w :=
  ⟨rfl, rfl, rfl, rfl, fun _ => List.prefix_refl _, fun _ _ h => Or.inl h⟩

theorem trans (h : w.Follows frame t) (h' : t.Follows frame u) : w.Follows frame u where
  held := h'.held.trans h.held
  next := h'.next.trans h.next
  input := h'.input.trans h.input
  output := h'.output.trans h.output
  sent j := (h.sent j).trans (h'.sent j)
  written j x hx := by
    rcases h'.written j x hx with hx | ⟨hj, hf, hseen⟩
    · exact h.written j x hx
    · exact Or.inr ⟨h.held.symm.trans hj, hf, (h.sent j).length_le.trans hseen⟩

/-- Traffic in which nothing is written. -/
theorem weaken (h : w.Follows none t) (frame : Option Request) : w.Follows frame t where
  held := h.held
  next := h.next
  input := h.input
  output := h.output
  sent := h.sent
  written j x hx := by
    rcases h.written j x hx with hx | ⟨-, hf, -⟩
    · exact Or.inl hx
    · cases hf

theorem advance (w : World φ) (frame : Option Request) (i k : ℕ) (rs : List (Recv φ)) :
    w.Follows frame (w.advance i k rs) where
  held := rfl
  next := rfl
  input := rfl
  output := rfl
  sent j := by
    by_cases hj : j = i
    · subst hj
      simp only [World.advance_conns_self, List.prefix_refl]
    · simp only [World.advance_conns_of_ne w k rs hj, List.prefix_refl]
  written j x hx := by
    by_cases hj : j = i
    · subst hj
      rw [World.advance_conns_self] at hx
      exact Or.inl hx
    · rw [World.advance_conns_of_ne w k rs hj] at hx
      exact Or.inl hx

end World.Follows

/-- The frames the server puts on a connection are added to those that are there. -/
theorem Connection.foldl_serve_traffic (acts : List ServerFrame) (c : Connection) :
    c.sent <+: (acts.foldl Connection.serve c).sent ∧
      (acts.foldl Connection.serve c).written = c.written ∧
        (acts.foldl Connection.serve c).read = c.read := by
  induction acts generalizing c with
  | nil => exact ⟨List.prefix_refl _, rfl, rfl⟩
  | cons f acts ih =>
      have hserve : c.sent <+: (c.serve f).sent ∧ (c.serve f).written = c.written ∧
          (c.serve f).read = c.read := by
        cases f with
        | push p => exact ⟨List.prefix_append _ _, rfl, rfl⟩
        | reply p =>
            rw [Connection.serve]
            split
            · exact ⟨List.prefix_append _ _, rfl, rfl⟩
            · exact ⟨List.prefix_refl _, rfl, rfl⟩
      obtain ⟨hsent, hwritten, hread⟩ := ih (c.serve f)
      exact ⟨hserve.1.trans hsent, hwritten.trans hserve.2.1, hread.trans hserve.2.2⟩

theorem Arrival.apply_follows (a : Arrival φ) (i : ℕ) (w : World φ) :
    w.Follows none (a.apply i w) where
  held := rfl
  next := rfl
  input := rfl
  output := rfl
  sent j := by
    by_cases hj : j = i
    · subst hj
      rw [Arrival.apply_conns_self]
      exact (Connection.foldl_serve_traffic a.acts _).1
    · simp only [Arrival.apply_conns_of_ne a w hj, List.prefix_refl]
  written j x hx := by
    by_cases hj : j = i
    · subst hj
      rw [Arrival.apply_conns_self, (Connection.foldl_serve_traffic a.acts _).2.1] at hx
      exact Or.inl hx
    · rw [Arrival.apply_conns_of_ne a w hj] at hx
      exact Or.inl hx

theorem World.follows_write {w : World φ} {i : ℕ} (hw : w.held = some i) (frame : Request)
    (complete : Bool) : w.Follows (some frame) (w.update i fun c => c.write frame complete) where
  held := rfl
  next := rfl
  input := rfl
  output := rfl
  sent j := by
    by_cases hj : j = i
    · subst hj
      rw [World.update_conns_self]
      exact List.prefix_refl _
    · simp only [World.update_conns_of_ne w _ hj, List.prefix_refl]
  written j x hx := by
    by_cases hj : j = i
    · subst hj
      rw [World.update_conns_self] at hx
      rcases List.mem_append.mp hx with hx | hx
      · exact Or.inl hx
      · rw [List.mem_singleton.mp hx]
        exact Or.inr ⟨hw, rfl, le_rfl⟩
    · rw [World.update_conns_of_ne w _ hj] at hx
      exact Or.inl hx

/-- Writing a frame, whether or not it succeeds. -/
theorem sendall_follows (x : Exchange φ) (frame : Request) (w : World φ) :
    Ensures (· = w) (sendall x frame) (fun _ t => w.Follows (some frame) t)
      (fun _ t => w.Follows (some frame) t) := by
  rintro w rfl
  cases hw : w.held with
  | none =>
      simp only [sendall, hw]
      exact World.Follows.refl w _
  | some i =>
      have happly := fun complete => (World.follows_write hw frame complete).trans
        ((x.toArrival.apply_follows i (w.update i fun c => c.write frame complete)).weaken _)
      cases hx : x.write with
      | ok =>
          simp only [sendall, hw, hx]
          exact happly true
      | failed complete f =>
          simp only [sendall, hw, hx]
          exact happly complete
      | refused f =>
          simp only [sendall, hw, hx]
          exact World.Follows.refl w _

theorem recvn_follows (n : ℕ) (w : World φ) :
    Ensures (· = w) (recvn n) (fun _ t => w.Follows none t) (fun _ t => w.Follows none t) := by
  cases hw : w.held with
  | some i =>
      refine (recvn_ensures hw n).weaken_post ?_ ?_
      · rintro bs t ⟨rs, ht, -⟩
        rw [ht]
        exact World.Follows.advance w none i _ rs
      · rintro e t ⟨-, -, ⟨k, rs, -, ht⟩, -⟩
        rw [ht]
        exact World.Follows.advance w none i _ rs
  | none =>
      have hrecv : ∀ k, Ensures (· = w) (sockRecv k) (fun _ _ => False)
          (fun _ t => w.Follows none t) := by
        rintro k w rfl
        simp only [sockRecv, hw]
        exact World.Follows.refl w none
      cases n with
      | zero =>
          rintro w rfl
          exact World.Follows.refl w none
      | succ n =>
          rw [recvn, recvnLoop]
          refine Ensures.ite (fun _ => (hrecv _).bind fun _ => fun _ h => h.elim)
            fun hlt => absurd (Nat.succ_pos n) hlt

theorem recvFrame_follows (accepts : ℕ → Bool) (decode : Decoder) (w : World φ) :
    Ensures (· = w) (recvFrame accepts decode) (fun _ t => w.Follows none t)
      (fun _ t => w.Follows none t) := by
  refine (recvn_follows 4 w).bind fun header => Ensures.ite (fun _ => ?_)
    fun _ => ensures_throw _ fun _ h => h
  refine Ensures.bind (R := fun _ t => w.Follows none t) ?_ fun payload => ?_
  · intro t ht
    exact ((recvn_follows _ t).weaken_post (fun _ _ h => ht.trans h)
      fun _ _ h => ht.trans h) t rfl
  · cases decode payload with
    | ok r => exact ensures_pure _ fun _ h => h
    | error d => exact ensures_throw _ fun _ h => h

/-- An exchange writes no other frame than its own, on the connection that is held. -/
theorem exchange_follows (accepts : ℕ → Bool) (decode : Decoder) (x : Exchange φ)
    (frame : Request) (w : World φ) :
    Ensures (· = w) (exchange accepts decode x frame) (fun _ t => w.Follows (some frame) t)
      (fun _ t => w.Follows (some frame) t) := by
  refine (sendall_follows x frame w).bind fun _ => ?_
  intro t ht
  exact ((recvFrame_follows accepts decode t).weaken_post
    (fun _ _ h => ht.trans (h.weaken _)) fun _ _ h => ht.trans (h.weaken _)) t rfl

/-- A wait writes nothing. -/
theorem awaitFrame_follows (accepts : ℕ → Bool) (decode : Decoder) (a : Arrival φ)
    (w : World φ) :
    Ensures (· = w) (awaitFrame accepts decode a) (fun _ t => w.Follows none t)
      (fun _ t => w.Follows none t) := by
  refine Ensures.bind (R := fun _ t => w.Follows none t) ?_ fun _ => ?_
  · rintro w rfl
    cases hw : w.held with
    | none =>
        simp only [await, hw]
        exact World.Follows.refl w none
    | some i =>
        simp only [await, hw]
        exact a.apply_follows i w
  · intro t ht
    exact ((recvFrame_follows accepts decode t).weaken_post
      (fun _ _ h => ht.trans h) fun _ _ h => ht.trans h) t rfl

end LockStep

end DittoClient
