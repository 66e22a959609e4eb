import DittoClient.LockStep.AtMostOnce
import DittoClient.LockStep.Ownership
import Mathlib.Algebra.BigOperators.Group.Finset.Basic

/-!
# The frames on the connections of a client

Connections are numbered in the order in which they are opened, and a frame that was written or sent
stays (`World.Grows`). A call adds its own frames, once or twice, and Auth frames; a call that sends
no request adds no other frame. `World.handed` counts a frame over all connections.
-/

namespace DittoClient

namespace LockStep

open DittoClient.Protobuf
open DittoClient.Wire
open DittoClient.Program

variable {φ : Type}

namespace World

/-- No connection but those that were opened has been used, and the one that is held was opened. -/
structure Sound (w : World φ) : Prop where
  unused : ∀ i, w.next ≤ i → w.conns i = Connection.fresh
  held : ∀ i, w.held = some i → i < w.next

theorem sound_init : (World.init : World φ).Sound where
  unused _ _ := rfl
  held i h := by cases h

/-- How often a frame was handed to a socket. -/
def handed (frame : Request) (w : World φ) : ℕ :=
  ∑ i ∈ Finset.range w.next, ((w.conns i).written.map Written.frame).count frame

/-- The frames that were written or sent stay, and `frame` was handed over at most `n` times
more. -/
structure Grows (frame : Request) (n : ℕ) (w t : World φ) : Prop where
  sound : t.Sound
  next : w.next ≤ t.next
  written : ∀ i, (w.conns i).written <+: (t.conns i).written
  sent : ∀ i, (w.conns i).sent <+: (t.conns i).sent
  handed : t.handed frame ≤ w.handed frame + n

namespace Grows

variable {frame : Request} {m n : ℕ} {w t u : World φ}

theorem refl (hw : w.Sound) (frame : Request) (n : ℕ) : w.Grows frame n w where
  sound := hw
  next := le_rfl
  written _ := List.prefix_refl _
  sent _ := List.prefix_refl _
  handed := Nat.le_add_right _ n

theorem trans (h : w.Grows frame m t) (h' : t.Grows frame n u) : w.Grows frame (m + n) u where
  sound := h'.sound
  next := h.next.trans h'.next
  written i := (h.written i).trans (h'.written i)
  sent i := (h.sent i).trans (h'.sent i)
  handed := by
    have hm := h.handed
    have hn := h'.handed
    omega

theorem mono (h : w.Grows frame m t) (hmn : m ≤ n) : w.Grows frame n t where
  sound := h.sound
  next := h.next
  written := h.written
  sent := h.sent
  handed := h.handed.trans (Nat.add_le_add_left hmn _)

end Grows

/-- A step that writes nothing and opens nothing. -/
theorem Grows.of_same {frame : Request} {n : ℕ} {w t : World φ} (hw : w.Sound)
    (hnext : t.next = w.next) (hheld : t.held = w.held ∨ t.held = none)
    (hwritten : ∀ i, (t.conns i).written = (w.conns i).written)
    (hsent : ∀ i, (w.conns i).sent <+: (t.conns i).sent)
    (hunused : ∀ i, w.next ≤ i → t.conns i = w.conns i) : w.Grows frame n t where
  sound := by
    refine ⟨fun i hi => ?_, fun i hi => ?_⟩
    · rw [hnext] at hi
      rw [hunused i hi, hw.unused i hi]
    · rw [hnext]
      rcases hheld with h | h
      · exact hw.held i (h ▸ hi)
      · rw [h] at hi
        cases hi
  next := hnext.ge
  written i := by simp only [hwritten, List.prefix_refl]
  sent := hsent
  handed := by
    have hsame : t.handed frame = w.handed frame := by
      unfold World.handed
      rw [hnext]
      exact Finset.sum_congr rfl fun i _ => by rw [hwritten]
    omega

end World

section Reads

variable {w : World φ}

/-- What a wait for bytes changes: how far the connection that is held was read. -/
def World.Advances (w t : World φ) : Prop :=
  t = w ∨ ∃ i k rs, w.held = some i ∧ t = w.advance i k rs

theorem World.Advances.refl (w : World φ) : w.Advances w :=
  Or.inl rfl

theorem World.Advances.trans {w t u : World φ} (h : w.Advances t) (h' : t.Advances u) :
    w.Advances u := by
  rcases h with rfl | ⟨i, k, rs, hi, rfl⟩
  · exact h'
  · rcases h' with rfl | ⟨j, l, rs', hj, rfl⟩
    · exact Or.inr ⟨i, k, rs, hi, rfl⟩
    · obtain rfl : i = j := Option.some.inj (hi.symm.trans hj)
      exact Or.inr ⟨i, k + l, rs', hi, World.advance_advance ..⟩

theorem recvn_advances (n : ℕ) (w : World φ) :
    Ensures (· = w) (recvn n) (fun _ t => w.Advances t) (fun _ t => w.Advances t) := by
  cases hheld : w.held with
  | some i =>
      refine (recvn_ensures hheld n).weaken_post ?_ ?_
      · rintro bs t ⟨rs, ht, -⟩
        exact Or.inr ⟨i, _, rs, hheld, ht⟩
      · rintro e t ⟨-, -, ⟨k, rs, -, ht⟩, -⟩
        exact Or.inr ⟨i, k, rs, hheld, ht⟩
  | none =>
      have hrecv : ∀ k, Ensures (· = w) (sockRecv k) (fun _ _ => False)
          (fun _ t => w.Advances t) := by
        rintro k w rfl
        simp only [sockRecv, hheld]
        exact World.Advances.refl w
      cases n with
      | zero =>
          rintro w rfl
          exact World.Advances.refl w
      | succ n =>
          rw [recvn, recvnLoop]
          exact Ensures.ite (fun _ => (hrecv _).bind fun _ => fun _ h => h.elim)
            fun hlt => absurd (Nat.succ_pos n) hlt

/-- Reading a frame writes nothing. -/
theorem recvFrame_advances (accepts : ℕ → Bool) (decode : Decoder) (w : World φ) :
    Ensures (· = w) (recvFrame accepts decode) (fun _ t => w.Advances t)
      (fun _ t => w.Advances t) := by
  refine (recvn_advances 4 w).bind fun header => Ensures.ite (fun _ => ?_)
    fun _ => ensures_throw _ fun _ h => h
  refine Ensures.bind (R := fun _ t => w.Advances t) ?_ fun payload => ?_
  · intro t ht
    exact ((recvn_advances _ t).weaken_post (fun _ _ h => ht.trans h)
      fun _ _ h => ht.trans h) t rfl
  · cases decode payload with
    | ok r => exact ensures_pure _ fun _ h => h
    | error d => exact ensures_throw _ fun _ h => h

theorem World.Advances.held {w t : World φ} (h : w.Advances t) : t.held = w.held := by
  rcases h with rfl | ⟨i, k, rs, -, rfl⟩
  · rfl
  · rfl

theorem World.Advances.written {w t : World φ} (h : w.Advances t) (j : ℕ) :
    (t.conns j).written = (w.conns j).written := by
  rcases h with rfl | ⟨i, k, rs, -, rfl⟩
  · rfl
  · by_cases hj : j = i
    · subst hj
      rw [World.advance_conns_self]
    · rw [World.advance_conns_of_ne w k rs hj]

theorem World.Advances.grows {w t : World φ} (h : w.Advances t) (hw : w.Sound) (frame : Request)
    (n : ℕ) : w.Grows frame n t := by
  have hwritten := h.written
  rcases h with rfl | ⟨i, k, rs, hi, rfl⟩
  · exact .refl hw frame n
  · have hsent := (World.Follows.advance w none i k rs).sent
    refine .of_same hw rfl (Or.inl rfl) hwritten hsent fun j hj => ?_
    have hne : j ≠ i := by
      rintro rfl
      exact absurd (hw.held _ hi) (by omega)
    rw [World.advance_conns_of_ne w k rs hne]

end Reads

section Steps

variable {w t : World φ} {frame : Request} {n : ℕ}

/-- The sum over the connections, when one of them changes. -/
theorem World.handed_update {w t : World φ} {i : ℕ} (hi : i < w.next) (hnext : t.next = w.next)
    (hother : ∀ j, j ≠ i → (t.conns j).written = (w.conns j).written)
    (hself : ((t.conns i).written.map Written.frame).count frame ≤
      ((w.conns i).written.map Written.frame).count frame + n) :
    t.handed frame ≤ w.handed frame + n := by
  have hmem : i ∈ Finset.range w.next := Finset.mem_range.mpr hi
  unfold World.handed
  rw [hnext, ← Finset.add_sum_erase _ _ hmem, ← Finset.add_sum_erase _ _ hmem]
  have hrest : ∑ j ∈ (Finset.range w.next).erase i,
      ((t.conns j).written.map Written.frame).count frame =
      ∑ j ∈ (Finset.range w.next).erase i,
        ((w.conns j).written.map Written.frame).count frame :=
    Finset.sum_congr rfl fun j hj => by rw [hother j (Finset.ne_of_mem_erase hj)]
  omega

theorem Arrival.apply_written (a : Arrival φ) (i : ℕ) (w : World φ) (j : ℕ) :
    ((a.apply i w).conns j).written = (w.conns j).written := by
  by_cases hj : j = i
  · subst hj
    rw [Arrival.apply_conns_self, (Connection.foldl_serve_traffic a.acts _).2.1]
  · rw [Arrival.apply_conns_of_ne a w hj]

/-- Frames arrive on the connection that is held. -/
theorem Arrival.apply_grows (a : Arrival φ) {i : ℕ} (hw : w.Sound) (hi : w.held = some i)
    (frame : Request) (n : ℕ) : w.Grows frame n (a.apply i w) := by
  have hsent := (a.apply_follows i w).sent
  refine .of_same hw rfl (Or.inl rfl) (Arrival.apply_written a i w) hsent fun j hj => ?_
  have hne : j ≠ i := by
    rintro rfl
    exact absurd (hw.held _ hi) (by omega)
  rw [Arrival.apply_conns_of_ne a w hne]

/-- A frame is handed over on the connection that is held. -/
theorem World.write_grows {i : ℕ} (hw : w.Sound) (hi : w.held = some i) (frame other : Request)
    (complete : Bool) :
    w.Grows frame (if other = frame then 1 else 0)
      (w.update i fun c => c.write other complete) where
  sound := by
    refine ⟨fun j hj => ?_, hw.held⟩
    have hne : j ≠ i := by
      rintro rfl
      exact absurd (hw.held _ hi) (by simpa using hj)
    rw [World.update_conns_of_ne w _ hne]
    exact hw.unused j hj
  next := le_rfl
  written j := by
    by_cases hj : j = i
    · subst hj
      rw [World.update_conns_self]
      exact List.prefix_append _ _
    · simp only [World.update_conns_of_ne w _ hj, List.prefix_refl]
  sent := (World.follows_write hi other complete).sent
  handed := by
    refine World.handed_update (hw.held i hi) rfl (fun j hj => ?_) ?_
    · rw [World.update_conns_of_ne w _ hj]
    · rw [World.update_conns_self]
      simp only [Connection.write, List.map_append, List.count_append, List.map_cons, List.map_nil,
        List.count_singleton, beq_iff_eq]
      exact le_rfl

/-- How one event changes what was written. -/
theorem Event.Step.grows {accepts : ℕ → Bool} {decode : Decoder} {e : Event} (hw : w.Sound)
    (h : e.Step accepts decode w t) (frame : Request) :
    w.Grows frame (if e.hands frame = true then 1 else 0) t := by
  cases e with
  | opened i =>
      obtain ⟨rfl, hopen⟩ := h
      cases hopen
      have hconns : ∀ j, (w.update w.next fun _ => Connection.fresh).conns j = w.conns j := by
        intro j
        by_cases hj : j = w.next
        · subst hj
          rw [World.update_conns_self, hw.unused _ le_rfl]
        · rw [World.update_conns_of_ne w _ hj]
      refine ⟨⟨fun j hj => ?_, fun j hj => ?_⟩, Nat.le_succ _, fun j => ?_, fun j => ?_, ?_⟩
      · exact (hconns j).trans (hw.unused j (by exact Nat.le_of_succ_le hj))
      · cases hj
        exact Nat.lt_succ_self _
      · change (w.conns j).written <+: ((w.update w.next fun _ => Connection.fresh).conns j).written
        simp only [hconns, List.prefix_refl]
      · change (w.conns j).sent <+: ((w.update w.next fun _ => Connection.fresh).conns j).sent
        simp only [hconns, List.prefix_refl]
      · have hsum : World.handed frame { w.update w.next fun _ => Connection.fresh with
            next := w.next + 1, held := some w.next } = w.handed frame := by
          unfold World.handed
          rw [Finset.sum_range_succ]
          have hlast : (((w.update w.next fun _ => Connection.fresh).conns w.next).written.map
              Written.frame).count frame = 0 := by
            rw [World.update_conns_self]
            rfl
          change (∑ j ∈ Finset.range w.next, (((w.update w.next fun _ =>
            Connection.fresh).conns j).written.map Written.frame).count frame) + _ = _
          rw [hlast, Nat.add_zero]
          exact Finset.sum_congr rfl fun j _ => by rw [hconns]
        exact hsum.le.trans (Nat.le_add_right _ _)
  | handed i other =>
      obtain ⟨hi, a, complete, rfl⟩ := h
      have hwrite := World.write_grows hw hi frame other complete
      have happly := a.apply_grows (i := i) hwrite.sound (by simpa using hi) frame 0
      simpa [Event.hands] using hwrite.trans happly
  | read i r =>
      exact ((recvFrame_advances accepts decode w).of_ok rfl h.2).grows hw frame _
  | lost i =>
      obtain ⟨-, e, he⟩ := h
      exact ((recvFrame_advances accepts decode w).of_error rfl he).grows hw frame _
  | closed =>
      change release w = .ok () t at h
      cases hheld : w.held with
      | none =>
          simp only [release, hheld] at h
          cases h
          exact .refl hw frame _
      | some i =>
          simp only [release, hheld] at h
          cases h
          have hconn : ∀ j, ((w.update i fun c => { c with closed := true }).conns j).written =
              (w.conns j).written ∧ ((w.update i fun c => { c with closed := true }).conns j).sent =
                (w.conns j).sent := by
            intro j
            by_cases hj : j = i
            · subst hj
              rw [World.update_conns_self]
              exact ⟨rfl, rfl⟩
            · rw [World.update_conns_of_ne w _ hj]
              exact ⟨rfl, rfl⟩
          refine .of_same hw rfl (Or.inr rfl) (fun j => (hconn j).1)
            (fun j => by rw [(hconn j).2]) fun j hj => ?_
          · have hne : j ≠ i := by
              rintro rfl
              exact absurd (hw.held _ hheld) (by omega)
            exact World.update_conns_of_ne w (fun c => { c with closed := true }) hne
  | streams =>
      change t = { w with input := t.input, output := t.output } at h
      rw [h]
      exact .of_same hw rfl (Or.inl rfl) (fun _ => rfl) (fun _ => List.prefix_refl _) fun _ _ => rfl

/-- What a path of events writes. -/
theorem Went.grows {accepts : ℕ → Bool} {decode : Decoder} {es : List Event} (hw : w.Sound)
    (h : Went accepts decode w es t) (frame : Request) :
    w.Grows frame (es.countP (Event.hands frame)) t := by
  induction h with
  | nil s => exact .refl hw frame _
  | cons hstep _ ih =>
      have hfirst := hstep.grows hw frame
      have hrest := ih hfirst.sound
      rw [List.countP_cons, Nat.add_comm]
      exact hfirst.trans hrest

/-- Waiting for a frame writes nothing. -/
theorem awaitFrame_grows (accepts : ℕ → Bool) (decode : Decoder) (a : Arrival φ) (hw : w.Sound)
    (frame : Request) :
    Ensures (· = w) (awaitFrame accepts decode a) (fun _ t => w.Grows frame 0 t)
      (fun _ t => w.Grows frame 0 t) := by
  refine Ensures.bind (R := fun _ t => w.Grows frame 0 t) ?_ fun _ => ?_
  · rintro w rfl
    cases hheld : w.held with
    | none =>
        simp only [await, hheld]
        exact .refl hw frame 0
    | some i =>
        simp only [await, hheld]
        exact a.apply_grows hw hheld frame 0
  · intro t ht
    exact ((recvFrame_advances accepts decode t).weaken_post
      (fun _ _ h => ht.trans (h.grows ht.sound frame 0))
        fun _ _ h => ht.trans (h.grows ht.sound frame 0)) t rfl

end Steps

end LockStep

end DittoClient
