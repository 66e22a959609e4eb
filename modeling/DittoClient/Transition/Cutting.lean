import Mathlib.Data.List.Basic

/-!
# Cutting a stream into pieces

A stream arrives in chunks and is cut into pieces. A `Cutter` says how the first piece is cut off
what has arrived; if it can be cut off, it is the same piece whatever arrives later. The pieces of
a stream, and what is left of it, then do not depend on the chunks: cutting each chunk as it
arrives, behind what was left of the one before, gives the pieces of the whole (`foldl_feed`).
-/

namespace DittoClient

namespace Transition

/-- How the first piece is cut off a stream, if it has arrived. -/
structure Cutter (β φ : Type*) where
  next : List β → Option (φ × List β)
  shorter : ∀ {bs rest : List β} {p : φ}, next bs = some (p, rest) → rest.length < bs.length
  stable : ∀ {bs rest : List β} {p : φ} (more : List β), next bs = some (p, rest) →
    next (bs ++ more) = some (p, rest ++ more)

namespace Cutter

variable {β φ σ : Type*}

/-- The pieces of a stream, and what is left behind them. -/
def pieces (c : Cutter β φ) (bs : List β) : List φ × List β :=
  match h : c.next bs with
  | none => ([], bs)
  | some (p, rest) => (p :: (pieces c rest).1, (pieces c rest).2)
termination_by bs.length
decreasing_by all_goals exact c.shorter h

variable {c : Cutter β φ}

theorem pieces_of_none {bs : List β} (h : c.next bs = none) : c.pieces bs = ([], bs) := by
  rw [pieces]
  split
  · rfl
  · next heq => rw [h] at heq; cases heq

theorem pieces_of_some {bs rest : List β} {p : φ} (h : c.next bs = some (p, rest)) :
    c.pieces bs = (p :: (c.pieces rest).1, (c.pieces rest).2) := by
  rw [pieces]
  split
  · next heq => rw [h] at heq; cases heq
  · next heq =>
      rw [h] at heq
      cases heq
      rfl

/-- No piece can be cut off what is left. -/
theorem next_pieces (c : Cutter β φ) (bs : List β) : c.next (c.pieces bs).2 = none := by
  induction bs using pieces.induct (c := c) with
  | case1 bs h =>
      rw [pieces_of_none h]
      exact h
  | case2 bs p rest h ih =>
      rw [pieces_of_some h]
      exact ih

/-- What arrives later is cut behind what was left. -/
theorem pieces_append (c : Cutter β φ) (bs more : List β) :
    c.pieces (bs ++ more) =
      ((c.pieces bs).1 ++ (c.pieces ((c.pieces bs).2 ++ more)).1,
        (c.pieces ((c.pieces bs).2 ++ more)).2) := by
  induction bs using pieces.induct (c := c) with
  | case1 bs h => simp [pieces_of_none h]
  | case2 bs p rest h ih =>
      rw [pieces_of_some h, pieces_of_some (c.stable more h), ih]
      rfl

/-- The pieces of a chunk are handled, behind what was left before it. -/
def feed (c : Cutter β φ) (handle : σ → φ → σ) (s : σ × List β) (chunk : List β) : σ × List β :=
  ((c.pieces (s.2 ++ chunk)).1.foldl handle s.1, (c.pieces (s.2 ++ chunk)).2)

/-- Handling chunk by chunk is handling the pieces of the whole stream. -/
theorem foldl_feed (handle : σ → φ → σ) (s : σ) {left : List β} (h : c.next left = none)
    (chunks : List (List β)) :
    chunks.foldl (c.feed handle) (s, left) =
      ((c.pieces (left ++ chunks.flatten)).1.foldl handle s,
        (c.pieces (left ++ chunks.flatten)).2) := by
  induction chunks generalizing s left with
  | nil => simp [pieces_of_none h]
  | cons chunk chunks ih =>
      rw [List.foldl_cons, feed, ih _ (next_pieces c _), List.flatten_cons, ← List.append_assoc,
        pieces_append c (left ++ chunk), List.foldl_append]

end Cutter

end Transition

end DittoClient
