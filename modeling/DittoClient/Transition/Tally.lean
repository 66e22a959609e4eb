import Mathlib.Data.List.Basic

/-!
# Counting since the last reset

A log is a list with the newest entry first. `tally reset counted log` is the number of the
entries that are counted since the last one that resets, which is what a counter shows that is
set to zero by some of the events and increased by others.
-/

namespace DittoClient

namespace Transition

variable {α : Type*}

/-- The number of counted entries in front of the first one that resets. -/
def tally (reset counted : α → Bool) (log : List α) : ℕ :=
  (log.takeWhile fun e => !reset e).countP counted

@[simp] theorem tally_nil (reset counted : α → Bool) : tally reset counted [] = 0 := rfl

theorem tally_cons (reset counted : α → Bool) (e : α) (log : List α) :
    tally reset counted (e :: log) =
      if reset e then 0 else tally reset counted log + if counted e then 1 else 0 := by
  cases h : reset e with
  | true => simp [tally, h]
  | false => simp [tally, h, List.countP_cons]

end Transition

end DittoClient
