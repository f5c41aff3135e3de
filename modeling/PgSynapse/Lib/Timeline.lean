import Mathlib.Data.Nat.Basic

/-!
# Futures under a deadline

An asynchronous computation is followed from poll to poll.  A poll runs on the caller's thread and
takes the time it takes: nothing can interrupt it, and a deadline is looked at only between polls.
Between two polls the future waits, and there the deadline can end it.
-/

namespace PgSynapse

/-- The polls of a future.  A poll that is not ready is followed by the next one when the future is
woken, `idle` later, or by none when nothing ever wakes it. -/
inductive Timeline (α : Type) where
  | ready (busy : Nat) (a : α)
  | stuck (busy : Nat)
  | pending (busy idle : Nat) (rest : Timeline α)

namespace Timeline

variable {α : Type}

/-- Await the future from `now` on: when it is ready, and with what. -/
def await (now : Nat) : Timeline α → Option (Nat × α)
  | .ready busy a => some (now + busy, a)
  | .stuck _ => none
  | .pending busy idle rest => rest.await (now + busy + idle)

/-- Await the future from `now` on, under a deadline: when the wait is over, and the value unless
the deadline ended it.  Each time the future is polled first, so a value that is ready is taken
even when the clock is past the deadline. -/
def timeout (deadline now : Nat) : Timeline α → Nat × Option α
  | .ready busy a => (now + busy, some a)
  | .stuck busy => (max (now + busy) deadline, none)
  | .pending busy idle rest =>
    if deadline ≤ now + busy then (now + busy, none)
    else if now + busy + idle ≤ deadline then rest.timeout deadline (now + busy + idle)
    else (deadline, none)

/-- Whether a poll that starts by the deadline is still running after it. -/
def overruns (deadline now : Nat) : Timeline α → Bool
  | .ready busy _ => decide (deadline < now + busy)
  | .stuck busy => decide (deadline < now + busy)
  | .pending busy idle rest =>
    decide (deadline < now + busy) ||
      (decide (now + busy < deadline) && decide (now + busy + idle ≤ deadline) &&
        rest.overruns deadline (now + busy + idle))

/-- **The deadline binds** exactly when no poll runs past it. -/
theorem timeout_le_iff (deadline now : Nat) (f : Timeline α) :
    (f.timeout deadline now).1 ≤ deadline ↔ f.overruns deadline now = false := by
  induction f generalizing now with
  | ready busy a =>
    rw [timeout, overruns, decide_eq_false_iff_not, Nat.not_lt]
  | stuck busy =>
    -- nothing wakes it, so the deadline ends the wait unless the poll itself took longer
    have hmax : max (now + busy) deadline ≤ deadline ↔ now + busy ≤ deadline := by omega
    rw [timeout, overruns, decide_eq_false_iff_not, Nat.not_lt]
    exact hmax
  | pending busy idle rest ih =>
    rw [timeout, overruns]
    by_cases hbusy : deadline ≤ now + busy
    · -- the deadline passed during the poll: the wait ends with the poll
      rw [if_pos hbusy]
      have hlt : ¬ now + busy < deadline := by omega
      simp [hlt]
    · rw [if_neg hbusy]
      have hlt : now + busy < deadline := by omega
      have hle : ¬ deadline < now + busy := by omega
      by_cases hidle : now + busy + idle ≤ deadline
      · rw [if_pos hidle, ih]
        simp [hlt, hle, hidle]
      · rw [if_neg hidle]
        simp [hle, hidle]

/-- A future is ready no earlier than it is first polled. -/
theorem le_of_await {now t : Nat} {a : α} {f : Timeline α} (h : f.await now = some (t, a)) :
    now ≤ t := by
  induction f generalizing now with
  | ready busy b =>
    have ht : now + busy = t := by simpa [await] using (congrArg (·.map Prod.fst) h)
    omega
  | stuck busy => exact absurd h (by simp [await])
  | pending busy idle rest ih =>
    have hrest := ih h
    omega

/-- A future that is ready before the deadline is not ended by it. -/
theorem timeout_of_await {deadline now t : Nat} {a : α} {f : Timeline α}
    (h : f.await now = some (t, a)) (ht : t < deadline) : f.timeout deadline now = (t, some a) := by
  induction f generalizing now with
  | ready busy b =>
    obtain ⟨rfl, rfl⟩ : now + busy = t ∧ b = a := by simpa [await] using h
    rfl
  | stuck busy => exact absurd h (by simp [await])
  | pending busy idle rest ih =>
    rw [await] at h
    -- the next poll starts no later than the value is ready, so before the deadline
    have hnext := le_of_await h
    rw [timeout, if_neg (by omega), if_pos (by omega)]
    exact ih h

/-- A future that is never ready is ended by the deadline. -/
theorem timeout_of_await_none (deadline : Nat) {now : Nat} {f : Timeline α}
    (h : f.await now = none) : (f.timeout deadline now).2 = none := by
  induction f generalizing now with
  | ready busy b => exact absurd h (by simp [await])
  | stuck busy => rfl
  | pending busy idle rest ih =>
    rw [timeout]
    by_cases hbusy : deadline ≤ now + busy
    · rw [if_pos hbusy]
    · rw [if_neg hbusy]
      by_cases hidle : now + busy + idle ≤ deadline
      · rw [if_pos hidle]
        exact ih h
      · rw [if_neg hidle]

end Timeline

end PgSynapse
