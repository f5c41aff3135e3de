import PgSynapse.Lib.Timeline
import PgSynapse.Runtime.ExecuteInner

/-!
# `Runtime::execute_with_budget` on the clock

`execute_inner` again, with the time its executor future takes.  What the executor does under a
budget is given as a timeline, so quantifying over it is quantifying over every timing of provider
and tool calls.  A poll of the future may work for a while before it comes back (a tool that runs a
statement through SPI does so on the caller's thread), and time also passes while the future waits.

A `Duration` is a number of nanoseconds; `u64::MAX` seconds and 999 999 999 nanoseconds is the
largest one.
-/

namespace PgSynapse

/-- One more than `Duration::MAX`. -/
def durationLimit : Nat := 2 ^ 64 * 1000000000

/-- `Duration + Duration`; `none` is the overflow panic. -/
def durationAdd (a b : Nat) : Option Nat := if a + b < durationLimit then some (a + b) else none

namespace Runtime

/-- `execute_inner` once the agent and its providers are resolved.  `executor` is the executor
future under the budget it is given and `sink` what the progress sink holds when the backstop fires.
The result comes with the time it is returned at; there is none when the executor is awaited without
a limit and never comes back. -/
def executeInnerTimed (timeoutMs : UInt64) (maxTimeout : Option Nat)
    (executor : Nat → Timeline (Except ExecutorError ExecutorOutcome)) (sink : ExecutorOutcome) :
    Option (Nat × Except ExecutorError ExecutorOutcome) :=
  -- the sink is made when the agent's own timeout is set, whatever the ceiling says
  let progress := if millis timeoutMs.toNat ≠ 0 then sink else .default
  let budget := budget timeoutMs.toNat maxTimeout
  -- no budget, no backstop
  if budget = 0 then (executor budget).await 0
  else
    (durationAdd budget (budgetGrace budget)).map fun hardStop =>
      match (executor budget).timeout hardStop 0 with
      | (t, some result) => (t, result)
      | (t, none) =>
        (t, .ok { progress with status := .timedOut, durationMs := asMillis hardStop })

/-- `execute_with_budget`: the host's ceiling is `maxTimeout`. -/
def executeWithBudget (timeoutMs : UInt64) (maxTimeout : Nat)
    (executor : Nat → Timeline (Except ExecutorError ExecutorOutcome)) (sink : ExecutorOutcome) :
    Option (Nat × Except ExecutorError ExecutorOutcome) :=
  executeInnerTimed timeoutMs (some maxTimeout) executor sink

/-- The moment the backstop fires, counted from the start of the run. -/
def hardStop (budget : Nat) : Nat := budget + budgetGrace budget

/-- **The ceiling binds**: the run has a budget of its own, no larger than the ceiling, and is over
by the end of the budget and its grace. -/
structure CeilingBinds (timeoutMs : UInt64) (cap : Nat)
    (executor : Nat → Timeline (Except ExecutorError ExecutorOutcome)) (sink : ExecutorOutcome) :
    Prop where
  nonzero : 0 < budget timeoutMs.toNat (some cap)
  le_cap : budget timeoutMs.toNat (some cap) ≤ cap
  grace_pos : budget timeoutMs.toNat (some cap) < hardStop (budget timeoutMs.toNat (some cap))
  no_overflow : hardStop (budget timeoutMs.toNat (some cap)) < durationLimit
  returns : ∃ t result, executeWithBudget timeoutMs cap executor sink = some (t, result) ∧
    t ≤ hardStop (budget timeoutMs.toNat (some cap))

end Runtime

end PgSynapse
