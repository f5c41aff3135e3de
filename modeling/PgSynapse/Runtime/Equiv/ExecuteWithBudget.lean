import PgSynapse.Runtime.ExecuteWithBudget
import PgSynapse.Runtime.Equiv.ExecuteInner

/-!
# When a host ceiling binds

`execute_with_budget` takes the lower of the agent's budget and the host's ceiling, and a budget of
zero means no limit at all.  So an agent whose `timeout_ms` is zero runs without a limit under any
ceiling, and every other agent is stopped by the end of its budget and grace, unless a poll of its
executor is at work at that moment (`ceilingBinds_iff`).
-/

namespace PgSynapse

namespace Runtime

/-! ### The budget -/

theorem budgetGrace_pos (b : Nat) : 0 < budgetGrace b := by
  have hfloor : millis 50 ≤ max (b / 10) (millis 50) := le_max_right _ _
  have hceil : millis 50 ≤ millis 5000 := by decide
  have hmillis : 0 < millis 50 := by decide
  rw [budgetGrace]
  exact lt_of_lt_of_le hmillis (le_min hfloor hceil)

/-- The agent's own budget leaves room for the grace. -/
theorem hardStop_lt (timeoutMs : UInt64) (maxTimeout : Option Nat) :
    hardStop (budget timeoutMs.toNat maxTimeout) < durationLimit := by
  have hms : timeoutMs.toNat < 2 ^ 64 := timeoutMs.toNat_lt
  have hbudget : budget timeoutMs.toNat maxTimeout ≤ millis timeoutMs.toNat := by
    cases maxTimeout with
    | none => exact le_refl _
    | some cap => exact min_le_left _ _
  have hgrace : budgetGrace (budget timeoutMs.toNat maxTimeout) ≤ millis 5000 := min_le_right _ _
  unfold hardStop
  calc budget timeoutMs.toNat maxTimeout + budgetGrace (budget timeoutMs.toNat maxTimeout)
      ≤ millis timeoutMs.toNat + millis 5000 := Nat.add_le_add hbudget hgrace
    _ < durationLimit := by
      unfold millis durationLimit
      omega

theorem durationAdd_grace (timeoutMs : UInt64) (maxTimeout : Option Nat) :
    durationAdd (budget timeoutMs.toNat maxTimeout)
      (budgetGrace (budget timeoutMs.toNat maxTimeout)) =
        some (hardStop (budget timeoutMs.toNat maxTimeout)) :=
  if_pos (hardStop_lt timeoutMs maxTimeout)

/-- Under a ceiling the budget is zero exactly when the agent has none of its own. -/
theorem budget_pos_iff (timeoutMs : UInt64) {cap : Nat} (hcap : 0 < cap) :
    0 < budget timeoutMs.toNat (some cap) ↔ timeoutMs ≠ 0 := by
  have hzero : timeoutMs = 0 ↔ timeoutMs.toNat = 0 := by
    rw [← UInt64.toNat_inj]
    rfl
  have hmillis : 0 < millis timeoutMs.toNat ↔ timeoutMs.toNat ≠ 0 := by
    unfold millis
    omega
  rw [Ne, hzero, budget, Nat.lt_min, hmillis]
  exact ⟨fun h => h.1, fun h => ⟨h, hcap⟩⟩

/-! ### The ceiling -/

variable (executor : Nat → Timeline (Except ExecutorError ExecutorOutcome)) (sink : ExecutorOutcome)

/-- With a budget, the run is over when the wait under the backstop is. -/
theorem executeInnerTimed_time (timeoutMs : UInt64) (maxTimeout : Option Nat)
    (hb : budget timeoutMs.toNat maxTimeout ≠ 0) :
    ∃ result, executeInnerTimed timeoutMs maxTimeout executor sink =
      some (((executor (budget timeoutMs.toNat maxTimeout)).timeout
        (hardStop (budget timeoutMs.toNat maxTimeout)) 0).1, result) := by
  unfold executeInnerTimed
  simp only [if_neg hb, durationAdd_grace, Option.map_some]
  rcases (executor (budget timeoutMs.toNat maxTimeout)).timeout
    (hardStop (budget timeoutMs.toNat maxTimeout)) 0 with ⟨t, _ | result⟩
  · exact ⟨_, rfl⟩
  · exact ⟨_, rfl⟩

/-- **When the ceiling binds**: for an agent with a budget of its own, as long as no poll of the
executor runs past the backstop. -/
theorem ceilingBinds_iff (timeoutMs : UInt64) (cap : Nat) (hcap : 0 < cap) :
    CeilingBinds timeoutMs cap executor sink ↔
      timeoutMs ≠ 0 ∧ (executor (budget timeoutMs.toNat (some cap))).overruns
        (hardStop (budget timeoutMs.toNat (some cap))) 0 = false := by
  have hpos := budget_pos_iff timeoutMs hcap
  constructor
  · intro h
    have hne : timeoutMs ≠ 0 := hpos.mp h.nonzero
    refine ⟨hne, ?_⟩
    obtain ⟨t, result, heq, ht⟩ := h.returns
    obtain ⟨result', htime⟩ := executeInnerTimed_time executor sink timeoutMs (some cap)
      (Nat.pos_iff_ne_zero.mp h.nonzero)
    rw [executeWithBudget, htime] at heq
    have hfst := congrArg Prod.fst (Option.some.inj heq)
    -- the call returned in time, so the wait under the backstop ended in time
    rw [← Timeline.timeout_le_iff]
    exact hfst ▸ ht
  · rintro ⟨hne, hover⟩
    have hb := hpos.mpr hne
    obtain ⟨result, htime⟩ := executeInnerTimed_time executor sink timeoutMs (some cap)
      (Nat.pos_iff_ne_zero.mp hb)
    exact
      { nonzero := hb
        le_cap := min_le_right _ _
        grace_pos := Nat.lt_add_of_pos_right (budgetGrace_pos _)
        no_overflow := hardStop_lt timeoutMs (some cap)
        returns := ⟨_, result, htime, (Timeline.timeout_le_iff _ _ _).mpr hover⟩ }

/-- An agent with a minute of its own, under a ceiling of two seconds, whose tool never returns. -/
theorem hung_tool_cut_off :
    CeilingBinds 60000 (millis 2000) (fun _ => .stuck 0) .default :=
  (ceilingBinds_iff (fun _ => .stuck 0) .default 60000 (millis 2000) (by decide)).mpr
    ⟨by decide, by simp [Timeline.overruns]⟩

/-- The same tool, called by an agent whose `timeout_ms` is zero: the ceiling does not end it. -/
theorem unlimited_agent_escapes_ceiling :
    0 < millis 2000 ∧
    executeWithBudget 0 (millis 2000) (fun _ => .stuck 0) .default = none ∧
    ¬ CeilingBinds 0 (millis 2000) (fun _ => .stuck 0) .default := by
  -- zero is the lower of the two, and means no limit
  have hbudget : budget (0 : UInt64).toNat (some (millis 2000)) = 0 := Nat.zero_min _
  refine ⟨by decide, ?_, ?_⟩
  · rw [executeWithBudget, executeInnerTimed]
    simp only [hbudget, if_true]
    rfl
  · intro h
    exact absurd h.nonzero (by rw [hbudget]; exact lt_irrefl 0)

/-! ### The clock and the untimed model -/

/-- An executor that comes back before the backstop is not changed by it. -/
theorem executeInnerTimed_of_await {timeoutMs : UInt64} {maxTimeout : Option Nat} {t : Nat}
    {result : Except ExecutorError ExecutorOutcome}
    (hawait : (executor (budget timeoutMs.toNat maxTimeout)).await 0 = some (t, result))
    (hintime : t < hardStop (budget timeoutMs.toNat maxTimeout)) :
    executeInnerTimed timeoutMs maxTimeout executor sink = some (t, result) := by
  unfold executeInnerTimed
  simp only [durationAdd_grace, Option.map_some, Timeline.timeout_of_await hawait hintime, hawait,
    ite_self]

/-- An executor that never comes back is cut by the backstop, if there is a budget. -/
theorem executeInnerTimed_of_never {timeoutMs : UInt64} {maxTimeout : Option Nat}
    (hawait : (executor (budget timeoutMs.toNat maxTimeout)).await 0 = none) :
    (executeInnerTimed timeoutMs maxTimeout executor sink).map Prod.snd =
      if budget timeoutMs.toNat maxTimeout = 0 then none
      else some (.ok { (if millis timeoutMs.toNat ≠ 0 then sink else .default) with
        status := .timedOut,
        durationMs := asMillis (hardStop (budget timeoutMs.toNat maxTimeout)) }) := by
  have hcut := Timeline.timeout_of_await_none (hardStop (budget timeoutMs.toNat maxTimeout)) hawait
  unfold executeInnerTimed
  simp only [durationAdd_grace, Option.map_some, hawait]
  split
  · rfl
  · rcases hto : (executor (budget timeoutMs.toNat maxTimeout)).timeout
      (hardStop (budget timeoutMs.toNat maxTimeout)) 0 with ⟨t, _ | result⟩
    · rfl
    · -- the wait cannot end with a value that never comes
      rw [hto] at hcut
      exact absurd hcut (by simp)

/-- The timeline of an executor future that ends as `r` says. -/
def Shows (f : Timeline (Except ExecutorError ExecutorOutcome)) : ExecResult → Prop
  | .finished o => ∃ t, f.await 0 = some (t, .ok o)
  | .failed e => ∃ t, f.await 0 = some (t, .error e)
  | .suspended => f.await 0 = none
  | .panicked _ => False
  | .running => False

/-- **Without the clock**: when the executor comes back before the backstop or never, the result is
the one of `executeInner`. -/
theorem executeInnerTimed_untimed {σ : Type} [Platform σ] (kind : ExecutorKind) (passes : Nat)
    (ctx : ExecutionContext σ) (timeoutMs : UInt64) (maxTimeout : Option Nat) (env : σ)
    (hshows : Shows (executor (budget timeoutMs.toNat maxTimeout))
      (runExecutor kind passes (withBudget ctx timeoutMs.toNat maxTimeout) env).1)
    (hintime : ∀ t r, (executor (budget timeoutMs.toNat maxTimeout)).await 0 = some (t, r) →
      t < hardStop (budget timeoutMs.toNat maxTimeout)) :
    (executeInnerTimed timeoutMs maxTimeout executor
      (runExecutor kind passes (withBudget ctx timeoutMs.toNat maxTimeout) env).2.world.sink).map
        Prod.snd = executeInner kind passes ctx timeoutMs.toNat maxTimeout env := by
  have hback := fun t result sink hawait =>
    executeInnerTimed_of_await executor sink hawait (hintime t result hawait)
  unfold executeInner
  rcases hr : runExecutor kind passes (withBudget ctx timeoutMs.toNat maxTimeout) env with ⟨r, h⟩
  rw [hr] at hshows
  cases r with
  | finished o =>
    obtain ⟨t, hawait⟩ := hshows
    rw [hback t _ _ hawait]
    simp only [hr, Option.map_some]
  | failed e =>
    obtain ⟨t, hawait⟩ := hshows
    rw [hback t _ _ hawait]
    simp only [hr, Option.map_some]
  | panicked p => exact absurd hshows id
  | running => exact absurd hshows id
  | suspended =>
    rw [executeInnerTimed_of_never executor _ hshows]
    simp only [hr]
    simp only [withBudget, decide_eq_true_eq, hardStop]

end Runtime

end PgSynapse
