import PgSynapse.Runtime.ExecuteInner
import PgSynapse.Executor.Equiv.Executors

/-!
# Outcomes carry their run's id

Every outcome `execute_inner` returns has a first message, and that message has the run's execution
id.  This holds for the outcome an executor returns and for the one the backstop takes from the
progress sink.
-/

namespace PgSynapse

namespace Runtime

open LoopHarness

variable {σ : Type} [Platform σ]

/-- The harness a run starts from. -/
def startHarness (kind : ExecutorKind) (ctx : ExecutionContext σ) (env : σ) : LoopHarness σ :=
  match kind with
  | .conversation => LoopHarness.new ctx env
  | .react => LoopHarness.newWithPrefix ctx ReActExecutor.systemAddendum env
  | .reflection _ => LoopHarness.new ctx env

theorem runExecutor_stops (kind : ExecutorKind) (passes : Nat) (ctx : ExecutionContext σ)
    (env : σ) :
    ∃ rows calls, Stops (startHarness kind ctx env).seedMessages
      (runExecutor kind passes ctx env).1 (runExecutor kind passes ctx env).2 rows calls := by
  cases kind with
  | conversation => exact chatLoop_stops _ passes
  | react => exact chatLoop_stops _ passes
  | reflection maxRevisions => exact ReflectionExecutor.execute_stops maxRevisions ctx env

/-- A run's transcript begins with a row that carries its execution id, and so does the progress
sink. -/
theorem runExecutor_first (kind : ExecutorKind) (passes : Nat) (ctx : ExecutionContext σ)
    (env : σ) :
    ∃ m rest calls, m.executionId = ctx.executionId ∧
      Stops (startHarness kind ctx env) (runExecutor kind passes ctx env).1
        (runExecutor kind passes ctx env).2 (m :: rest) calls := by
  obtain ⟨seed, g, hseed, -⟩ := (startHarness kind ctx env).seedMessages_grows
  obtain ⟨m, seed', rfl⟩ := List.exists_cons_of_ne_nil hseed
  obtain ⟨rows, calls, s⟩ := runExecutor_stops kind passes ctx env
  have hctx : (startHarness kind ctx env).ctx = ctx := by cases kind <;> rfl
  refine ⟨m, seed' ++ rows, calls, ?_, s.trans g⟩
  rw [g.stamped m List.mem_cons_self, hctx]

theorem outcome_first (kind : ExecutorKind) (passes : Nat) (ctx : ExecutionContext σ) (env : σ)
    (o : ExecutorOutcome) (h : (runExecutor kind passes ctx env).1 = .finished o) :
    o.messages.head?.map Message.executionId = some ctx.executionId := by
  obtain ⟨m, rest, calls, hm, s⟩ := runExecutor_first kind passes ctx env
  have hempty : (startHarness kind ctx env).messages = [] := by cases kind <;> rfl
  rw [s.outcome o h, s.grows.messages, hempty]
  simpa using hm

theorem sink_first (kind : ExecutorKind) (passes : Nat) (ctx : ExecutionContext σ) (env : σ)
    (hprogress : ctx.progress = true) :
    (runExecutor kind passes ctx env).2.world.sink.messages.head?.map Message.executionId =
      some ctx.executionId := by
  obtain ⟨m, rest, calls, hm, s⟩ := runExecutor_first kind passes ctx env
  have hempty : (startHarness kind ctx env).world.sink.messages = [] := by cases kind <;> rfl
  have hctx : (startHarness kind ctx env).ctx = ctx := by cases kind <;> rfl
  rw [s.grows.sink, hempty, hctx, if_pos hprogress]
  simpa using hm

omit [Platform σ] in
/-- A run whose budget is not zero has a progress sink. -/
theorem withBudget_progress (ctx : ExecutionContext σ) (timeoutMs : Nat) (maxTimeout : Option Nat)
    (h : (withBudget ctx timeoutMs maxTimeout).timeout ≠ 0) :
    (withBudget ctx timeoutMs maxTimeout).progress = true := by
  simp only [withBudget, budget, decide_eq_true_eq] at h ⊢
  intro hzero
  apply h
  cases maxTimeout with
  | none => exact hzero
  | some cap => rw [hzero]; exact Nat.zero_min cap

/-- **The first message of an outcome**: there is one, and it carries the run's execution id. -/
theorem executeInner_first (kind : ExecutorKind) (passes : Nat) (ctx : ExecutionContext σ)
    (timeoutMs : Nat) (maxTimeout : Option Nat) (env : σ) (o : ExecutorOutcome)
    (h : executeInner kind passes ctx timeoutMs maxTimeout env = some (.ok o)) :
    o.messages.head?.map Message.executionId = some ctx.executionId := by
  have hfinished := outcome_first kind passes (withBudget ctx timeoutMs maxTimeout) env o
  have hsink := sink_first kind passes (withBudget ctx timeoutMs maxTimeout) env
  unfold executeInner at h
  simp only at h
  rcases hr : runExecutor kind passes (withBudget ctx timeoutMs maxTimeout) env with ⟨r, h'⟩
  rw [hr] at h hfinished hsink
  cases r with
  | finished o' =>
    obtain rfl : o' = o := by simpa using h
    exact hfinished rfl
  | suspended =>
    simp only at h
    split at h
    · exact absurd h (by simp)
    · have hprogress := withBudget_progress ctx timeoutMs maxTimeout ‹_›
      simp only [hprogress, if_true] at h
      rw [← Except.ok.inj (Option.some.inj h)]
      exact hsink hprogress
  | _ => exact absurd h (by simp)

end Runtime

end PgSynapse
