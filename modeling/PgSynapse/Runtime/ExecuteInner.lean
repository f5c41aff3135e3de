import PgSynapse.Executor.Executors

/-!
# `Runtime::execute_inner`: the wall-clock budget around an executor

The budget of a run, the progress sink, and the backstop that drops a stuck executor future
(`runtime/mod.rs`).  Durations are in nanoseconds.
-/

namespace PgSynapse

/-- One millisecond. -/
def millis (n : Nat) : Nat := n * 1000000

/-- `budget_grace`. -/
def budgetGrace (budget : Nat) : Nat := min (max (budget / 10) (millis 50)) (millis 5000)

/-- The built-in executors. -/
inductive ExecutorKind where
  | conversation
  | react
  | reflection (maxRevisions : UInt32)
  deriving DecidableEq, Repr

namespace Runtime

variable {σ : Type} [Platform σ]

/-- The lower of the agent's own budget and the host's ceiling. -/
def budget (timeoutMs : Nat) (maxTimeout : Option Nat) : Nat :=
  match maxTimeout with
  | some cap => min (millis timeoutMs) cap
  | none => millis timeoutMs

omit [Platform σ] in
/-- The context with the agent's budget: a progress sink is set when the agent has a budget of its
own. -/
def withBudget (ctx : ExecutionContext σ) (timeoutMs : Nat) (maxTimeout : Option Nat) :
    ExecutionContext σ :=
  { ctx with timeout := budget timeoutMs maxTimeout, progress := decide (millis timeoutMs ≠ 0) }

/-- `executor.execute(ctx)`, followed for up to `passes` passes of a chat loop. -/
def runExecutor (kind : ExecutorKind) (passes : Nat) (ctx : ExecutionContext σ) (env : σ) :
    ExecResult × LoopHarness σ :=
  match kind with
  | .conversation => ConversationExecutor.execute passes ctx env
  | .react => ReActExecutor.execute passes ctx env
  | .reflection maxRevisions => ReflectionExecutor.execute maxRevisions ctx env

theorem runExecutor_reflection (maxRevisions : UInt32) (passes : Nat) (ctx : ExecutionContext σ)
    (env : σ) : runExecutor (.reflection maxRevisions) passes ctx env =
      ReflectionExecutor.execute maxRevisions ctx env := rfl

/-- What `execute_inner` returns once the executor is known to end in `r`, or to wait for a call
that is not back when the backstop fires, because it never returns or because it is slow: with a
budget the backstop then cuts the executor and returns the progress sink.  There is no result while
the executor is still running, when it waits for ever, and when it panics.

The call waits out of its poll: `tokio::time::timeout` looks at the clock between two polls only, and
`executeInnerTimed` has those. -/
def executeInner (kind : ExecutorKind) (passes : Nat) (ctx : ExecutionContext σ)
    (timeoutMs : Nat) (maxTimeout : Option Nat) (env : σ) :
    Option (Except ExecutorError ExecutorOutcome) :=
  let ctx := withBudget ctx timeoutMs maxTimeout
  match runExecutor kind passes ctx env with
  | (.finished o, _) => some (.ok o)
  | (.failed e, _) => some (.error e)
  | (.panicked _, _) => none
  | (.running, _) => none
  | (.suspended, h) =>
    if ctx.timeout = 0 then none
    else
      let hardStop := ctx.timeout + budgetGrace ctx.timeout
      let sink := if ctx.progress then h.world.sink else .default
      some (.ok { sink with status := .timedOut, durationMs := asMillis hardStop })

end Runtime

end PgSynapse
