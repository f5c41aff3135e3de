import PgSynapse.Pgrx.Provenance

/-!
# The SQL entry points and the audit trail

`synapse.execute`, `synapse.execute_async` and `synapse.tool_call` (`sql_functions.rs`) with the
writers of `synapse.executions` they use (`sql/schema.sql`, `record_run` and `record_status`).

What the kernel did during a call is given: the steps of its run that reached the database and how
the run ended.  Each `Uuid::new_v4()` of the host is given too.  The rows of `synapse.messages` and
`synapse.traces` are not part of this model, nor are the columns of `synapse.executions` that hold
token counts, cost, duration, model and times.
-/

namespace PgSynapse

/-- A row of `synapse.executions`. -/
structure ExecutionRow where
  executionId : Uuid
  agentName : String
  input : String
  output : Option String
  status : String
  callerRole : Option String
  deriving DecidableEq, Repr

/-- `status_label`. -/
def statusLabel : OutcomeStatus → String
  | .completed => "completed"
  | .maxIterations => "max_iterations"
  | .timedOut => "timed_out"
  | .costCapExceeded => "cost_cap_exceeded"
  | .errored _ => "errored"

/-- How the kernel's run `id` ended.  The messages of an outcome carry the run's id; one of an executor
that a plugin registered may have none. -/
inductive RunEnd (id : Uuid) where
  | ok (o : ExecutorOutcome) (first : ∀ m ∈ o.messages.head?, m.executionId = id)
  | error (message : String)

/-- One run of the kernel: the id it minted, the steps that reached the database, and its end. -/
structure KernelRun where
  id : Uuid
  steps : List RunStep
  ending : RunEnd id

/-- The database: the backend with its tracked tables, and `synapse.executions`. -/
structure Host where
  backend : Backend (Session Tracked)
  executions : List ExecutionRow

/-! ### The audit writers -/

/-- `synapse.record_run`: drop the placeholder, if any, and insert the row. -/
def recordRun (supersedes : Option Uuid) (row : ExecutionRow) (rows : List ExecutionRow) :
    List ExecutionRow :=
  (rows.filter fun r => some r.executionId ≠ supersedes) ++ [row]

/-- `synapse.record_status`: insert the row, or update the status and output of the one there. -/
def recordStatus (row : ExecutionRow) (rows : List ExecutionRow) : List ExecutionRow :=
  if rows.any fun r => r.executionId = row.executionId then
    rows.map fun r =>
      if r.executionId = row.executionId then { r with status := row.status, output := row.output }
      else r
  else rows ++ [row]

/-- Who called, and what for. -/
structure CallInfo where
  agent : String
  input : String
  caller : Option String
  deriving DecidableEq, Repr

/-- The id `log_execution` takes: that of the first message, or a fresh one when there is none. -/
def outcomeId (o : ExecutorOutcome) (freshId : Uuid) : Uuid :=
  (o.messages.head?.map Message.executionId).getD freshId

/-- `log_execution`. -/
def logExecution (call : CallInfo) (o : ExecutorOutcome) (supersedes : Option Uuid)
    (freshId : Uuid) : List ExecutionRow → List ExecutionRow :=
  recordRun supersedes
    { executionId := outcomeId o freshId,
      agentName := call.agent, input := call.input, output := some o.output,
      status := statusLabel o.status, callerRole := call.caller }

/-- The row `record_status` is given. -/
def statusRow (call : CallInfo) (id : Uuid) (output : Option String) (status : String) :
    ExecutionRow :=
  { executionId := id, agentName := call.agent, input := call.input, output := output,
    status := status, callerRole := call.caller }

/-- A call of one of the entry points that returns; one that raises leaves nothing.  `audited` says
whether SPI took the audit statement at the end of the call: when it does not, the host warns (or ignores
it) and returns all the same. -/
inductive Invocation where
  | execute (call : CallInfo) (run : Option KernelRun) (freshId : Uuid) (audited : Bool)
  | executeAsync (call : CallInfo) (queuedId : Uuid) (placeholder : Bool)
      (run : Except String KernelRun) (freshId : Uuid) (audited : Bool)
  | toolCall (id : Uuid) (steps : List RunStep)

/-- A database without runs. -/
def Host.empty : Host := ⟨txStart ⟨[]⟩ none, []⟩

/-! ### Ids -/

mutual

/-- The ids of the runs a step delegates to. -/
def RunStep.delegateIds : RunStep → List Uuid
  | .delegate id steps => id :: delegateIdsIn steps
  | .execute _ => []
  | .query _ => []

/-- The ids of the runs the steps delegate to. -/
def delegateIdsIn : List RunStep → List Uuid
  | [] => []
  | step :: rest => step.delegateIds ++ delegateIdsIn rest

end

/-- The ids under which the tools of a call run. -/
def Invocation.writerIds : Invocation → List Uuid
  | .execute _ run _ _ => run.elim [] fun r => r.id :: delegateIdsIn r.steps
  | .executeAsync _ _ _ run _ _ =>
    match run with
    | .ok r => r.id :: delegateIdsIn r.steps
    | .error _ => []
  | .toolCall id steps => id :: delegateIdsIn steps

/-- The ids the host mints for rows during a call. -/
def Invocation.hostIds : Invocation → List Uuid
  | .execute _ _ freshId _ => [freshId]
  | .executeAsync _ queuedId _ _ freshId _ => [queuedId, freshId]
  | .toolCall _ _ => []

/-- Every id minted during a call. -/
def Invocation.ids (inv : Invocation) : List Uuid := inv.writerIds ++ inv.hostIds

/-! ### Known runs -/

/-- The run that a call itself starts. -/
def Invocation.runId : Invocation → Option Uuid
  | .execute _ run _ _ => run.map KernelRun.id
  | .executeAsync _ _ _ run _ _ => run.toOption.map KernelRun.id
  | .toolCall _ _ => none

/-- The row is the one a call writes about the run `run`: the call started that run, filed the row
under an id of its own, and put its agent and input there. -/
def Invocation.Describes (run : Uuid) (row : ExecutionRow) (inv : Invocation) : Prop :=
  inv.runId = some run ∧ (row.executionId = run ∨ row.executionId ∈ inv.hostIds) ∧
    match inv with
    | .execute call _ _ _ => row.agentName = call.agent ∧ row.input = call.input
    | .executeAsync call _ _ _ _ _ => row.agentName = call.agent ∧ row.input = call.input
    | .toolCall _ _ => False

/-- **Known runs**: every execution id that a SQL tool call put into the provenance table is the id of
an executions row that describes the run that made the write. -/
def Known (invs : List Invocation) (h : Host) : Prop :=
  ∀ l ∈ h.backend.cur.db.log, ∀ run ∈ l.author, ∀ p ∈ l.recorded,
    ∃ row ∈ h.executions, row.executionId = p.executionId ∧ ∃ inv ∈ invs, inv.Describes run row

/-- The effects of a call that stand, each with the run whose SQL it is. -/
def Invocation.standing : Invocation → List (Option Uuid × SqlEffect)
  | .execute _ run _ _ => run.elim [] fun r => standingAll r.id r.steps
  | .executeAsync _ _ _ run _ _ =>
    match run with
    | .ok r => standingAll r.id r.steps
    | .error _ => []
  | .toolCall id steps => standingAll id steps

/-- The row writes and entries of a call that stand. -/
def Invocation.logged (inv : Invocation) : List Logged :=
  (trail none inv.standing).filterMap Found.logged

end PgSynapse
