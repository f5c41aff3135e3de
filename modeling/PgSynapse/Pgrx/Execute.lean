import PgSynapse.Pgrx.RunDocument
import PgSynapse.Runtime.Execute

/-!
# `synapse.execute` and `synapse.execute_async`, exit by exit

The two entry points that run an agent (`sql_functions.rs`) with every way they end, the envelope or
the id they hand back, and the rows of `synapse.executions` with their token counters
(`sql/schema.sql`, `record_run` and `record_status`).

What surrounds a call is given: how SPI and the kernel answer, and each `Uuid::new_v4()`.  A statement
that Postgres refuses raises an error that unwinds through the call, which then hands nothing back;
`none` stands for that.
-/

namespace PgSynapse

/-- How an SPI call came back: done, an `Err` of SPI itself, or an error that Postgres raised. -/
inductive SpiResult where
  | ok
  | err (message : String)
  | raised
  deriving DecidableEq, Repr

/-- `synapse.executions`. -/
abbrev Executions := Table fun row : AuditRow => row.executionId

/-! ### The audit writers -/

namespace Audit

/-- DELETE of the placeholder, if any. -/
def dropPlaceholder (supersedes : Option Uuid) (t : Executions) : Executions :=
  t.keep fun r => some r.executionId ≠ supersedes

/-- `synapse.record_run`: drop the placeholder, if any, and insert the row.  Postgres refuses a document
that it cannot read, and an id that is taken. -/
def recordRun (doc : Value) (supersedes : Option Uuid) (row : AuditRow) (t : Executions) :
    Option Executions :=
  let t := dropPlaceholder supersedes t
  if RunDocument.readable doc then
    if h : row.executionId ∈ t.keys then none else some (t.insert row h)
  else none

/-- `synapse.record_status`: insert the row, or update the status and output of the one there.  The
token counters are not named, so they are the column's default in a new row. -/
def recordStatus (row : ExecutionRow) (t : Executions) : Executions :=
  t.upsert { row with tokensIn := 0, tokensOut := 0 }
    (fun r => { r with status := row.status, output := row.output }) fun _ => rfl

/-- The row `log_execution` writes; without a message its id is a fresh one. -/
def outcomeRow (call : CallInfo) (o : ExecutorOutcome) (freshId : Uuid) : AuditRow where
  executionId := (firstId o).getD freshId
  agentName := call.agent
  input := call.input
  output := some o.output
  status := statusLabel o.status
  callerRole := call.caller
  tokensIn := o.tokensIn.toNat
  tokensOut := o.tokensOut.toNat

/-- An audit statement on the table.  When SPI itself fails the host goes on without the row. -/
def write (spi : SpiResult) (statement : Executions → Option Executions) (t : Executions) :
    Option Executions :=
  match spi with
  | .ok => statement t
  | .err _ => some t
  | .raised => none

/-- `log_execution`. -/
def logExecution (spi : SpiResult) (money : Money) (call : CallInfo) (o : ExecutorOutcome)
    (level : TraceLevel) (supersedes : Option Uuid) (freshId : Uuid) :
    Executions → Option Executions :=
  write spi (recordRun (RunDocument.logExecution money call o level supersedes freshId) supersedes
    (outcomeRow call o freshId))

/-- `record_status`, the host's side.  Postgres refuses a document with U+0000 in it. -/
def logStatus (spi : SpiResult) (call : CallInfo) (id : Uuid) (output : Option String)
    (status : String) : Executions → Option Executions :=
  write spi fun t =>
    if (RunDocument.statusDocument call id output status).storable then
      some (recordStatus (statusRow call id output status) t)
    else none

end Audit

/-! ### The kernel -/

/-- What a run of the kernel came to: its result, unless it panicked, and what its own statements
did to `synapse.executions`. -/
structure KernelAnswer where
  result : Option (Except RuntimeError ExecutorOutcome)
  executions : Executions → Executions

/-- The kernel as the entry points use it: its agents by name, and the run of an agent under a
ceiling. -/
structure Kernel where
  agents : String → Option AgentRow
  run : CallInfo → Option Nat → KernelAnswer

/-- `is_egress_tool`. -/
def isEgressTool (name : String) : Bool :=
  name ∈ ["http_get", "http_head", "http_post", "search_news", "fetch_feed", "read_article",
    "load_url", "remote_query", "remote_exec", "call_agent"]

/-- The first network tool of an agent. -/
def Kernel.egressTool (kernel : Kernel) (agent : String) : Option String :=
  (kernel.agents agent).bind fun a => a.tools.find? isEgressTool

/-! ### Envelopes -/

/-- The envelope of a call that failed. -/
def errorEnvelope (message : String) : Value :=
  .obj [("error", .string message), ("status", .string "errored")]

/-- The error of an agent that is refused in inline trigger mode. -/
def inlineRefusal (agent bad : String) : String :=
  "agent '" ++ agent ++ "' has the network tool '" ++ bad ++ "' and cannot run in inline " ++
    "trigger mode, which holds the writing transaction open for the whole run; attach it in " ++
    "queue mode instead"

/-- The envelope of a run that ended with an outcome. -/
def outcomeEnvelope (money : Money) (o : ExecutorOutcome) : Value :=
  .obj [("execution_id", .string (((Audit.firstId o).map Uuid.text).getD "")),
    ("output", .string o.output), ("status", .string (statusLabel o.status)),
    ("tokens_in", .nat o.tokensIn.toNat), ("tokens_out", .nat o.tokensOut.toNat),
    ("cost_usd", (o.costUsd.map money.json).getD .null), ("duration_ms", .nat o.durationMs),
    ("iterations", .nat (o.messages.filter fun m => m.role = .assistant).length),
    ("tool_calls", .array (o.toolCalls.map fun tc =>
      .obj [("name", .string tc.name), ("args", tc.args)]))]

/-! ### The entry points -/

/-- What a call of an entry point meets: the trigger depth and the ceiling of inline mode
(`pg_synapse.inline_timeout_ms`), how `ensure_kernel` and `kernel_handle` answer, how SPI takes the
placeholder and the row of the run, the trace level of the agent, and the ids the host mints. -/
structure EntryCall extends CallInfo where
  triggerDepth : Option Int
  inlineTimeoutMs : Int
  ensured : SpiResult
  kernel : Except String Kernel
  placeholderSpi : SpiResult
  auditSpi : SpiResult
  traceLevel : TraceLevel
  queuedId : Uuid
  freshId : Uuid

namespace EntryCall

/-- The call is made inside a trigger. -/
def isInline (c : EntryCall) : Bool := 0 < c.triggerDepth.getD 0

/-- The ceiling of a run. -/
def ceiling (c : EntryCall) : Option Nat :=
  if c.isInline then some (millis (max c.inlineTimeoutMs 1).toNat) else none

/-- The network tool for which the call is refused. -/
def refusedFor (c : EntryCall) (kernel : Kernel) : Option String :=
  if c.isInline then kernel.egressTool c.agent else none

/-- The row of a run, under the id of its outcome or a fresh one. -/
def logOutcome (money : Money) (c : EntryCall) (o : ExecutorOutcome) (supersedes : Option Uuid) :
    Executions → Option Executions :=
  Audit.logExecution c.auditSpi money c.toCallInfo o c.traceLevel supersedes c.freshId

/-- The `errored` row of a run that failed, under the given id. -/
def logError (c : EntryCall) (id : Uuid) (message : String) : Executions → Option Executions :=
  Audit.logStatus c.auditSpi c.toCallInfo id (some message) "errored"

/-- `synapse.execute`: the envelope and the executions. -/
def execute (money : Money) (c : EntryCall) (t : Executions) : Option (Value × Executions) :=
  match c.ensured with
  | .raised => none
  | .err e => some (errorEnvelope e, t)
  | .ok =>
    match c.kernel with
    | .error e => some (errorEnvelope e, t)
    | .ok kernel =>
      match c.refusedFor kernel with
      | some bad => some (errorEnvelope (inlineRefusal c.agent bad), t)
      | none =>
        let answer := kernel.run c.toCallInfo c.ceiling
        match answer.result with
        | none => none
        | some (.ok o) =>
          (c.logOutcome money o none (answer.executions t)).map fun t => (outcomeEnvelope money o, t)
        | some (.error e) =>
          (c.logError c.freshId (e.text money.text) (answer.executions t)).map fun t =>
            (errorEnvelope (e.text money.text), t)

/-- `synapse.execute_async`: the id and the executions. -/
def executeAsync (money : Money) (c : EntryCall) (t : Executions) : Option (Uuid × Executions) :=
  match c.ensured with
  | .raised => none
  -- `pgrx::error!`
  | .err _ => none
  | .ok =>
    (Audit.logStatus c.placeholderSpi c.toCallInfo c.queuedId none "queued" t).bind fun t =>
      match c.kernel with
      | .error e => (c.logError c.queuedId ("kernel error: " ++ e) t).map fun t => (c.queuedId, t)
      | .ok kernel =>
        let answer := kernel.run c.toCallInfo none
        match answer.result with
        | none => none
        | some (.ok o) =>
          (c.logOutcome money o (some c.queuedId) (answer.executions t)).map fun t =>
            ((Audit.firstId o).getD c.queuedId, t)
        | some (.error e) =>
          (c.logError c.queuedId (e.text money.text) (answer.executions t)).map fun t =>
            (c.queuedId, t)

end EntryCall

/-- The kernel of a backend: its runtime, the outside at the start of the run, the id the run mints,
and what the run's statements do to `synapse.executions`. -/
def Runtime.kernel {σ ε : Type} [Platform σ] (rt : Runtime σ ε) (passes : Nat) (env : σ)
    (executionId : Uuid) (interruptCheck : Option (σ → Option String × σ))
    (writes : Executions → Executions) : Kernel where
  agents := rt.agents
  run call maxTimeout :=
    { result := (rt.execute passes call.agent
        ⟨call.input, call.caller, executionId, interruptCheck⟩ maxTimeout env).1
      executions := writes }

end PgSynapse
