import PgSynapse.Pgrx.RunDocument
import Mathlib.Data.List.Sort

/-!
# The life of an audit trail

What else writes the audit tables, `synapse.record_status` and `synapse.purge_traces`, and the text
that `synapse.trajectory` renders of one run (`sql_functions.rs`, `sql/schema.sql`).

`none` is an error that Postgres raises, which undoes the whole statement.
-/

namespace PgSynapse

/-! ### Writing -/

namespace AuditTables

/-- INSERT ... ON CONFLICT DO UPDATE on `synapse.executions`. -/
def upsertRun (t : AuditTables) (row : RunRow) (f : RunRow → RunRow)
    (hf : ∀ r, (f r).executionId = r.executionId) : AuditTables where
  executions := t.executions.upsert row f hf
  messages := t.messages
  traces := t.traces
  messages_fk m hm := Table.mem_keys_upsert.mpr (.inl (t.messages_fk m hm))
  traces_fk e he := Table.mem_keys_upsert.mpr (.inl (t.traces_fk e he))

/-- DELETE of executions, which takes their messages and their traces with them. -/
def deleteRuns (t : AuditTables) (p : RunRow → Bool) : AuditTables where
  executions := t.executions.keep fun r => !p r
  messages := t.messages.keep fun m => m.executionId ∈ (t.executions.keep fun r => !p r).keys
  traces := t.traces.keep fun e => e.executionId ∈ (t.executions.keep fun r => !p r).keys
  messages_fk m hm := by simpa using (List.mem_filter.mp hm).2
  traces_fk e he := by simpa using (List.mem_filter.mp he).2

end AuditTables

namespace RunDocument

/-- `synapse.record_status`. -/
def recordStatus (model : String → Option String) (now : Nat) (doc : Value) (t : AuditTables) :
    Option AuditTables :=
  if !doc.storable then none
  else do
    let executionId ← ← (doc.column "execution_id").uuidColumn
    let agentName ← ← (doc.column "agent_name").textColumn
    let input ← (doc.column "input").textColumn
    let output ← (doc.column "output").textColumn
    let status ← ← (doc.column "status").textColumn
    let callerRole ← (doc.column "caller_role").textColumn
    -- a run that is only queued has not finished
    let finishedAt := if status = "queued" then none else some now
    let row : RunRow :=
      { executionId, agentName, input := input.getD "", output, status, callerRole, tokensIn := 0,
        tokensOut := 0, costUsd := none, durationMs := none, model := model agentName,
        startedAt := now, finishedAt }
    return t.upsertRun row (fun r => { r with status, output, finishedAt }) fun _ => rfl

end RunDocument

/-- What a purge takes: a run that was started before the cutoff, of the agent if one is given. -/
def purged (cutoff : Int) (agentFilter : Option String) (r : RunRow) : Bool :=
  (r.startedAt : Int) < cutoff && agentFilter.all fun agent => r.agentName = agent

/-- `purge_traces`.  `minusDays` is `now() - interval '… days'` in the time zone of the session, where
that is a time. -/
def purgeTraces (minusDays : Nat → Int → Option Int) (now : Nat) (olderThanDays : Int)
    (agentFilter : Option String) (t : AuditTables) : Option AuditTables :=
  (minusDays now olderThanDays).map fun cutoff => t.deleteRuns (purged cutoff agentFilter)

/-- A write of the audit tables, as the extension makes it. -/
inductive AuditWrite where
  | run (money : Money) (call : CallInfo) (o : ExecutorOutcome) (level : TraceLevel)
    (supersedes : Option Uuid) (freshId : Uuid)
  | status (call : CallInfo) (id : Uuid) (output : Option String) (label : String)
  | purge (olderThanDays : Int) (agentFilter : Option String)

/-- What Postgres is asked beside the tables: the model of an agent's profile, the time, and the
calendar. -/
structure AuditClock where
  model : String → Option String
  now : Nat
  minusDays : Nat → Int → Option Int

/-- A write, on the tables; one that Postgres refuses leaves them. -/
def AuditWrite.apply (c : AuditClock) (w : AuditWrite) (t : AuditTables) : AuditTables :=
  let written := match w with
    | .run money call o level supersedes freshId =>
      RunDocument.recordRun c.model c.now
        (RunDocument.logExecution money call o level supersedes freshId) t
    | .status call id output label =>
      RunDocument.recordStatus c.model c.now (RunDocument.statusDocument call id output label) t
    | .purge olderThanDays agentFilter => purgeTraces c.minusDays c.now olderThanDays agentFilter t
  written.getD t

/-- Writes one after another, each at its own time. -/
def auditTrail (history : List (AuditClock × AuditWrite)) (t : AuditTables) : AuditTables :=
  history.foldl (fun t w => w.2.apply w.1 t) t

/-! ### Reading -/

/-- How Postgres writes values: `jsonb::text`, and `upper` of the database's locale. -/
structure PgText where
  jsonb : Value → String
  upper : String → String

namespace Trajectory

/-- `synapse.trajectory_trunc`. -/
def trajectoryTrunc (t : Option String) (n : Option Int) : String :=
  match t, n with
  | none, _ => ""
  | some t, none => t
  | some t, some n =>
    if n ≤ 0 ∨ (t.length : Int) ≤ n then t
    else String.ofList (t.toList.take n.toNat) ++
      "\n[... observation truncated by the renderer at " ++ toString n ++ " chars; " ++
      toString ((t.length : Int) - n) ++ " more not shown. This cut is ours, not the agent's.]"

/-- The row of a tool that is rendered as an error: its text starts as that of a failed call does, or
its output is an object with an `error`. -/
def looksFailed (m : MessageRow) : Bool :=
  "ERROR:".toList.isPrefixOf (m.content.getD "").toList ||
    m.toolOutput.any fun v => match v with
      | .object _ => (v.get? "error").isSome
      | _ => false

/-- The line of a message. -/
def line (pg : PgText) (n : Option Int) (m : MessageRow) : String :=
  let content := m.content.getD ""
  match m.role with
  | "system" => "[SYSTEM]\n" ++ content
  | "user" => "[USER]\n" ++ content
  | "assistant" =>
    match m.toolName with
    | some tool => "[ACTION] " ++ tool ++ " " ++ (m.toolInput.map pg.jsonb).getD "\x7b\x7d"
    | none => "[ASSISTANT]\n" ++ content
  | "tool" =>
    (if looksFailed m then "[ERROR] " else "[OBSERVATION] ") ++ m.toolName.getD "?" ++ "\n" ++
      trajectoryTrunc (some (m.content.getD ((m.toolOutput.map pg.jsonb).getD ""))) n
  | role => "[" ++ pg.upper role ++ "]\n" ++ content

/-- The header of a run. -/
def header (r : RunRow) : String :=
  "[EXECUTION] " ++ r.executionId.text ++ " agent=" ++ r.agentName ++ " status=" ++ r.status ++
    " tokens_in=" ++ toString r.tokensIn ++ " tokens_out=" ++ toString r.tokensOut ++
    " duration_ms=" ++ (r.durationMs.map toString).getD "?"

/-- The text of a run, from its row and its messages in order. -/
def render (pg : PgText) (n : Option Int) (id : Uuid) (row : Option RunRow)
    (ms : List MessageRow) : String :=
  (row.map header).getD ("[EXECUTION] " ++ id.text ++ " (no executions row)") ++ "\n\n" ++
    if ms.isEmpty then "(no messages persisted; raise trace_level)"
    else "\n\n".intercalate (ms.map (line pg n))

/-- The messages of a run, `ORDER BY seq`. -/
def messagesOf (t : AuditTables) (id : Uuid) : List MessageRow :=
  (t.messages.rows.filter fun m => m.executionId = id).insertionSort fun a b => a.seq ≤ b.seq

/-- `synapse.trajectory`. -/
def trajectory (pg : PgText) (t : AuditTables) (id : Uuid) (n : Option Int) : String :=
  render pg n id (t.executions.get id) (messagesOf t id)

end Trajectory

end PgSynapse
