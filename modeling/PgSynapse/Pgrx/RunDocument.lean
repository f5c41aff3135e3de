import PgSynapse.Lib.Table
import PgSynapse.Pgrx.SqlFunctions

/-!
# The document of a run

`log_execution` (`sql_functions.rs`) puts a run into one JSON document, as much of it as the agent's
trace level asks for (`types/trace.rs`).  `synapse.record_run` (`sql/schema.sql`) takes the document
apart again and inserts the rows of `synapse.executions`, `synapse.messages` and `synapse.traces`.  A run
without an outcome has a document of its own, for `synapse.record_status`.

`none` is an error that Postgres raises, which undoes the whole statement.  A value is read only where
it is of a kind that `log_execution` writes in its place.
-/

namespace PgSynapse

namespace TraceLevel

/-- `TraceLevel::should_persist_messages`. -/
def shouldPersistMessages (level : TraceLevel) (runSucceeded : Bool) : Bool :=
  match level with
  | .off => false
  | .error => !runSucceeded
  | _ => true

/-- `TraceLevel::should_persist_events`. -/
def shouldPersistEvents : TraceLevel → Bool
  | .debug => true
  | .full => true
  | _ => false

end TraceLevel

/-- `EventKind::as_str`. -/
def EventKind.asStr : EventKind → String
  | .llmRequest => "llm_request"
  | .llmResponse => "llm_response"
  | .toolStart => "tool_start"
  | .toolEnd => "tool_end"
  | .toolError => "tool_error"
  | .emptyTurn => "empty_turn"
  | .repeatedToolCall => "repeated_tool_call"
  | .retryAttempt => "retry_attempt"
  | .costCapCheck => "cost_cap_check"
  | .iterationCapCheck => "iteration_cap_check"
  | .timeoutCheck => "timeout_check"

/-! ### Writing -/

/-- How the machine writes an `f64` amount: as text and as JSON. -/
structure Money where
  text : Rat → String
  json : Rat → Value

/-- The execution id of an outcome, if it has a message. -/
def Audit.firstId (o : ExecutorOutcome) : Option Uuid := o.messages.head?.map Message.executionId

namespace RunDocument

/-- The members of the entry of a message. -/
def messageFields (m : Message) : List (String × Value) :=
  [("seq", .nat m.seq.toNat), ("role", .string m.role.text), ("content", .ofOption m.content),
    ("tool_call_id", .ofOption m.toolCallId), ("tool_name", .ofOption m.toolName),
    ("tool_input", m.toolInput.getD .null), ("tool_output", m.toolOutput.getD .null)]

/-- The entry of a message. -/
def messageEntry (m : Message) : Value := .obj (messageFields m)

/-- The members of the entry of an event, with its place in the run. -/
def eventFields (ev : ExecutionEvent × Nat) : List (String × Value) :=
  [("seq", .nat ev.2), ("event", .string ev.1.kind.asStr), ("payload", ev.1.payload)]

/-- The entry of an event. -/
def eventEntry (ev : ExecutionEvent × Nat) : Value := .obj (eventFields ev)

/-- The messages that are kept. -/
def keptMessages (level : TraceLevel) (o : ExecutorOutcome) : List Message :=
  if level.shouldPersistMessages (o.status = .completed) then o.messages else []

/-- The events that are kept. -/
def keptEvents (level : TraceLevel) (o : ExecutorOutcome) : List ExecutionEvent :=
  if level.shouldPersistEvents then o.events else []

/-- The id of a run: that of its first message, or a fresh one. -/
def runId (o : ExecutorOutcome) (freshId : Uuid) : Uuid := (Audit.firstId o).getD freshId

/-- The members of the entry of the run itself. -/
def executionFields (money : Money) (call : CallInfo) (o : ExecutorOutcome) (freshId : Uuid) :
    List (String × Value) :=
  [("execution_id", .string (runId o freshId).text), ("agent_name", .string call.agent),
    ("input", .string call.input), ("output", .string o.output),
    ("status", .string (statusLabel o.status)), ("tokens_in", .nat o.tokensIn.toNat),
    ("tokens_out", .nat o.tokensOut.toNat), ("cost_usd", (o.costUsd.map money.json).getD .null),
    ("duration_ms", .nat o.durationMs), ("caller_role", .ofOption call.caller)]

/-- The entry of the run itself. -/
def executionEntry (money : Money) (call : CallInfo) (o : ExecutorOutcome) (freshId : Uuid) : Value :=
  .obj (executionFields money call o freshId)

/-- `log_execution`: the document of a run. -/
def logExecution (money : Money) (call : CallInfo) (o : ExecutorOutcome) (level : TraceLevel)
    (supersedes : Option Uuid) (freshId : Uuid) : Value :=
  let doc := Value.obj [("execution", executionEntry money call o freshId),
    ("messages", .array ((keptMessages level o).map messageEntry)),
    ("events", .array ((keptEvents level o).zipIdx.map eventEntry))]
  match supersedes with
  | none => doc
  | some id => doc.set "supersedes" (.string id.text)

/-- The members of the document of a run without an outcome. -/
def statusFields (call : CallInfo) (id : Uuid) (output : Option String) (status : String) :
    List (String × Value) :=
  [("execution_id", .string id.text), ("agent_name", .string call.agent),
    ("input", .string call.input), ("output", .ofOption output), ("status", .string status),
    ("caller_role", .ofOption call.caller)]

/-- `record_status`, the host's side: the document of a run without an outcome. -/
def statusDocument (call : CallInfo) (id : Uuid) (output : Option String) (status : String) :
    Value :=
  .obj (statusFields call id output status)

end RunDocument

/-! ### Documents in Postgres -/

/-- A text without U+0000. -/
def Text.noNul (s : String) : Bool := !s.toList.contains (Char.ofNat 0)

namespace Value

mutual

/-- Whether a document can be a `jsonb`: no text and no key in it has U+0000. -/
def storable : Value → Bool
  | .string s => Text.noNul s
  | .array items => storableItems items
  | .object fields => storableFields fields
  | _ => true

/-- Every element. -/
def storableItems : List Value → Bool
  | [] => true
  | v :: rest => storable v && storableItems rest

/-- Every key and every member. -/
def storableFields : List (String × Value) → Bool
  | [] => true
  | (key, v) :: rest => Text.noNul key && storable v && storableFields rest

end

/-- A column of a record; a member that is missing is null. -/
def column (v : Value) (key : String) : Value := (v.get? key).getD .null

/-! ### Columns

`none` is an error, and `some none` is NULL. -/

/-- A `text` column. -/
def textColumn : Value → Option (Option String)
  | .null => some none
  | .string s => some (some s)
  | _ => none

/-- A column of integers of some bits: `int` and `bigint`. -/
def intColumn (bits : Nat) : Value → Option (Option Int)
  | .null => some none
  | .number (.int i) => if -2 ^ (bits - 1) ≤ i ∧ i < 2 ^ (bits - 1) then some (some i) else none
  | _ => none

/-- A `jsonb` column. -/
def jsonbColumn : Value → Option Value
  | .null => none
  | v => some v

end Value

/-- The number a decimal stands for. -/
def F64.toRat (f : F64) : Rat :=
  let abs := if 0 ≤ f.exp then mkRat (f.digits * 10 ^ f.exp.toNat) 1
    else mkRat f.digits (10 ^ (-f.exp).toNat)
  if f.neg then -abs else abs

/-- `numeric` of a JSON number. -/
def Number.toRat : Number → Rat
  | .int i => i
  | .float f => f.toRat

/-- Rounding to six digits after the point, halves away from zero. -/
def roundSix (q : Rat) : Rat :=
  let units := ((if q < 0 then -q else q) * 1000000 + 1 / 2).floor
  mkRat (if q < 0 then -units else units) 1000000

/-- A `NUMERIC(12,6)` column. -/
def Value.costColumn : Value → Option (Option Rat)
  | .null => some none
  | .number n =>
    let q := roundSix n.toRat
    if -1000000 < q ∧ q < 1000000 then some (some q) else none
  | _ => none

/-- A text cast to `uuid`. -/
def Value.uuidColumn : Value → Option (Option Uuid)
  | .null => some none
  | .string s => (Uuid.read s).map some
  | _ => none

/-! ### The tables -/

/-- A row of `synapse.executions` with its token counters. -/
structure AuditRow extends ExecutionRow where
  tokensIn : Nat
  tokensOut : Nat
  deriving DecidableEq, Repr

/-- A row of `synapse.executions`. -/
structure RunRow extends AuditRow where
  costUsd : Option Rat
  durationMs : Option Int
  model : Option String
  startedAt : Nat
  finishedAt : Option Nat
  deriving DecidableEq, Repr

/-- A row of `synapse.messages`. -/
structure MessageRow where
  executionId : Uuid
  seq : Int
  role : String
  content : Option String
  toolCallId : Option String
  toolName : Option String
  toolInput : Option Value
  toolOutput : Option Value
  ts : Nat
  deriving DecidableEq, Repr

/-- A row of `synapse.traces`. -/
structure TraceRow where
  executionId : Uuid
  seq : Int
  event : String
  payload : Option Value
  ts : Nat
  deriving DecidableEq, Repr

/-- The three tables of the audit trail, with their primary and their foreign keys. -/
structure AuditTables where
  executions : Table fun r : RunRow => r.executionId
  messages : Table fun r : MessageRow => (r.executionId, r.seq)
  traces : Table fun r : TraceRow => (r.executionId, r.seq)
  messages_fk : ∀ m ∈ messages.rows, m.executionId ∈ executions.keys
  traces_fk : ∀ e ∈ traces.rows, e.executionId ∈ executions.keys

namespace AuditTables

/-- DELETE of an execution, which takes its messages and its traces with it. -/
def deleteRun (t : AuditTables) (id : Uuid) : AuditTables where
  executions := t.executions.keep fun r => r.executionId ≠ id
  messages := t.messages.keep fun r => r.executionId ≠ id
  traces := t.traces.keep fun r => r.executionId ≠ id
  messages_fk m hm := by
    obtain ⟨hm, hne⟩ := List.mem_filter.mp hm
    refine Table.mem_keys_keep (t.messages_fk m hm) fun r _ hr => ?_
    rw [hr]
    exact hne
  traces_fk e he := by
    obtain ⟨he, hne⟩ := List.mem_filter.mp he
    refine Table.mem_keys_keep (t.traces_fk e he) fun r _ hr => ?_
    rw [hr]
    exact hne

/-- What the keys ask of the rows of a run. -/
structure Admits (t : AuditTables) (row : RunRow) (messages : List MessageRow)
    (traces : List TraceRow) : Prop where
  executions_pk : row.executionId ∉ t.executions.keys
  messages_pk : (t.messages.keys ++ messages.map fun m => (m.executionId, m.seq)).Nodup
  traces_pk : (t.traces.keys ++ traces.map fun e => (e.executionId, e.seq)).Nodup
  messages_fk : ∀ m ∈ messages, m.executionId ∈ t.executions.keys ++ [row.executionId]
  traces_fk : ∀ e ∈ traces, e.executionId ∈ t.executions.keys ++ [row.executionId]

instance (t : AuditTables) (row : RunRow) (messages : List MessageRow) (traces : List TraceRow) :
    Decidable (t.Admits row messages traces) :=
  decidable_of_iff (row.executionId ∉ t.executions.keys ∧
    (t.messages.keys ++ messages.map fun m => (m.executionId, m.seq)).Nodup ∧
    (t.traces.keys ++ traces.map fun e => (e.executionId, e.seq)).Nodup ∧
    (∀ m ∈ messages, m.executionId ∈ t.executions.keys ++ [row.executionId]) ∧
    ∀ e ∈ traces, e.executionId ∈ t.executions.keys ++ [row.executionId])
    ⟨fun ⟨h₁, h₂, h₃, h₄, h₅⟩ => ⟨h₁, h₂, h₃, h₄, h₅⟩,
      fun h => ⟨h.executions_pk, h.messages_pk, h.traces_pk, h.messages_fk, h.traces_fk⟩⟩

/-- The three INSERTs of a run. -/
def insertRun (t : AuditTables) (row : RunRow) (messages : List MessageRow)
    (traces : List TraceRow) : Option AuditTables :=
  if h : t.Admits row messages traces then some {
    executions := t.executions.insert row h.executions_pk
    messages := ⟨t.messages.rows ++ messages, by rw [List.map_append]; exact h.messages_pk⟩
    traces := ⟨t.traces.rows ++ traces, by rw [List.map_append]; exact h.traces_pk⟩
    messages_fk := fun m hm => by
      rw [Table.insert_keys]
      rcases List.mem_append.mp hm with hm | hm
      · exact List.mem_append_left _ (t.messages_fk m hm)
      · exact h.messages_fk m hm
    traces_fk := fun e he => by
      rw [Table.insert_keys]
      rcases List.mem_append.mp he with he | he
      · exact List.mem_append_left _ (t.traces_fk e he)
      · exact h.traces_fk e he }
  else none

end AuditTables

/-! ### Reading -/

namespace RunDocument

/-- The row of `synapse.executions`, with the model of the agent's profile and the time. -/
def readExecution (model : String → Option String) (now : Nat) (e : Value) : Option RunRow := do
  let executionId ← ← (e.column "execution_id").uuidColumn
  let agentName ← ← (e.column "agent_name").textColumn
  let input ← ← (e.column "input").textColumn
  let output ← (e.column "output").textColumn
  let status ← ← (e.column "status").textColumn
  let tokensIn ← ← (e.column "tokens_in").intColumn 32
  let tokensOut ← ← (e.column "tokens_out").intColumn 32
  let costUsd ← (e.column "cost_usd").costColumn
  let durationMs ← (e.column "duration_ms").intColumn 64
  let callerRole ← (e.column "caller_role").textColumn
  return { executionId, agentName, input, output, status, callerRole, tokensIn := tokensIn.toNat,
           tokensOut := tokensOut.toNat, costUsd, durationMs, model := model agentName,
           startedAt := now, finishedAt := some now }

/-- A row of `synapse.messages`. -/
def readMessage (id : Uuid) (now : Nat) (m : Value) : Option MessageRow := do
  let seq ← ← (m.column "seq").intColumn 32
  let role ← ← (m.column "role").textColumn
  let content ← (m.column "content").textColumn
  let toolCallId ← (m.column "tool_call_id").textColumn
  let toolName ← (m.column "tool_name").textColumn
  return { executionId := id, seq, role, content, toolCallId, toolName,
           toolInput := (m.column "tool_input").jsonbColumn,
           toolOutput := (m.column "tool_output").jsonbColumn, ts := now }

/-- A row of `synapse.traces`. -/
def readTrace (id : Uuid) (now : Nat) (e : Value) : Option TraceRow := do
  let seq ← ← (e.column "seq").intColumn 32
  let event ← ← (e.column "event").textColumn
  return { executionId := id, seq, event, payload := (e.column "payload").jsonbColumn, ts := now }

/-- `jsonb_to_recordset(COALESCE(v, '[]'))`. -/
def recordset (v : Option Value) : Option (List Value) := (v.getD (.array [])).asArray?

/-- `synapse.record_run`. -/
def recordRun (model : String → Option String) (now : Nat) (doc : Value) (t : AuditTables) :
    Option AuditTables :=
  if !doc.storable then none
  else do
    let t ← match doc.get? "supersedes" with
      | none => some t
      | some v => v.uuidColumn.map fun id => id.elim t t.deleteRun
    let row ← readExecution model now (doc.column "execution")
    let messages ← (← recordset (doc.get? "messages")).mapM (readMessage row.executionId now)
    let traces ← (← recordset (doc.get? "events")).mapM (readTrace row.executionId now)
    t.insertRun row messages traces

/-- Tables without rows. -/
def noRuns : AuditTables := ⟨.empty, .empty, .empty, by simp [Table.empty], by simp [Table.empty]⟩

/-- Whether Postgres can read the document of a run and take its rows, into tables that have none of the
run's keys: it is a `jsonb`, its values fit into their columns, and its messages have numbers of their
own. -/
def readable (doc : Value) : Bool := (recordRun (fun _ => none) 0 doc noRuns).isSome

end RunDocument

end PgSynapse
