import PgSynapse.Lib.Transition
import PgSynapse.Pgrx.Execute

/-!
# Asynchronous runs of the sidecar

`POST /v1/execute_async` and `GET /v1/status/:execution_id` (`api.rs`) over the table
`synapse.executions`.  A request plants a row, spawns the run of its agent and hands back the id of
the row; the run writes its end into the row when the kernel has come back.  Requests, runs and polls
interleave at every `await`.  What the kernel returns for a run is given, and so is whether a statement
reaches the database and the duration it works out there fits its column.  Of the columns that hold cost,
duration and times, only what Postgres asks of the cost is here.  Other writers of the table leave these
rows alone.
-/

namespace PgSynapse

/-! ### Rows -/

/-- Postgres refuses a text with a NUL. -/
def storableText (s : String) : Prop := '\x00' ∉ s.toList

instance (s : String) : Decidable (storableText s) := inferInstanceAs (Decidable (_ ∉ _))

/-- What the UPDATE after a run sets. -/
structure RunRecord where
  status : String
  output : Option String
  tokensIn : Nat
  tokensOut : Nat
  cost : Option Rat
  deriving DecidableEq, Repr

namespace RunRecord

/-- The values after a run: every outcome is `completed`, every error is `failed`. -/
def of (money : Money) : Except RuntimeError ExecutorOutcome → RunRecord
  | .ok o => ⟨"completed", some o.output, o.tokensIn.toNat, o.tokensOut.toNat, o.costUsd⟩
  | .error e => ⟨"failed", some (e.text money.text), 0, 0, none⟩

/-- Postgres takes the values: the tokens into INT, the output as a text, and the cost, which is bound
as a text with the decimal that its JSON has, into NUMERIC(12,6). -/
def Storable (money : Money) (r : RunRecord) : Prop :=
  r.tokensIn < 2 ^ 31 ∧ r.tokensOut < 2 ^ 31 ∧ storableText (r.output.getD "") ∧
    ((r.cost.map money.json).getD .null).costColumn.isSome = true

instance (money : Money) (r : RunRecord) : Decidable (r.Storable money) :=
  inferInstanceAs (Decidable (_ ∧ _))

/-- The row after the UPDATE. -/
def write (r : RunRecord) (row : AuditRow) : AuditRow :=
  { row with
    status := r.status
    output := r.output
    tokensIn := r.tokensIn
    tokensOut := r.tokensOut }

end RunRecord

/-- The row the handler inserts. -/
def queuedRow (id : Uuid) (call : CallInfo) : AuditRow where
  executionId := id
  agentName := call.agent
  input := call.input
  output := none
  status := "queued"
  callerRole := call.caller
  tokensIn := 0
  tokensOut := 0

/-- Postgres takes the texts of a request. -/
def StorableCall (call : CallInfo) : Prop :=
  storableText call.agent ∧ storableText call.input ∧ storableText (call.caller.getD "")

instance (call : CallInfo) : Decidable (StorableCall call) := inferInstanceAs (Decidable (_ ∧ _))

/-! ### Requests and their runs -/

/-- How far a request has come: its row is in the table; its id is returned and its run spawned; the
run panicked, and its task is gone; the kernel has come back; the end of the run is in the row, or the
UPDATE failed, which nobody is told. -/
inductive AsyncPhase where
  | inserted
  | running
  | died
  | ended (result : Except RuntimeError ExecutorOutcome)
  | recorded (result : Except RuntimeError ExecutorOutcome)
  | lost (result : Except RuntimeError ExecutorOutcome)

/-- A request that got its row. -/
structure AsyncTask where
  call : CallInfo
  phase : AsyncPhase

/-- The table, and the requests by the ids they minted. -/
structure AsyncApi where
  executions : Executions
  tasks : Uuid → Option AsyncTask

/-- What the parties do.  The kernel has no result when the run panics. -/
inductive AsyncAct where
  | insert (id : Uuid) (call : CallInfo)
  | respond (id : Uuid)
  | kernel (id : Uuid) (result : Option (Except RuntimeError ExecutorOutcome))
  | update (id : Uuid) (reached : Bool)
  | poll (id : Uuid)

namespace AsyncApi

/-- The sidecar before any request, on the table it finds. -/
def init (executions : Executions) : AsyncApi := ⟨executions, fun _ => none⟩

/-- A request goes on to a phase. -/
def goto (s : AsyncApi) (id : Uuid) (call : CallInfo) (phase : AsyncPhase) : AsyncApi :=
  { s with tasks := Function.update s.tasks id (some ⟨call, phase⟩) }

/-- INSERT of the queued row.  Where it fails the handler answers with the error, and there is no id
and no run. -/
def insert (s : AsyncApi) (id : Uuid) (call : CallInfo) : AsyncApi :=
  if h : id ∈ s.executions.keys then s
  else if StorableCall call then
    { (s.goto id call .inserted) with executions := s.executions.insert (queuedRow id call) h }
  else s

/-- The UPDATE after a run; its result is dropped. -/
def update (money : Money) (s : AsyncApi) (id : Uuid) (call : CallInfo)
    (result : Except RuntimeError ExecutorOutcome) (reached : Bool) : AsyncApi :=
  let record := RunRecord.of money result
  if reached ∧ record.Storable money then
    { (s.goto id call (.recorded result)) with
      executions := s.executions.update id record.write fun _ => rfl }
  -- `let _ =`: the row stays as it was and nobody is told
  else s.goto id call (.lost result)

/-- One step of the sidecar. -/
def step (money : Money) (s : AsyncApi) : AsyncAct → Option AsyncApi
  | .insert id call => some (s.insert id call)
  | .respond id =>
    match s.tasks id with
    | some ⟨call, .inserted⟩ => some (s.goto id call .running)
    | _ => none
  | .kernel id result =>
    match s.tasks id with
    | some ⟨call, .running⟩ => some (s.goto id call (result.elim .died .ended))
    | _ => none
  | .update id reached =>
    match s.tasks id with
    | some ⟨call, .ended result⟩ => some (s.update money id call result reached)
    | _ => none
  -- a poll only reads
  | .poll _ => some s

/-- The ids that requests have returned. -/
def Returned (s : AsyncApi) (id : Uuid) : Prop :=
  ∃ task, s.tasks id = some task ∧ task.phase ≠ .inserted

end AsyncApi

/-! ### Polls -/

/-- The body of an answer of `status_handler`. -/
structure StatusBody where
  executionId : Uuid
  status : String
  output : Option String
  tokensIn : Nat
  tokensOut : Nat
  deriving DecidableEq, Repr

/-- The answers of `status_handler`. -/
inductive StatusReply where
  | ok (body : StatusBody)
  | notFound (error : String)
  deriving DecidableEq, Repr

/-- The body for a row. -/
def StatusBody.of (row : AuditRow) : StatusBody :=
  ⟨row.executionId, row.status, row.output, row.tokensIn, row.tokensOut⟩

/-- `status_handler`. -/
def statusHandler (executions : Executions) (id : Uuid) : StatusReply :=
  match executions.get id with
  | some row => .ok (.of row)
  | none => .notFound ("execution " ++ id.text ++ " not found")

end PgSynapse
