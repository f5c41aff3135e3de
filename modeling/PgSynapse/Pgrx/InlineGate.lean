import PgSynapse.Lib.Patterns
import PgSynapse.Pgrx.AgentTriggers
import PgSynapse.Pgrx.Execute
import Mathlib.Data.List.Sort

/-!
# Agent triggers at work

The functions that `synapse.attach_agent_trigger` generates (`sql_functions.rs`), run on the rows of
statements, and the transactions of a writer with statements and savepoints.

A trigger is `AFTER ... FOR EACH ROW`, so the triggers of a statement run when all its rows are
written.  The triggers are those of the catalog at the start of the transaction.  A statement may also
enqueue jobs of its own; statements of the session that run an agent themselves are left out, and so
are those that write `synapse.executions`.
-/

namespace PgSynapse

/-- A job that `synapse.enqueue` is given. -/
structure TriggerJob where
  agent : String
  input : String
  source : Option String
  deriving DecidableEq, Repr

/-- What Postgres makes of the expressions in a trigger function, beside the statements. -/
structure TriggerServer (τ ω : Type) extends Postgres τ ω where
  /-- The table of a row write. -/
  table : ω → τ
  /-- The value of an input expression for a row, as text; `none` is an error. -/
  evalInput : String → ω → Option (Option String)
  /-- The cast of a text to JSONB. -/
  jsonb : String → Option Value
  /-- The text of a JSONB value. -/
  jsonText : Value → String
  lower : String → String
  /-- The class `\s`. -/
  isSpace : Char → Bool
  money : Money

/-! ### The verdict on a row -/

namespace TriggerServer

variable {τ ω : Type} (pg : TriggerServer τ ω)

/-- The operator `->>` on an object. -/
def textMember (v : Value) (key : String) : Option String :=
  match v.get? key with
  | none | some .null => none
  | some (.string s) => some s
  | some v => some (pg.jsonText v)

/-- `substring(text from pattern)`, without a group. -/
def substring (ps : List (Piece Char)) (text : String) : Option String :=
  (Pattern.search ps text.toList).map String.ofList

/-- The pattern of a JSON object in a text. -/
def objectPattern : List (Piece Char) := Pattern.block '\x7b' '\x7d'

/-- A member that is a string, by its name and its value, in any case. -/
def decisionPattern : List (Piece Char) :=
  let letter := fun x c : Char => c.toLower == x.toLower
  Pattern.word letter "\"decision\"".toList ++
    ([.star pg.isSpace] ++ (Pattern.word letter [':'] ++
      ([.star pg.isSpace] ++ Pattern.word letter "\"reject\"".toList)))

/-- The pattern of a reason. -/
def reasonPattern : List (Piece Char) :=
  let letter := fun x c : Char => c == x
  Pattern.word letter "\"reason\"".toList ++
    ([.star pg.isSpace] ++ (Pattern.word letter [':'] ++
      ([.star pg.isSpace] ++ (Pattern.word letter ['\x22'] ++
        ([.star (· ≠ '\x22')] ++ Pattern.word letter ['\x22'])))))

/-- `substring` from the pattern of a reason: the group is what stands between the last two quotes
of the match. -/
def reasonIn (text : String) : Option String :=
  (Pattern.search pg.reasonPattern text.toList).map fun m =>
    String.ofList (m.dropLast.reverse.takeWhile (· ≠ '\x22')).reverse

/-- The object in a reply and its decision; a reply that is no JSON there has neither. -/
def decisionIn (out : Option String) : Option Value × Option String :=
  match (out.bind (substring objectPattern)).bind pg.jsonb with
  | none => (none, none)
  | some v => (some v, (pg.textMember v "decision").map pg.lower)

/-- The reply rejects the row. -/
def rejects (out : Option String) : Bool :=
  match (pg.decisionIn out).2 with
  | some decision => decision = "reject"
  | none => out.any fun text => (Pattern.search pg.decisionPattern text.toList).isSome

/-- The reason of a run that did not complete. -/
def failureReason (res : Option Value) : String :=
  let status := res.bind (pg.textMember · "status")
  let out := res.bind (pg.textMember · "output")
  ((res.bind (pg.textMember · "error")).or (out.filter (· ≠ ""))).getD <|
    if status = some "timed_out" then
      "agent exceeded the inline budget, see pg_synapse.inline_timeout_ms"
    else "agent did not complete, status " ++ status.getD "unknown"

/-- The reason of a reply that rejects the row. -/
def rejectReason (out : Option String) : String :=
  ((((pg.decisionIn out).1.bind (pg.textMember · "reason")).or (out.bind pg.reasonIn)).or out).getD
    "agent rejected row"

/-- What the function of an inline trigger raises on the result of the run, if anything. -/
def verdict (res : Option Value) : Option String :=
  let out := res.bind (pg.textMember · "output")
  if res.bind (pg.textMember · "status") ≠ some "completed" then
    some ("synapse inline trigger rejected: " ++ pg.failureReason res)
  else if pg.rejects out then
    some ("synapse inline trigger rejected: " ++ pg.rejectReason out)
  else none

end TriggerServer

/-! ### Statements -/

/-- A run of an inline trigger: the call and the envelope it came back with. -/
structure InlineRun where
  call : EntryCall
  envelope : Value

/-- A statement: the rows it writes, and the jobs it enqueues itself. -/
structure WriterStatement (ω : Type) where
  rows : List ω
  jobs : List TriggerJob

/-- The database of a writer: the row writes that stand, each with the trigger depth its statement
was made at, the jobs that were enqueued, with the depth of the statement that asked for the job or
`none` where a trigger function owed it, and `synapse.executions`.  The runs of inline triggers that
stand are kept beside them; the code does not see them. -/
structure WriterDb (ω : Type) where
  writes : List (ω × Nat)
  jobs : List (TriggerJob × Option Nat)
  executions : Executions
  runs : List InlineRun

/-- A statement has been made at a trigger depth; its triggers have not run. -/
def WriterDb.make {ω : Type} (db : WriterDb ω) (depth : Nat) (s : WriterStatement ω) : WriterDb ω :=
  { db with
    writes := db.writes ++ s.rows.map (·, depth)
    jobs := db.jobs ++ s.jobs.map (·, some depth) }

/-- What a run of an agent in a trigger meets: the call as the entry point sees it, and the
statements that its tools make. -/
structure InlineAnswer (ω : Type) where
  call : EntryCall
  statements : List (WriterStatement ω)

/-- The call reaches the kernel. -/
def EntryCall.runs (c : EntryCall) : Bool :=
  match c.ensured, c.kernel with
  | .ok, .ok kernel => (c.refusedFor kernel).isNone
  | _, _ => false

/-- Why a statement fails: a trigger function raises, or something in it does. -/
inductive WriteError where
  | rejected (message : String)
  | failed
  deriving DecidableEq, Repr

section Statements

variable {τ ω : Type} [DecidableEq τ] (pg : TriggerServer τ ω) (catalog : TriggerCatalog τ)
  (answers : String → String → WriterDb ω → InlineAnswer ω)

/-- The trigger functions that run for a row, in the order of the names of their triggers. -/
def rowTriggers (w : ω) : List TriggerBody :=
  ((catalog.triggers.filter fun t =>
      t.table = pg.table w && pg.qualifies t.events t.whenSql w).insertionSort
    fun t u => t.name ≤ u.name).filterMap fun t => catalog.functions t.function

/-- The statements of a run's tools.  One that fails is undone, and the run goes on. -/
def performStatements (inner : WriterStatement ω → WriterDb ω → Except WriteError (WriterDb ω))
    (statements : List (WriterStatement ω)) (db : WriterDb ω) : WriterDb ω :=
  statements.foldl (fun db s => (inner s db).toOption.getD db) db

/-- The call of `synapse.execute` that a trigger function makes. -/
def InlineAnswer.callFor (a : InlineAnswer ω) (agent input : String) (depth : Nat) : EntryCall :=
  { a.call with agent := agent, input := input, triggerDepth := some (depth : Int) }

/-- The run of an inline trigger: what it comes to decides over the row. -/
def runInline (inner : WriterStatement ω → WriterDb ω → Except WriteError (WriterDb ω))
    (depth : Nat) (agent input : String) (db : WriterDb ω) : Except WriteError (WriterDb ω) :=
  let a := answers agent input db
  let c := a.callFor agent input depth
  let db := if c.runs then performStatements inner a.statements db else db
  match c.execute pg.money db.executions with
  | none => .error .failed
  | some (envelope, t) =>
    match pg.verdict (some envelope) with
    | some message => .error (.rejected message)
    | none => .ok { db with executions := t, runs := db.runs ++ [⟨c, envelope⟩] }

/-- The body of a trigger function, for a row. -/
def TriggerBody.work (inner : WriterStatement ω → WriterDb ω → Except WriteError (WriterDb ω))
    (depth : Nat) (w : ω) (db : WriterDb ω) : TriggerBody → Except WriteError (WriterDb ω)
  | .queue agent inputExpr source =>
    match (pg.evalInput inputExpr w).join with
    -- an argument of `enqueue` that is NULL is an error
    | none => .error .failed
    | some input => .ok { db with jobs := db.jobs ++ [(⟨agent, input, some source⟩, none)] }
  | .inline agent inputExpr =>
    match pg.evalInput inputExpr w with
    | none => .error .failed
    -- `execute` is STRICT
    | some none => .error (.rejected ((pg.verdict none).getD ""))
    | some (some input) => runInline pg answers inner depth agent input db

/-- A trigger function at a trigger depth, for a row: `pg_trigger_depth() > 1` skips the body. -/
def TriggerBody.fire (inner : WriterStatement ω → WriterDb ω → Except WriteError (WriterDb ω))
    (depth : Nat) (body : TriggerBody) (w : ω) (db : WriterDb ω) : Except WriteError (WriterDb ω) :=
  if 1 < depth then .ok db else body.work pg answers inner depth w db

/-- The trigger functions that fire for the rows of a statement, row by row. -/
def rowFirings (ws : List ω) : List (ω × TriggerBody) :=
  ws.flatMap fun w => (rowTriggers pg catalog w).map fun body => (w, body)

/-- Trigger functions one after another, until one fails. -/
def fireAll (inner : WriterStatement ω → WriterDb ω → Except WriteError (WriterDb ω)) (depth : Nat) :
    List (ω × TriggerBody) → WriterDb ω → Except WriteError (WriterDb ω)
  | [], db => .ok db
  | f :: rest, db => (f.2.fire pg answers inner depth f.1 db).bind (fireAll inner depth rest)

/-- A statement made at a trigger depth: what it writes first, then the triggers of its rows, which may
make statements in turn, as many `levels` deep as given. -/
def writeStatement : Nat → Nat → WriterStatement ω → WriterDb ω → Except WriteError (WriterDb ω)
  | 0, _, _, db => .ok db
  | levels + 1, depth, s, db =>
    fireAll pg answers (writeStatement levels (depth + 1)) (depth + 1)
      (rowFirings pg catalog s.rows) (db.make depth s)

/-- A part of a writer's transaction: a statement of the session, one that another trigger of the
database makes, or a block under a savepoint, released (`keep`) or rolled back. -/
inductive WriterItem (ω : Type) where
  | statement (depth : Nat) (s : WriterStatement ω)
  | block (items : List (WriterItem ω)) (keep : Bool)

mutual

/-- One part; `none` when a statement failed outside of any savepoint of the part. -/
def WriterItem.perform : WriterItem ω → WriterDb ω → Option (WriterDb ω)
  -- two levels: in a trigger at depth 2 and beyond every agent function returns at once
  | .statement depth s, db => (writeStatement pg catalog answers 2 depth s db).toOption
  | .block items keep, db =>
    match performAll items db with
    | some db' => if keep then some db' else some db
    -- the session rolls back to the savepoint
    | none => some db

/-- The parts of a transaction, in order. -/
def performAll : List (WriterItem ω) → WriterDb ω → Option (WriterDb ω)
  | [], db => some db
  | item :: rest, db => (item.perform db).bind (performAll rest)

end

theorem WriterItem.perform_statement (depth : Nat) (s : WriterStatement ω) (db : WriterDb ω) :
    (WriterItem.statement depth s).perform pg catalog answers db =
      (writeStatement pg catalog answers 2 depth s db).toOption := by
  rw [WriterItem.perform]

/-- A block leaves what its parts made of it, when it is released. -/
theorem WriterItem.perform_block (items : List (WriterItem ω)) (keep : Bool) (db : WriterDb ω) :
    (WriterItem.block items keep).perform pg catalog answers db =
      some (((performAll pg catalog answers items db).filter fun _ => keep).getD db) := by
  rw [WriterItem.perform]
  cases performAll pg catalog answers items db with
  | none => rfl
  | some db' => cases keep <;> rfl

end Statements

end PgSynapse
