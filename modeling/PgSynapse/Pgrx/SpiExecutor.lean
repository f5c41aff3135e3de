import PgSynapse.Lib.Savepoint
import PgSynapse.Types.Message

/-!
# `SpiSqlExecutor`: the SQL tools' way into Postgres

A translation of `spi_executor.rs`.  What one SPI statement does is a parameter, `SpiUpdate`: it may
change the session in any way and then return a table, report an error through pgrx, or raise a
Postgres `ERROR`.  The session is what a subtransaction restores: the database as this transaction
sees it, and the transaction-local setting `synapse.execution_id`.
-/

namespace PgSynapse

/-- What a backend's transaction sees. -/
structure Session (δ : Type) where
  db : δ
  executionId : Option String
  deriving DecidableEq

/-- The result of one SPI statement: the rows, each the first column read as `jsonb` or the error of
reading it, and the number `SpiTupleTable::len` gives; an error pgrx reports; or a Postgres error. -/
inductive SpiOutcome where
  | table (rows : List (Except String (Option Value))) (len : Nat)
  | error (reason : String)
  | raised (message : String)

/-- `client.update(sql, None, &args)`. -/
abbrev SpiUpdate (δ : Type) := String → List Value → Session δ → SpiOutcome × Session δ

/-- How the body of a savepoint ended: it returned, or a Postgres `ERROR` left it. -/
inductive BodyResult (α : Type) where
  | returned (r : Except ToolError α)
  | raised (message : String)

variable {δ α : Type}

/-- `publish_execution_id`. -/
def publishExecutionId (executionId : Option String) (s : Session δ) : Session δ :=
  match executionId with
  | some id => { s with executionId := some id }
  | none => s

/-- `PgTryBuilder::catch_others`: a Postgres error becomes an execution error of the tool. -/
def BodyResult.caught (tool : String) : BodyResult α → Except ToolError α
  | .returned r => r
  | .raised message => .error (.execution tool message)

/-- `with_savepoint`. -/
def withSavepoint (tool : String) (body : Backend (Session δ) → BodyResult α × Backend (Session δ))
    (b : Backend (Session δ)) : Except ToolError α × Backend (Session δ) :=
  let (r, b) := body b.beginSub
  match r.caught tool with
  | .ok a => (.ok a, b.release)
  | .error e => (.error e, b.rollback)

/-- The rows of a query, or the first error of reading one. -/
def readRows (tool : String) : List (Except String (Option Value)) → Except ToolError (List Value)
  | [] => .ok []
  | .error reason :: _ => .error (.execution tool reason)
  | .ok v :: rest => (readRows tool rest).map fun out => v.toList ++ out

namespace SpiSqlExecutor

/-- The refusal when the built-in SQL tools are turned off. -/
def disabledError (tool : String) : ToolError :=
  .execution tool "pg_synapse.disable_builtin_sql_tools is true"

/-- The body of `query` and `execute`: publish the run's id, then run the statement. -/
def statement (spi : SpiUpdate δ) (tool sql : String) (params : List Value)
    (executionId : Option String)
    (read : List (Except String (Option Value)) → Nat → Except ToolError α) :
    Session δ → BodyResult α × Session δ :=
  fun s =>
    match spi sql params (publishExecutionId executionId s) with
    | (.table rows len, s) => (.returned (read rows len), s)
    | (.error reason, s) => (.returned (.error (.execution tool reason)), s)
    | (.raised message, s) => (.raised message, s)

/-- `SpiSqlExecutor::query`. -/
def query (spi : SpiUpdate δ) (disableBuiltinSqlTools : Bool) (sql : String) (params : List Value)
    (executionId : Option String) (b : Backend (Session δ)) :
    Except ToolError (List Value) × Backend (Session δ) :=
  if disableBuiltinSqlTools then (.error (disabledError "sql_query"), b)
  else
    let wrapped := "SELECT to_jsonb(t) FROM (" ++ sql ++ ") t"
    withSavepoint "sql_query" (Backend.run
      (statement spi "sql_query" wrapped params executionId fun rows _ =>
        readRows "sql_query" rows)) b

/-- `SpiSqlExecutor::execute`. -/
def execute (spi : SpiUpdate δ) (disableBuiltinSqlTools : Bool) (sql : String)
    (params : List Value) (executionId : Option String) (b : Backend (Session δ)) :
    Except ToolError Nat × Backend (Session δ) :=
  if disableBuiltinSqlTools then (.error (disabledError "sql_exec"), b)
  else
    withSavepoint "sql_exec" (Backend.run
      (statement spi "sql_exec" sql params executionId fun _ len => .ok len)) b

end SpiSqlExecutor

end PgSynapse
