import PgSynapse.LoadFile.StageRows

/-!
# `stage_rows` on any executor

A translation of `stage_rows` with its loops: the texts of the statements a load issues, placeholder
by placeholder, and their bind parameters.
-/

namespace PgSynapse

/-- `dyn SqlExecutor`.  A statement has a text, bind parameters, the caller's role and the run. -/
structure SqlExecutor (σ : Type) where
  query : String → List Value → Option String → Option String → σ →
    Except ToolError (List Value) × σ
  execute : String → List Value → Option String → Option String → σ → Except ToolError Nat × σ

/-- The bind parameter of a cell. -/
def cellParam : Option String → Value
  | some v => .string v
  | none => .null

/-- `slots`, `params` and `n` while the placeholders of a row are written. -/
structure SlotState where
  slots : List String
  params : List Value
  n : Nat

/-- One column of a row. -/
def slotStep (row : List (Option String)) (s : SlotState) (i : Nat) : SlotState where
  slots := s.slots ++ ["$" ++ toString s.n]
  params := s.params ++ [cellParam row[i]?.join]
  n := s.n + 1

/-- `placeholders`, `params` and `n` while the rows of a batch are written. -/
structure BatchState where
  placeholders : List String
  params : List Value
  n : Nat

/-- One row of a batch of so many columns. -/
def rowStep (columns : Nat) (s : BatchState) (row : List (Option String)) : BatchState :=
  let r := (List.range columns).foldl (slotStep row) ⟨[], s.params, s.n⟩
  ⟨s.placeholders ++ ["(" ++ ", ".intercalate r.slots ++ ")"], r.params, r.n⟩

/-- The rows of a batch.  Placeholders are numbered from 1 in every statement. -/
def batchState (columns : Nat) (chunk : List (List (Option String))) : BatchState :=
  chunk.foldl (rowStep columns) ⟨[], [], 1⟩

/-- The text of the `INSERT` of a batch. -/
def insertSql (qualified : String) (columns : List String) (placeholders : List String) : String :=
  "INSERT INTO " ++ qualified ++ " (" ++ ", ".intercalate (columns.map quoteIdent) ++ ") VALUES " ++
    ", ".intercalate placeholders

namespace SqlExecutor

variable {σ : Type}

/-- `for chunk in rows.chunks(per_batch)`, with the rows reported so far. -/
def insertLoop (sql : SqlExecutor σ) (ctx : ToolCtx) (qualified : String) (columns : List String) :
    List (List (List (Option String))) → Nat → σ → Except ToolError Nat × σ
  | [], total, env => (.ok total, env)
  | chunk :: rest, total, env =>
    let batch := batchState columns.length chunk
    match sql.execute (insertSql qualified columns batch.placeholders) batch.params ctx.callerRole
        (some ctx.executionId.text) env with
    | (.error e, env) => (.error e, env)
    | (.ok n, env) => insertLoop sql ctx qualified columns rest (total + n) env

/-- `stage_rows`. -/
def stageRows (sql : SqlExecutor σ) (ctx : ToolCtx) (tool table : String) (columns : List String)
    (rows : List (List (Option String))) (replace : Bool) (env : σ) : Except ToolError Nat × σ :=
  match quoteTable table tool with
  | .error e => (.error e, env)
  | .ok qualified =>
    let execId := some ctx.executionId.text
    let colDefs := ", ".intercalate (columns.map fun c => quoteIdent c ++ " text")
    match sql.execute ("CREATE TABLE IF NOT EXISTS " ++ qualified ++ " (" ++ colDefs ++ ")") []
        ctx.callerRole execId env with
    | (.error e, env) => (.error e, env)
    | (.ok _, env) =>
      let batches := chunks (rowsPerBatch columns.length) rows
      if replace then
        match sql.execute ("DELETE FROM " ++ qualified) [] ctx.callerRole execId env with
        | (.error e, env) => (.error e, env)
        | (.ok _, env) => insertLoop sql ctx qualified columns batches 0 env
      else insertLoop sql ctx qualified columns batches 0 env

end SqlExecutor

end PgSynapse
