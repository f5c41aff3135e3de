import PgSynapse.Std.Text
import PgSynapse.Pgrx.SpiExecutor
import Mathlib.Logic.Function.Basic

/-!
# `stage_rows`: the loaders' statements

The SQL tools (`pg-synapse-tools-sql`) and the staging loaders `load_csv`, `load_json` and
`load_url` (`pg-synapse-tools-loadfile`) in the pgrx host, where each statement goes through
`SpiSqlExecutor`.  What a loader makes of its file or response is given, as a `LoadPlan` or the
error it returns.
-/

namespace PgSynapse

/-! ### Names -/

/-- `BATCH_ROWS`. -/
def batchRows : Nat := 500

/-- `rows_per_batch`. -/
def rowsPerBatch (columns : Nat) : Nat :=
  -- a statement takes 65535 bind parameters at most
  if columns = 0 then batchRows else max (min batchRows (60000 / max columns 1)) 1

/-- `quote_ident`. -/
def quoteIdent (name : String) : String :=
  "\"" ++ String.ofList (name.toList.flatMap fun c => if c = '"' then ['"', '"'] else [c]) ++ "\""

/-- `quote_table`: a table name, or a schema and a table name. -/
def quoteTable (raw tool : String) : Except ToolError String :=
  let parts := Text.splitChar '.' raw
  if parts.isEmpty || parts.length > 2 || parts.any Text.isBlank then
    .error (.invalidInput tool
      ("table must be \"name\" or \"schema.name\", got \"" ++ raw ++ "\""))
  else .ok (".".intercalate (parts.map fun p => quoteIdent (Text.trim p)))

/-! ### Statements -/

/-- The statements of a load.  A cell is its text, or absent. -/
inductive StageOp where
  | create
  | delete
  | insert (chunk : List (List (Option String)))
  deriving DecidableEq, Repr

/-- `rows.chunks(n)`, by a bound on the number of chunks. -/
def chunksUpTo {α : Type} (n : Nat) : Nat → List α → List (List α)
  | 0, _ => []
  | _ + 1, [] => []
  | bound + 1, x :: xs => (x :: xs).take n :: chunksUpTo n bound ((x :: xs).drop n)

/-- `rows.chunks(n)`. -/
def chunks {α : Type} (n : Nat) (xs : List α) : List (List α) := chunksUpTo n xs.length xs

/-- The bind parameters of one row: missing cells and absent ones are `NULL`. -/
def rowParams (columns : Nat) (row : List (Option String)) : List Value :=
  (List.range columns).map fun i => match row[i]?.join with
    | some v => .string v
    | none => .null

/-- `($1, $2, ...)` of row number `r`. -/
def rowSlots (columns r : Nat) : String :=
  "(" ++ ", ".intercalate ((List.range columns).map fun i =>
    "$" ++ toString (r * columns + i + 1)) ++ ")"

namespace StageOp

/-- The text of a statement. -/
def sql (qualified : String) (columns : List String) : StageOp → String
  | .create => "CREATE TABLE IF NOT EXISTS " ++ qualified ++ " (" ++
      ", ".intercalate (columns.map fun c => quoteIdent c ++ " text") ++ ")"
  | .delete => "DELETE FROM " ++ qualified
  | .insert chunk => "INSERT INTO " ++ qualified ++ " (" ++
      ", ".intercalate (columns.map quoteIdent) ++ ") VALUES " ++
      ", ".intercalate ((List.range chunk.length).map (rowSlots columns.length))

/-- The bind parameters of a statement. -/
def params (columns : Nat) : StageOp → List Value
  | .create => []
  | .delete => []
  | .insert chunk => chunk.flatMap (rowParams columns)

/-- Whether the rows a statement reports count as loaded. -/
def isInsert : StageOp → Bool
  | .insert _ => true
  | _ => false

end StageOp

/-- A load, once its source was read. -/
structure LoadPlan where
  tool : String
  table : String
  columns : List String
  rows : List (List (Option String))
  replace : Bool
  deriving DecidableEq, Repr

namespace LoadPlan

/-- The INSERT batches of a load. -/
def batches (plan : LoadPlan) : List (List (List (Option String))) :=
  chunks (rowsPerBatch plan.columns.length) plan.rows

/-- The statements of a load, in order. -/
def ops (plan : LoadPlan) : List StageOp :=
  .create :: (if plan.replace then [.delete] else []) ++ plan.batches.map .insert

end LoadPlan

variable {δ : Type}

/-- The statements of a load, one after another; the first error ends it.  `spi i op` is what
Postgres does with the statement number `i`. -/
def stageLoop (spi : Nat → StageOp → SpiUpdate δ) (disabled : Bool) (qualified : String)
    (columns : List String) (executionId : String) :
    Nat → List StageOp → Nat → Backend (Session δ) → Except ToolError Nat × Backend (Session δ)
  | _, [], total, b => (.ok total, b)
  | i, op :: rest, total, b =>
    -- each statement has a savepoint of its own, and none spans the load
    match SpiSqlExecutor.execute (spi i op) disabled (op.sql qualified columns)
        (op.params columns.length) (some executionId) b with
    | (.error e, b) => (.error e, b)
    | (.ok n, b) =>
      stageLoop spi disabled qualified columns executionId (i + 1) rest
        (if op.isInsert then total + n else total) b

/-- `stage_rows`. -/
def stageRows (spi : String → List String → Nat → StageOp → SpiUpdate δ) (disabled : Bool)
    (plan : LoadPlan) (executionId : String) (b : Backend (Session δ)) :
    Except ToolError Nat × Backend (Session δ) :=
  match quoteTable plan.table plan.tool with
  | .error e => (.error e, b)
  | .ok qualified =>
    stageLoop (spi qualified plan.columns) disabled qualified plan.columns executionId 0 plan.ops 0 b

/-! ### The tools -/

/-- `describe`. -/
def describe (table : String) (columns : List String) (rows : Nat) : ToolOutput :=
  .json (.obj [("table", .string table), ("columns", .array (columns.map .string)),
    ("rows_loaded", .nat rows),
    ("next", .string ("Every column is text. Transform with a single INSERT ... SELECT ... FROM " ++
      table ++ ", casting as needed. Do not re-read the file."))])

/-- `LoadCsvTool::run`, `LoadJsonTool::run` and `LoadUrlTool::run`, from what the tool read. -/
def LoadTool.run (spi : String → List String → Nat → StageOp → SpiUpdate δ) (disabled : Bool)
    (source : Except ToolError LoadPlan) (ctx : ToolCtx) (b : Backend (Session δ)) :
    Except ToolError ToolOutput × Backend (Session δ) :=
  match source with
  | .error e => (.error e, b)
  | .ok plan =>
    let (r, b) := stageRows spi disabled plan ctx.executionId.text b
    (r.map (describe plan.table plan.columns), b)

/-- The arguments of the SQL tools. -/
structure SqlArgs where
  query : String
  params : List Value
  deriving DecidableEq, Repr

/-- `SqlQueryTool::run`, from the decoded arguments. -/
def SqlQueryTool.run (spi : SpiUpdate δ) (disabled : Bool) (args : Except String SqlArgs)
    (ctx : ToolCtx) (b : Backend (Session δ)) : Except ToolError ToolOutput × Backend (Session δ) :=
  match args with
  | .error reason => (.error (.invalidInput "sql_query" reason), b)
  | .ok args =>
    let (r, b) := SpiSqlExecutor.query spi disabled args.query args.params
      (some ctx.executionId.text) b
    (r.map fun rows => .json (.array rows), b)

/-- `SqlExecTool::run`, from the decoded arguments. -/
def SqlExecTool.run (spi : SpiUpdate δ) (disabled : Bool) (args : Except String SqlArgs)
    (ctx : ToolCtx) (b : Backend (Session δ)) : Except ToolError ToolOutput × Backend (Session δ) :=
  match args with
  | .error reason => (.error (.invalidInput "sql_exec" reason), b)
  | .ok args =>
    let (r, b) := SpiSqlExecutor.execute spi disabled args.query args.params
      (some ctx.executionId.text) b
    (r.map fun rows => .json (.obj [("rows_affected", .nat rows)]), b)

/-! ### Postgres on the loaders' statements -/

/-- A table: its columns with their defaults, and its rows. -/
structure StagedTable where
  columns : List (String × Option String)
  rows : List (List (Option String))
  deriving DecidableEq, Repr

/-- The tables by their quoted names. -/
abbrev Tables := String → Option StagedTable

/-- A row as stored: `store` is how a bound parameter ends up in the column. -/
def StagedTable.newRow (store : Value → Option String) (t : StagedTable) (columns : List String)
    (row : List (Option String)) : List (Option String) :=
  t.columns.map fun (c, dflt) =>
    ((columns.zip (rowParams columns.length row)).lookup c).elim dflt store

/-- The rows a batch adds to a table. -/
def StagedTable.newRows (store : Value → Option String) (t : StagedTable) (columns : List String)
    (chunk : List (List (Option String))) : List (List (Option String)) :=
  chunk.map (t.newRow store columns)

/-- What a statement does when it succeeds. -/
def StageOp.apply (store : Value → Option String) (qualified : String) (columns : List String)
    (db : Tables) : StageOp → Tables
  | .create =>
    match db qualified with
    | some _ => db
    | none => Function.update db qualified (some ⟨columns.map fun c => (c, none), []⟩)
  | .delete =>
    match db qualified with
    | some t => Function.update db qualified (some { t with rows := [] })
    | none => db
  | .insert chunk =>
    match db qualified with
    | some t => Function.update db qualified
        (some { t with rows := t.rows ++ t.newRows store columns chunk })
    | none => db

/-- A statement that fails: what it had done so far, and how it reports. -/
structure Fault (δ : Type) where
  residue : Session δ → Session δ
  hard : Bool
  message : String

/-- The statements of a load: `faults` says which of them fail, and the others have their effect on the
database and report a number of rows. -/
def stageUpdate (effect : δ → StageOp → δ) (affected : δ → StageOp → Nat)
    (faults : Nat → Option (Fault δ)) (i : Nat) (op : StageOp) : SpiUpdate δ :=
  fun _ _ s =>
    match faults i with
    | some f => (if f.hard then .raised f.message else .error f.message, f.residue s)
    | none => (.table [] (affected s.db op), { s with db := effect s.db op })

/-- The rows a statement reports. -/
def StageOp.affected (qualified : String) (db : Tables) : StageOp → Nat
  | .insert chunk => chunk.length
  | .delete => ((db qualified).map fun t => t.rows.length).getD 0
  | .create => 0

/-- The statements of a load on these tables, when nothing reacts to them. -/
def tablesUpdate (store : Value → Option String) (faults : Nat → Option (Fault Tables))
    (qualified : String) (columns : List String) (i : Nat) (op : StageOp) : SpiUpdate Tables :=
  stageUpdate (StageOp.apply store qualified columns) (StageOp.affected qualified) faults i op

/-! ### What statements set off -/

/-- The database as a load sees it: the tables it may stage, and all the rest. -/
structure LoadDb (ρ : Type) where
  tables : Tables
  rest : ρ

/-- What the triggers, the foreign keys and the defaults of a database make of a statement, from the
database before it and the one it left: anything, in any table, but no trigger drops the table that its
statement writes. -/
structure Reactions (ρ : Type) where
  effect : String → StageOp → LoadDb ρ → LoadDb ρ → LoadDb ρ
  affected : String → LoadDb ρ → StageOp → Nat
  stays : ∀ qualified op before after, (after.tables qualified).isSome →
    ((effect qualified op before after).tables qualified).isSome

/-- Nothing reacts. -/
def Reactions.quiet (ρ : Type) : Reactions ρ where
  effect _ _ _ after := after
  affected qualified db op := op.affected qualified db.tables
  stays _ _ _ _ h := h

/-- What a statement does when it succeeds, with what it sets off.  `CREATE TABLE IF NOT EXISTS` does
nothing where there is a table. -/
def StageOp.perform {ρ : Type} (store : Value → Option String) (reactions : Reactions ρ)
    (qualified : String) (columns : List String) (db : LoadDb ρ) (op : StageOp) : LoadDb ρ :=
  if op = .create ∧ (db.tables qualified).isSome then db
  else reactions.effect qualified op db
    { db with tables := op.apply store qualified columns db.tables }

/-- The number of the first statement that fails, of `n` statements from `i` on. -/
def firstFault (faults : Nat → Option (Fault δ)) (i n : Nat) : Option Nat :=
  (List.range n).find? fun k => (faults (i + k)).isSome

/-- When the statements between the CREATE and the failing one, `k` of them, left the database as it
was: the DELETE, if there is one, and the batches, with all that they set off. -/
def LoadPlan.Restored {ρ : Type} (plan : LoadPlan) (store : Value → Option String)
    (reactions : Reactions ρ) (qualified : String) (db : LoadDb ρ) (k : Nat) : Prop :=
  (plan.ops.tail.take k).foldl (StageOp.perform store reactions qualified plan.columns) db = db

end PgSynapse
