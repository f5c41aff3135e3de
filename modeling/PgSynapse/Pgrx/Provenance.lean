import PgSynapse.Pgrx.SpiExecutor
import PgSynapse.Pgrx.UuidIn

/-!
# Row provenance

The trigger `synapse.record_provenance` (`sql/schema.sql`) on tables that `synapse.track_provenance`
attached it to, and transactions in which direct user statements and agent runs alternate.

The trigger is `AFTER INSERT OR UPDATE ... FOR EACH ROW`, so a row write here is an insert or an
update of one row.  It runs with the rights of whoever writes, who may insert into
`synapse.row_provenance` then; that no other table of the extension is written directly, and that none
of its triggers is taken away, is assumed throughout.
-/

namespace PgSynapse

/-- `TG_OP` of the trigger. -/
inductive WriteOp where
  | insert
  | update
  deriving DecidableEq, Repr

/-- The text of `TG_OP`. -/
def WriteOp.text : WriteOp → String
  | .insert => "INSERT"
  | .update => "UPDATE"

/-- A column of the index of a primary key: of the key itself, or one that the index `INCLUDE`s. -/
structure IndexColumn where
  name : String
  isKey : Bool
  deriving DecidableEq, Repr

/-- A table with the trigger attached.  `pg_index.indkey` lists all columns of the index; they stand
here in the order in which the query of the trigger meets them. -/
structure TrackedTable where
  schema : String
  name : String
  indkey : List IndexColumn
  deriving DecidableEq, Repr

/-- The columns of the primary key. -/
def TrackedTable.primaryKey (t : TrackedTable) : List String :=
  (t.indkey.filter IndexColumn.isKey).map IndexColumn.name

/-- A write of one row of a tracked table; `row` is `NEW`, column by column, as text. -/
structure RowWrite where
  table : TrackedTable
  op : WriteOp
  row : List (String × Option String)
  deriving DecidableEq, Repr

/-- A row of `synapse.row_provenance`. -/
structure ProvenanceRow where
  executionId : Uuid
  tableSchema : String
  tableName : String
  rowPk : Option String
  op : String
  deriving DecidableEq, Repr

/-- What stands in the database: a row write with the entry its trigger made, if it made one, or an
entry inserted directly.  Each is kept with who made it, the run whose SQL tool call it was or no run;
the code does not see that mark. -/
inductive Logged where
  | write (author : Option Uuid) (w : RowWrite) (recorded : Option ProvenanceRow)
  | entry (author : Option Uuid) (p : ProvenanceRow)
  deriving DecidableEq, Repr

/-- The entry in `synapse.row_provenance`, if there is one. -/
def Logged.recorded : Logged → Option ProvenanceRow
  | .write _ _ recorded => recorded
  | .entry _ p => some p

/-- Who made it. -/
def Logged.author : Logged → Option Uuid
  | .write author _ _ => author
  | .entry author _ => author

/-- The tracked part of the database: its row writes and the entries of `synapse.row_provenance`. -/
structure Tracked where
  log : List Logged
  deriving DecidableEq

/-- `synapse.row_provenance`. -/
def Tracked.provenance (t : Tracked) : List ProvenanceRow := t.log.filterMap Logged.recorded

/-- The entry of a write under a given execution id. -/
def provenanceRow (w : RowWrite) (executionId : Uuid) : ProvenanceRow where
  executionId := executionId
  tableSchema := w.table.schema
  tableName := w.table.name
  -- `LIMIT 1`: one column of the index stands for the key
  rowPk := w.table.indkey.head?.bind fun pkCol => (w.row.lookup pkCol.name).join
  op := w.op.text

/-- `nullif(current_setting('synapse.execution_id', true), '')`. -/
def publishedId (setting : Option String) : Option String := setting.filter fun id => !id.isEmpty

/-- `synapse.record_provenance()`: an unset or empty setting records nothing, and one that is not a
`uuid` raises. -/
def recordProvenance (setting : Option String) (w : RowWrite) :
    Except String (Option ProvenanceRow) :=
  match publishedId setting with
  | none => .ok none
  | some text =>
    match Uuid.read text with
    | some id => .ok (some (provenanceRow w id))
    | none => .error ("invalid input syntax for type uuid: \"" ++ text ++ "\"")

/-! ### Statements -/

/-- What a statement does that matters here: a row write with its trigger, a change of the setting
(`set_config`, `SET`, `RESET`), or a direct INSERT into `synapse.row_provenance`. -/
inductive SqlEffect where
  | write (w : RowWrite)
  | setting (value : Option String)
  | entry (p : ProvenanceRow)
  deriving DecidableEq, Repr

/-- One more write or entry in the database. -/
def Session.add (s : Session Tracked) (l : Logged) : Session Tracked :=
  { s with db := ⟨s.db.log ++ [l]⟩ }

/-- One effect of SQL that `author` runs. -/
def applyEffect (s : Session Tracked) : Option Uuid × SqlEffect → Except String (Session Tracked)
  | (author, .write w) => (recordProvenance s.executionId w).map fun e => s.add (.write author w e)
  | (_, .setting value) => .ok { s with executionId := value }
  | (author, .entry p) => .ok (s.add (.entry author p))

/-- A SQL statement with what Postgres makes of it: its effects in the order they happen, a row write
standing where the trigger `synapse_provenance` runs for it, and how the statement ends when none of
these triggers raises. -/
structure SqlStatement where
  sql : String
  params : List Value
  effects : List SqlEffect
  outcome : SpiOutcome

/-- Running a statement for `author`. -/
def SqlStatement.update (stmt : SqlStatement) (author : Option Uuid) : SpiUpdate Tracked :=
  fun _ _ s =>
    match (stmt.effects.map (author, ·)).foldlM applyEffect s with
    | .ok s => (stmt.outcome, s)
    | .error message => (.raised message, s)

/-- A step of an agent run that reaches the database: a call of `SpiSqlExecutor::execute` or
`::query` by one of its tools, or a delegated run. -/
inductive RunStep where
  | execute (stmt : SqlStatement)
  | query (stmt : SqlStatement)
  | delegate (executionId : Uuid) (steps : List RunStep)

/-- A part of a transaction: an effect of a direct statement of the user, an agent run
(`synapse.execute`), or a block the user put under a savepoint, released (`keep`) or rolled back.

The runs of the inline agents of a row (`synapse_agent_*`) stand before the row's write, whose trigger
`synapse_provenance` comes after theirs by name. -/
inductive TxItem where
  | direct (e : SqlEffect)
  | run (executionId : Uuid) (steps : List RunStep)
  | block (items : List TxItem) (keep : Bool)

mutual

/-- One step of the run `id`.  The run goes on whether the call succeeds or fails. -/
def RunStep.perform (disabled : Bool) (id : Uuid) :
    RunStep → Backend (Session Tracked) → Backend (Session Tracked)
  | .execute stmt, b =>
    (SpiSqlExecutor.execute (stmt.update (some id)) disabled stmt.sql stmt.params
      (some id.text) b).2
  | .query stmt, b =>
    (SpiSqlExecutor.query (stmt.update (some id)) disabled stmt.sql stmt.params
      (some id.text) b).2
  -- in the same session: until its first call the child runs under the setting it finds
  | .delegate child steps, b => performSteps disabled child steps b

/-- The steps of the run `id`, in order. -/
def performSteps (disabled : Bool) (id : Uuid) :
    List RunStep → Backend (Session Tracked) → Backend (Session Tracked)
  | [], b => b
  | step :: rest, b => performSteps disabled id rest (step.perform disabled id b)

end

mutual

/-- One part of a transaction.  A direct statement whose trigger raises aborts it, up to a savepoint
that the user rolls back to; the rest then finds the state of that savepoint. -/
def TxItem.perform (disabled : Bool) :
    TxItem → Backend (Session Tracked) → Option (Backend (Session Tracked))
  | .direct e, b => (applyEffect b.cur (none, e)).toOption.map fun s => ⟨s, b.saved⟩
  | .run id steps, b => some (performSteps disabled id steps b)
  | .block items keep, b =>
    match performItems disabled items b.beginSub, keep with
    | some b', true => some b'.release
    -- the setting is transactional, so a rollback takes it back with the rows
    | some b', false => some b'.rollback
    | none, true => none
    | none, false => some b.beginSub.rollback

/-- The parts of a transaction, in order. -/
def performItems (disabled : Bool) :
    List TxItem → Backend (Session Tracked) → Option (Backend (Session Tracked))
  | [], b => some b
  | item :: rest, b => (item.perform disabled b).bind (performItems disabled rest)

end

/-- The start of a transaction: what the database holds, and the setting of the session, left there by
an earlier `SET` without `LOCAL`. -/
def txStart (t : Tracked) (setting : Option String) : Backend (Session Tracked) := ⟨⟨t, setting⟩, []⟩

/-- The tracked part of the database once the transaction is over; one that is aborted leaves it as it
was. -/
def transact (disabled : Bool) (setting : Option String) (items : List TxItem) (t : Tracked) :
    Tracked :=
  match performItems disabled items (txStart t setting) with
  | some b => b.cur.db
  | none => t

/-! ### What stands -/

/-- An effect with what came before it: the setting it finds, and whose SQL it is. -/
structure Found where
  setting : Option String
  author : Option Uuid
  effect : SqlEffect
  deriving DecidableEq, Repr

/-- The setting after an effect. -/
def SqlEffect.leaves (setting : Option String) : SqlEffect → Option String
  | .setting value => value
  | _ => setting

/-- Effects in order, each with the setting it finds. -/
def trail (setting : Option String) : List (Option Uuid × SqlEffect) → List Found
  | [] => []
  | (author, e) :: rest => ⟨setting, author, e⟩ :: trail (e.leaves setting) rest

/-- Whether the effect is a row write whose trigger raises. -/
def Found.raises (f : Found) : Bool :=
  match f.effect with
  | .write w => !(recordProvenance f.setting w).isOk
  | _ => false

/-- What the effect adds to the database. -/
def Found.logged (f : Found) : Option Logged :=
  match f.effect with
  | .write w => some (.write f.author w (recordProvenance f.setting w).toOption.join)
  | .setting _ => none
  | .entry p => some (.entry f.author p)

/-- The effects of a statement in the savepoint of the run `id`, which first publishes the id. -/
def SqlStatement.published (stmt : SqlStatement) (id : Uuid) : List (Option Uuid × SqlEffect) :=
  (some id, .setting (some id.text)) :: stmt.effects.map (some id, ·)

/-- Whether a trigger raises in the statement. -/
def SqlStatement.raises (stmt : SqlStatement) (id : Uuid) : Bool :=
  (trail none (stmt.published id)).any Found.raises

/-- Whether `SpiSqlExecutor::execute` releases its savepoint after this statement. -/
def SqlStatement.executes (stmt : SqlStatement) (id : Uuid) : Bool :=
  match stmt.outcome with
  | .table _ _ => !stmt.raises id
  | _ => false

/-- Whether `SpiSqlExecutor::query` releases its savepoint after this statement. -/
def SqlStatement.answers (stmt : SqlStatement) (id : Uuid) : Bool :=
  match stmt.outcome with
  | .table rows _ => !stmt.raises id && (readRows "sql_query" rows).isOk
  | _ => false

mutual

/-- The effects of a step of the run `id` that stand: those of its calls that succeed. -/
def RunStep.standing (id : Uuid) : RunStep → List (Option Uuid × SqlEffect)
  | .execute stmt => if stmt.executes id then stmt.published id else []
  | .query stmt => if stmt.answers id then stmt.published id else []
  | .delegate child steps => standingAll child steps

/-- The effects of a run that stand. -/
def standingAll (id : Uuid) : List RunStep → List (Option Uuid × SqlEffect)
  | [] => []
  | step :: rest => step.standing id ++ standingAll id rest

end

mutual

/-- The effects of a part of a transaction that stand: nothing that a savepoint was rolled back over,
and nothing of a run when the SQL tools are turned off. -/
def TxItem.standing (disabled : Bool) : TxItem → List (Option Uuid × SqlEffect)
  | .direct e => [(none, e)]
  | .run id steps => if disabled then [] else standingAll id steps
  | .block items keep => if keep then standingIn disabled items else []

/-- The effects of some parts that stand. -/
def standingIn (disabled : Bool) : List TxItem → List (Option Uuid × SqlEffect)
  | [] => []
  | item :: rest => item.standing disabled ++ standingIn disabled rest

end

/-! ### Attribution -/

/-- Whether a row write finds the setting it should: none, or an empty one, where the user made it, and
the id of the run where one of the run's SQL tool calls did. -/
def Found.namesAuthor (f : Found) : Bool :=
  match f.effect, f.author with
  | .write _, none => (publishedId f.setting).isNone
  | .write _, some id => (publishedId f.setting).bind Uuid.read = some id
  | _, _ => true

/-- A row write has an entry just if it was made by a SQL tool call of a run, and the entry carries the
id of that run. -/
def Logged.Attributed : Logged → Prop
  | .write author w recorded => recorded = author.map (provenanceRow w)
  | .entry _ _ => True

instance : (l : Logged) → Decidable l.Attributed
  | .write author w recorded => inferInstanceAs (Decidable (recorded = author.map (provenanceRow w)))
  | .entry _ _ => .isTrue trivial

/-- **Attribution**: the row writes of agents are recorded under their run, and no others are. -/
def Attributed (t : Tracked) : Prop := ∀ l ∈ t.log, l.Attributed

instance (t : Tracked) : Decidable (Attributed t) :=
  inferInstanceAs (Decidable (∀ l ∈ t.log, l.Attributed))

end PgSynapse
