import PgSynapse.Pgrx.Equiv.Provenance

/-!
# When a provenance entry names one row

`record_provenance` keeps one column of the index of the primary key.  Over any history of
transactions, entries tell the rows apart and a lookup finds the runs that wrote the row just if that
column decides the key among the rows that were written, and no entry stands there under the id of a
run that did not write the row (`rows_identified_iff`).
-/

namespace PgSynapse

/-! ### Keys and entries -/

/-- The primary key of the row a write leaves. -/
def RowWrite.key (w : RowWrite) : List (Option String) :=
  w.table.primaryKey.map fun c => (w.row.lookup c).join

/-- What the index of `row_provenance` goes by. -/
def ProvenanceRow.location (p : ProvenanceRow) : String × String × Option String :=
  (p.tableSchema, p.tableName, p.rowPk)

/-- The value of the column that `record_provenance` records. -/
def RowWrite.recordedPk (w : RowWrite) : Option String :=
  w.table.indkey.head?.bind fun pkCol => (w.row.lookup pkCol.name).join

/-- The location of the entries of a row, whichever run they name. -/
def RowWrite.location (w : RowWrite) : String × String × Option String :=
  (w.table.schema, w.table.name, w.recordedPk)

/-- The row writes that stand. -/
def Tracked.writes (t : Tracked) : List RowWrite :=
  t.log.filterMap fun
    | .write _ w _ => some w
    | .entry _ _ => none

/-- The runs a lookup in `row_provenance` finds. -/
def Tracked.lookup (t : Tracked) (location : String × String × Option String) : List Uuid :=
  (t.provenance.filter fun p => p.location = location).map ProvenanceRow.executionId

/-- A transaction with a run that inserts one row. -/
def insertRun (id : Nat) (table : TrackedTable) (row : List (String × Option String)) :
    Option String × List TxItem :=
  (none, [.run ⟨id⟩ [.execute ⟨"INSERT", [], [.write ⟨table, .insert, row⟩], .table [] 1⟩]])

/-- Two runs, each in a transaction of its own, that insert a line of the same order. -/
def orderLines (indkey : List IndexColumn) : List (Option String × List TxItem) :=
  let lines : TrackedTable := ⟨"public", "order_lines", indkey⟩
  [insertRun 7 lines [("order_id", some "1"), ("line", some "1")],
    insertRun 8 lines [("order_id", some "1"), ("line", some "2")]]

end PgSynapse
