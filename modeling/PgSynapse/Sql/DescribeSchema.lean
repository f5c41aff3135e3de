import PgSynapse.Lib.Joins
import PgSynapse.Std.Text
import Mathlib.Data.List.Dedup

/-!
# `describe_schema`

The statement of `DescribeSchemaTool::run` (`pg-synapse-tools-sql/src/lib.rs`) over the views of the
`information_schema`, as a role that owns all tables sees them.

A catalog has columns and constraints.  Postgres keeps the names of constraints apart on one table
only; a `CHECK` constraint has the columns that its expression uses.
-/

namespace PgSynapse

namespace Sql

/-! ### Catalogs -/

/-- What a constraint demands, of which columns.  A foreign key pairs columns of its table with columns
of the table it refers to. -/
inductive ConstraintKind where
  | primaryKey (columns : List String)
  | unique (columns : List String)
  | check (columns : List String)
  | foreignKey (pairs : List (String × String)) (toSchema toTable : String)
  deriving DecidableEq, Repr

/-- A constraint of a table. -/
structure Constraint where
  schema : String
  table : String
  name : String
  kind : ConstraintKind
  deriving DecidableEq, Repr

namespace Constraint

def isPrimary (c : Constraint) : Bool := match c.kind with | .primaryKey _ => true | _ => false

def isForeign (c : Constraint) : Bool := match c.kind with | .foreignKey .. => true | _ => false

/-- The columns of the table that are a key. -/
def keyColumns (c : Constraint) : List String :=
  match c.kind with
  | .primaryKey columns | .unique columns => columns
  | .check _ => []
  | .foreignKey pairs _ _ => pairs.map Prod.fst

/-- The schema and the table whose columns the constraint uses, and these columns. -/
def usedColumns (c : Constraint) : String × String × List String :=
  match c.kind with
  | .primaryKey columns | .unique columns | .check columns => (c.schema, c.table, columns)
  | .foreignKey pairs toSchema toTable => (toSchema, toTable, pairs.map Prod.snd)

/-- A key has columns; those of a primary key are different, and so are those that a foreign key
refers to. -/
def WellFormed (c : Constraint) : Prop :=
  match c.kind with
  | .primaryKey columns | .unique columns => columns ≠ [] ∧ columns.Nodup
  | .check _ => True
  | .foreignKey pairs _ _ => pairs ≠ [] ∧ (pairs.map Prod.snd).Nodup

instance : DecidablePred WellFormed
  | ⟨_, _, _, .primaryKey columns⟩ => inferInstanceAs (Decidable (columns ≠ [] ∧ columns.Nodup))
  | ⟨_, _, _, .unique columns⟩ => inferInstanceAs (Decidable (columns ≠ [] ∧ columns.Nodup))
  | ⟨_, _, _, .check _⟩ => inferInstanceAs (Decidable True)
  | ⟨_, _, _, .foreignKey pairs _ _⟩ =>
    inferInstanceAs (Decidable (pairs ≠ [] ∧ (pairs.map Prod.snd).Nodup))

end Constraint

/-- A row of `information_schema.columns`. -/
structure ColumnRow where
  tableSchema : String
  tableName : String
  columnName : String
  ordinalPosition : Nat
  dataType : String
  isNullable : Bool

/-- The columns and the constraints of a database. -/
structure Catalog where
  columns : List ColumnRow
  constraints : List Constraint
  /-- No two constraints of a table share a name. -/
  named : constraints.Pairwise fun c d => (c.schema, c.table, c.name) ≠ (d.schema, d.table, d.name)
  /-- A table has one primary key. -/
  onePrimary : constraints.Pairwise fun c d =>
    c.isPrimary = true → d.isPrimary = true → (c.schema, c.table) ≠ (d.schema, d.table)
  wellFormed : ∀ c ∈ constraints, c.WellFormed

/-! ### The views -/

/-- `constraint_type`. -/
inductive ConstraintType where
  | primaryKey
  | unique
  | check
  | foreignKey
  deriving DecidableEq, Repr

/-- A row of `information_schema.table_constraints`. -/
structure TableConstraintRow where
  tableSchema : String
  tableName : String
  constraintName : String
  constraintType : ConstraintType

/-- A row of `information_schema.key_column_usage`. -/
structure KeyColumnRow where
  tableSchema : String
  tableName : String
  constraintName : String
  columnName : String

/-- A row of `information_schema.constraint_column_usage`. -/
structure UsageRow where
  tableSchema : String
  tableName : String
  columnName : String
  constraintName : String

def Constraint.constraintType (c : Constraint) : ConstraintType :=
  match c.kind with
  | .primaryKey _ => .primaryKey
  | .unique _ => .unique
  | .check _ => .check
  | .foreignKey .. => .foreignKey

def Constraint.row (c : Constraint) : TableConstraintRow :=
  ⟨c.schema, c.table, c.name, c.constraintType⟩

def Constraint.keyRows (c : Constraint) : List KeyColumnRow :=
  c.keyColumns.map fun column => ⟨c.schema, c.table, c.name, column⟩

def Constraint.usageRows (c : Constraint) : List UsageRow :=
  c.usedColumns.2.2.map fun column => ⟨c.usedColumns.1, c.usedColumns.2.1, column, c.name⟩

namespace Catalog

def tableConstraints (C : Catalog) : List TableConstraintRow := C.constraints.map Constraint.row

def keyColumnUsage (C : Catalog) : List KeyColumnRow := C.constraints.flatMap Constraint.keyRows

def constraintColumnUsage (C : Catalog) : List UsageRow :=
  C.constraints.flatMap Constraint.usageRows

end Catalog

/-! ### The statement -/

/-- An entry of `primary_keys`. -/
structure PrimaryKeyEntry where
  schema : String
  table : String
  column : String
  deriving DecidableEq, Repr

/-- An entry of `foreign_keys`. -/
structure ForeignKeyEntry where
  schema : String
  fromTable : String
  fromColumn : String
  toTable : String
  toColumn : String
  deriving DecidableEq, Repr

/-- A column of an entry of `tables`. -/
structure ColumnEntry where
  name : String
  type : String
  nullable : Bool
  deriving DecidableEq, Repr

/-- An entry of `tables`. -/
structure TableEntry where
  schema : String
  table : String
  columns : List ColumnEntry
  deriving DecidableEq, Repr

/-- The answer of `describe_schema`. -/
structure Shape where
  tables : List TableEntry
  primaryKeys : List PrimaryKeyEntry
  foreignKeys : List ForeignKeyEntry
  deriving DecidableEq, Repr

/-- The condition on `table_schema`, with the bind parameter. -/
def selects (param : Option String) (tableSchema : String) : Bool :=
  decide (tableSchema ∉ ["pg_catalog", "information_schema"]) &&
    match param with
    | none => true
    | some schema => tableSchema = schema

variable (C : Catalog) (param : Option String)

/-- `tables`: the columns of each table, in order. -/
def tables : List TableEntry :=
  let rows := C.columns.filter fun c => selects param c.tableSchema
  (rows.map fun c => (c.tableSchema, c.tableName)).dedup.map fun (schema, table) =>
    let columns := rows.filter fun c => c.tableSchema = schema ∧ c.tableName = table
    ⟨schema, table, (columns.mergeSort fun c d => c.ordinalPosition ≤ d.ordinalPosition).map fun c =>
      ⟨c.columnName, c.dataType, c.isNullable⟩⟩

/-- `ON tc.constraint_name = kcu.constraint_name AND tc.table_schema = kcu.table_schema`. -/
def onKey (tc : TableConstraintRow) (kcu : KeyColumnRow) : Bool :=
  tc.constraintName = kcu.constraintName ∧ tc.tableSchema = kcu.tableSchema

/-- `ON tc.constraint_name = ccu.constraint_name`. -/
def onUsage (tc : TableConstraintRow) (ccu : UsageRow) : Bool :=
  tc.constraintName = ccu.constraintName

/-- `primary_keys`. -/
def primaryKeys : List PrimaryKeyEntry :=
  ((join C.tableConstraints C.keyColumnUsage onKey).filter fun r =>
      r.1.constraintType = .primaryKey && selects param r.1.tableSchema).map fun r =>
    ⟨r.1.tableSchema, r.1.tableName, r.2.columnName⟩

/-- `foreign_keys`. -/
def foreignKeys : List ForeignKeyEntry :=
  ((join (join C.tableConstraints C.keyColumnUsage onKey) C.constraintColumnUsage fun r =>
      onUsage r.1).filter fun r =>
      r.1.1.constraintType = .foreignKey && selects param r.1.1.tableSchema).map fun r =>
    ⟨r.1.1.tableSchema, r.1.1.tableName, r.1.2.columnName, r.2.tableName, r.2.columnName⟩

/-- The bind parameter of the schema argument: trimmed, and null when nothing is left. -/
def schemaParam (schema : Option String) : Option String :=
  (schema.map Text.trim).filter fun s => !s.isEmpty

/-- `DescribeSchemaTool::run`. -/
def describeSchema (schema : Option String) : Shape :=
  let param := schemaParam schema
  ⟨tables C param, primaryKeys C param, foreignKeys C param⟩

end Sql

end PgSynapse
