import PgSynapse.Sql.DescribeSchema
import Mathlib.Data.List.Pairwise

/-!
# The key graph `describe_schema` reports

The statement joins the rows of a constraint on its name.  So it pairs every column of a foreign key
with every column it refers to, and with the columns of constraints of other tables that share the
name.  It reports the key graph just when no such rows meet (`describe_schema_iff`).
-/

namespace PgSynapse

namespace Sql

/-! ### The key graph -/

/-- The columns a foreign key pairs up. -/
def Constraint.pairedColumns (c : Constraint) : List ForeignKeyEntry :=
  match c.kind with
  | .foreignKey pairs _ toTable =>
    pairs.map fun (column, toColumn) => ⟨c.schema, c.table, column, toTable, toColumn⟩
  | _ => []

/-- The columns of a primary key. -/
def Constraint.primaryColumns (c : Constraint) : List PrimaryKeyEntry :=
  match c.kind with
  | .primaryKey columns => columns.map fun column => ⟨c.schema, c.table, column⟩
  | _ => []

section Catalogs

variable (C : Catalog) (param : Option String)

/-- The foreign keys of the selected schemas. -/
def Catalog.foreign : List Constraint :=
  C.constraints.filter fun c => c.isForeign && selects param c.schema

/-- The primary keys of the selected schemas. -/
def Catalog.primary : List Constraint :=
  C.constraints.filter fun c => c.isPrimary && selects param c.schema

/-- What `foreign_keys` should list. -/
def Catalog.keyGraph : List ForeignKeyEntry :=
  (C.foreign param).flatMap Constraint.pairedColumns

/-- What `primary_keys` should list. -/
def Catalog.primaryKeyColumns : List PrimaryKeyEntry :=
  (C.primary param).flatMap Constraint.primaryColumns

/-- The rows of `key_column_usage` that a constraint meets. -/
def Catalog.keysOf (c : Constraint) : List KeyColumnRow := C.keyColumnUsage.filter (onKey c.row)

/-- The rows of `constraint_column_usage` that a constraint meets. -/
def Catalog.usagesOf (c : Constraint) : List UsageRow := C.constraintColumnUsage.filter (onUsage c.row)

end Catalogs

/-! ### The joins by constraint -/

section Joins

variable {C : Catalog} {param : Option String}

theorem Constraint.constraintType_eq_primaryKey (c : Constraint) :
    decide (c.row.constraintType = .primaryKey) = c.isPrimary := by
  unfold Constraint.row Constraint.constraintType Constraint.isPrimary
  cases c.kind <;> rfl

theorem Constraint.constraintType_eq_foreignKey (c : Constraint) :
    decide (c.row.constraintType = .foreignKey) = c.isForeign := by
  unfold Constraint.row Constraint.constraintType Constraint.isForeign
  cases c.kind <;> rfl

theorem primaryKeys_eq : primaryKeys C param =
    (C.primary param).flatMap fun c =>
      (C.keysOf c).map fun kcu => ⟨c.schema, c.table, kcu.columnName⟩ := by
  unfold primaryKeys Catalog.tableConstraints Catalog.primary
  rw [filter_join fun tc : TableConstraintRow =>
    tc.constraintType = .primaryKey && selects param tc.tableSchema]
  simp only [join, List.filter_map, List.flatMap_map, List.map_flatMap, List.map_map,
    Function.comp_def, Constraint.constraintType_eq_primaryKey]
  rfl

theorem foreignKeys_eq : foreignKeys C param =
    (C.foreign param).flatMap fun c => (C.keysOf c).flatMap fun kcu =>
      (C.usagesOf c).map fun ccu =>
        ⟨c.schema, c.table, kcu.columnName, ccu.tableName, ccu.columnName⟩ := by
  unfold foreignKeys Catalog.tableConstraints Catalog.foreign
  rw [filter_join fun r : TableConstraintRow × KeyColumnRow =>
      r.1.constraintType = .foreignKey && selects param r.1.tableSchema,
    filter_join fun tc : TableConstraintRow =>
      tc.constraintType = .foreignKey && selects param tc.tableSchema]
  simp only [join, List.filter_map, List.flatMap_map, List.map_flatMap, List.map_map,
    List.flatMap_assoc, Function.comp_def, Constraint.constraintType_eq_foreignKey]
  rfl

/-! ### The rows a constraint meets -/

theorem Catalog.nodup (C : Catalog) : C.constraints.Nodup :=
  C.named.imp fun hne heq => hne (by rw [heq])

theorem keysOf_eq_flatMap (c : Constraint) :
    C.keysOf c = C.constraints.flatMap fun d => d.keyRows.filter (onKey c.row) := by
  rw [Catalog.keysOf, Catalog.keyColumnUsage, List.filter_flatMap]

theorem usagesOf_eq_flatMap (c : Constraint) :
    C.usagesOf c = C.constraints.flatMap fun d => d.usageRows.filter (onUsage c.row) := by
  rw [Catalog.usagesOf, Catalog.constraintColumnUsage, List.filter_flatMap]

theorem filter_keyRows_self (c : Constraint) : c.keyRows.filter (onKey c.row) = c.keyRows := by
  rw [List.filter_eq_self]
  intro row hrow
  obtain ⟨column, -, rfl⟩ := List.mem_map.mp hrow
  simp [onKey, Constraint.row]

theorem filter_usageRows_self (c : Constraint) :
    c.usageRows.filter (onUsage c.row) = c.usageRows := by
  rw [List.filter_eq_self]
  intro row hrow
  obtain ⟨column, -, rfl⟩ := List.mem_map.mp hrow
  simp [onUsage, Constraint.row]

theorem filter_keyRows_eq_nil_iff (c d : Constraint) : d.keyRows.filter (onKey c.row) = [] ↔
    (d.name = c.name → d.schema = c.schema → d.keyColumns = []) := by
  rw [List.filter_eq_nil_iff]
  constructor
  · intro h hname hschema
    by_contra hne
    obtain ⟨column, hcolumn⟩ := List.exists_mem_of_ne_nil _ hne
    exact h ⟨d.schema, d.table, d.name, column⟩ (List.mem_map.mpr ⟨column, hcolumn, rfl⟩)
      (by simp [onKey, Constraint.row, hname, hschema])
  · intro h row hrow hon
    obtain ⟨column, hcolumn, rfl⟩ := List.mem_map.mp hrow
    obtain ⟨hname, hschema⟩ := of_decide_eq_true hon
    rw [h hname.symm hschema.symm] at hcolumn
    cases hcolumn

theorem filter_usageRows_eq_nil_iff (c d : Constraint) : d.usageRows.filter (onUsage c.row) = [] ↔
    (d.name = c.name → d.usedColumns.2.2 = []) := by
  rw [List.filter_eq_nil_iff]
  constructor
  · intro h hname
    by_contra hne
    obtain ⟨column, hcolumn⟩ := List.exists_mem_of_ne_nil _ hne
    exact h ⟨d.usedColumns.1, d.usedColumns.2.1, column, d.name⟩
      (List.mem_map.mpr ⟨column, hcolumn, rfl⟩) (by simp [onUsage, Constraint.row, hname])
  · intro h row hrow hon
    obtain ⟨column, hcolumn, rfl⟩ := List.mem_map.mp hrow
    rw [h (of_decide_eq_true hon).symm] at hcolumn
    cases hcolumn

/-- A constraint meets its own key columns. -/
theorem length_le_keysOf {c : Constraint} (hc : c ∈ C.constraints) :
    c.keyColumns.length ≤ (C.keysOf c).length := by
  have hle := length_le_length_flatMap (f := fun d => d.keyRows.filter (onKey c.row)) hc
  rwa [← keysOf_eq_flatMap, filter_keyRows_self, Constraint.keyRows, List.length_map] at hle

theorem length_le_usagesOf {c : Constraint} (hc : c ∈ C.constraints) :
    c.usedColumns.2.2.length ≤ (C.usagesOf c).length := by
  have hle := length_le_length_flatMap (f := fun d => d.usageRows.filter (onUsage c.row)) hc
  rwa [← usagesOf_eq_flatMap, filter_usageRows_self, Constraint.usageRows, List.length_map] at hle

/-- No other key of the schema has the name of the constraint. -/
def Catalog.KeyApart (C : Catalog) (c : Constraint) : Prop :=
  ∀ d ∈ C.constraints, d ≠ c → d.name = c.name → d.schema = c.schema → d.keyColumns = []

/-- No other constraint that uses columns has the name of the constraint. -/
def Catalog.UsageApart (C : Catalog) (c : Constraint) : Prop :=
  ∀ d ∈ C.constraints, d ≠ c → d.name = c.name → d.usedColumns.2.2 = []

/-- **Apart**: a constraint meets no key columns but its own just if its name is apart. -/
theorem length_keysOf_iff {c : Constraint} (hc : c ∈ C.constraints) :
    (C.keysOf c).length = c.keyColumns.length ↔ C.KeyApart c := by
  have hself : c.keyColumns.length = (c.keyRows.filter (onKey c.row)).length := by
    rw [filter_keyRows_self, Constraint.keyRows, List.length_map]
  rw [hself, keysOf_eq_flatMap]
  constructor
  · intro h d hd hne
    rw [← filter_keyRows_eq_nil_iff]
    exact eq_nil_of_length_flatMap_le (f := fun d => d.keyRows.filter (onKey c.row)) hc h.le d hd hne
  · intro h
    rw [flatMap_eq_of_forall_ne C.nodup hc fun d hd hne =>
      (filter_keyRows_eq_nil_iff c d).mpr (h d hd hne)]

theorem length_usagesOf_iff {c : Constraint} (hc : c ∈ C.constraints) :
    (C.usagesOf c).length = c.usedColumns.2.2.length ↔ C.UsageApart c := by
  have hself : c.usedColumns.2.2.length = (c.usageRows.filter (onUsage c.row)).length := by
    rw [filter_usageRows_self, Constraint.usageRows, List.length_map]
  rw [hself, usagesOf_eq_flatMap]
  constructor
  · intro h d hd hne
    rw [← filter_usageRows_eq_nil_iff]
    exact eq_nil_of_length_flatMap_le (f := fun d => d.usageRows.filter (onUsage c.row)) hc h.le d hd
      hne
  · intro h
    rw [flatMap_eq_of_forall_ne C.nodup hc fun d hd hne =>
      (filter_usageRows_eq_nil_iff c d).mpr (h d hd hne)]

/-- What a constraint whose name is apart meets. -/
theorem keysOf_of_apart {c : Constraint} (hc : c ∈ C.constraints) (h : C.KeyApart c) :
    C.keysOf c = c.keyRows := by
  rw [keysOf_eq_flatMap, flatMap_eq_of_forall_ne C.nodup hc fun d hd hne =>
    (filter_keyRows_eq_nil_iff c d).mpr (h d hd hne), filter_keyRows_self]

theorem usagesOf_of_apart {c : Constraint} (hc : c ∈ C.constraints) (h : C.UsageApart c) :
    C.usagesOf c = c.usageRows := by
  rw [usagesOf_eq_flatMap, flatMap_eq_of_forall_ne C.nodup hc fun d hd hne =>
    (filter_usageRows_eq_nil_iff c d).mpr (h d hd hne), filter_usageRows_self]

/-- A key uses columns. -/
theorem Catalog.UsageApart.keyApart {c : Constraint} (h : C.UsageApart c) : C.KeyApart c := by
  intro d hd hne hname _
  have hused := h d hd hne hname
  obtain ⟨schema, table, name, kind⟩ := d
  cases kind with
  | primaryKey columns => exact hused
  | unique columns => exact hused
  | check columns => rfl
  | foreignKey pairs toSchema toTable =>
    rw [Constraint.keyColumns, List.map_eq_nil_iff]
    exact List.map_eq_nil_iff.mp hused

/-! ### Primary keys -/

theorem Catalog.mem_primary {c : Constraint} (h : c ∈ C.primary param) :
    c ∈ C.constraints ∧ ∃ columns, c.kind = .primaryKey columns := by
  obtain ⟨hc, hp⟩ := List.mem_filter.mp h
  rw [Bool.and_eq_true] at hp
  refine ⟨hc, ?_⟩
  have hprimary := hp.1
  unfold Constraint.isPrimary at hprimary
  split at hprimary
  · exact ⟨_, by assumption⟩
  · cases hprimary

theorem Constraint.length_primaryColumns {c : Constraint} {columns : List String}
    (h : c.kind = .primaryKey columns) : c.primaryColumns.length = c.keyColumns.length := by
  unfold Constraint.primaryColumns Constraint.keyColumns
  rw [h]
  exact List.length_map _

theorem Catalog.nodup_primaryKeyColumns (C : Catalog) (param : Option String) :
    (C.primaryKeyColumns param).Nodup := by
  refine List.nodup_flatMap.mpr ⟨?_, ?_⟩
  · intro c hc
    obtain ⟨hmem, columns, hkind⟩ := Catalog.mem_primary hc
    have hwell := C.wellFormed c hmem
    unfold Constraint.WellFormed at hwell
    rw [hkind] at hwell
    rw [Constraint.primaryColumns, hkind]
    exact hwell.2.map fun a b hab => by simpa using hab
  · refine (C.onePrimary.sublist List.filter_sublist).imp_of_mem ?_
    intro c d hc hd hne e hec hed
    obtain ⟨-, columns, hkind⟩ := Catalog.mem_primary hc
    obtain ⟨-, columns', hkind'⟩ := Catalog.mem_primary hd
    rw [Constraint.primaryColumns, hkind] at hec
    rw [Constraint.primaryColumns, hkind'] at hed
    obtain ⟨column, -, rfl⟩ := List.mem_map.mp hec
    obtain ⟨column', -, heq⟩ := List.mem_map.mp hed
    refine hne ?_ ?_ ?_
    · simp [Constraint.isPrimary, hkind]
    · simp [Constraint.isPrimary, hkind']
    · rw [PrimaryKeyEntry.mk.injEq] at heq
      rw [heq.1, heq.2.1]

/-- **Primary keys** are listed just if no key of the same schema has the name of one. -/
theorem primaryKeys_iff : ListsOnce (primaryKeys C param) (C.primaryKeyColumns param) ↔
    ∀ c ∈ C.primary param, C.KeyApart c := by
  rw [primaryKeys_eq]
  constructor
  · intro h c hc
    obtain ⟨hmem, columns, hkind⟩ := Catalog.mem_primary hc
    rw [← length_keysOf_iff hmem]
    have hlen := h.length_eq (fun d hd => ?_) c hc
    · rwa [List.length_map, Constraint.length_primaryColumns hkind] at hlen
    · obtain ⟨hmem, columns, hkind⟩ := Catalog.mem_primary hd
      rw [List.length_map, Constraint.length_primaryColumns hkind]
      exact length_le_keysOf hmem
  · intro h
    have heq : ((C.primary param).flatMap fun c =>
        (C.keysOf c).map fun kcu => (⟨c.schema, c.table, kcu.columnName⟩ : PrimaryKeyEntry)) =
          C.primaryKeyColumns param := by
      refine List.flatMap_congr fun c hc => ?_
      obtain ⟨hmem, columns, hkind⟩ := Catalog.mem_primary hc
      rw [keysOf_of_apart hmem (h c hc), Constraint.keyRows, Constraint.primaryColumns,
        Constraint.keyColumns, hkind, List.map_map]
      rfl
    rw [heq]
    exact ⟨C.nodup_primaryKeyColumns param, fun _ => Iff.rfl⟩

/-! ### Foreign keys -/

theorem Catalog.mem_foreign {c : Constraint} (h : c ∈ C.foreign param) :
    c ∈ C.constraints ∧ ∃ pairs toSchema toTable,
      c.kind = .foreignKey pairs toSchema toTable ∧ pairs ≠ [] ∧ (pairs.map Prod.snd).Nodup := by
  obtain ⟨hc, hf⟩ := List.mem_filter.mp h
  rw [Bool.and_eq_true] at hf
  refine ⟨hc, ?_⟩
  have hforeign := hf.1
  have hwell := C.wellFormed c hc
  unfold Constraint.isForeign at hforeign
  unfold Constraint.WellFormed at hwell
  split at hforeign
  · rename_i pairs toSchema toTable hkind
    rw [hkind] at hwell
    exact ⟨pairs, toSchema, toTable, hkind, hwell⟩
  · cases hforeign

/-- The columns that a foreign key pairs up, counted. -/
theorem Constraint.length_pairedColumns {c : Constraint} {pairs : List (String × String)}
    {toSchema toTable : String} (h : c.kind = .foreignKey pairs toSchema toTable) :
    c.pairedColumns.length = pairs.length ∧ c.keyColumns.length = pairs.length ∧
      c.usedColumns.2.2.length = pairs.length := by
  unfold Constraint.pairedColumns Constraint.keyColumns Constraint.usedColumns
  rw [h]
  exact ⟨List.length_map _, List.length_map _, List.length_map _⟩

/-- What the join makes of one foreign key. -/
def Catalog.joined (C : Catalog) (c : Constraint) : List ForeignKeyEntry :=
  (C.keysOf c).flatMap fun kcu => (C.usagesOf c).map fun ccu =>
    ⟨c.schema, c.table, kcu.columnName, ccu.tableName, ccu.columnName⟩

theorem length_joined (c : Constraint) :
    (C.joined c).length = (C.keysOf c).length * (C.usagesOf c).length := by
  simp [Catalog.joined, List.length_flatMap]

/-- The foreign key has one column, and its name is apart. -/
def Catalog.JoinsApart (C : Catalog) (c : Constraint) : Prop :=
  c.keyColumns.length = 1 ∧ C.UsageApart c

/-- **One row**: the join makes as many rows of a foreign key as it pairs columns just if it pairs
one, and its name is apart. -/
theorem length_joined_iff {c : Constraint} (hc : c ∈ C.foreign param) :
    (C.joined c).length = c.pairedColumns.length ↔ C.JoinsApart c := by
  obtain ⟨hmem, pairs, toSchema, toTable, hkind, hne, -⟩ := Catalog.mem_foreign hc
  obtain ⟨hpaired, hkeys, hused⟩ := Constraint.length_pairedColumns hkind
  have hpos : 0 < pairs.length := List.length_pos_iff.mpr hne
  have hkeysLe := length_le_keysOf hmem
  have husedLe := length_le_usagesOf hmem
  rw [length_joined, hpaired, Catalog.JoinsApart, hkeys, ← length_usagesOf_iff hmem, hused]
  rw [hkeys] at hkeysLe
  rw [hused] at husedLe
  constructor
  · intro hlen
    -- a product that is no more than its factors
    have hsquare : pairs.length * pairs.length ≤ pairs.length * 1 :=
      calc pairs.length * pairs.length
          ≤ (C.keysOf c).length * (C.usagesOf c).length := Nat.mul_le_mul hkeysLe husedLe
        _ = pairs.length * 1 := by rw [hlen, Nat.mul_one]
    have hone : pairs.length = 1 := by
      have hle := Nat.le_of_mul_le_mul_left hsquare hpos
      omega
    rw [hone] at hlen ⊢
    exact ⟨rfl, Nat.eq_one_of_mul_eq_one_left hlen⟩
  · rintro ⟨hone, hlen⟩
    have hapart : C.UsageApart c := (length_usagesOf_iff hmem).mp (hlen.trans hused.symm)
    rw [(length_keysOf_iff hmem).mpr hapart.keyApart, hkeys, hlen, hone]

/-- What the join makes of a foreign key with one column whose name is apart. -/
theorem joined_of_apart {c : Constraint} (hc : c ∈ C.foreign param) (h : C.JoinsApart c) :
    C.joined c = c.pairedColumns := by
  obtain ⟨hmem, pairs, toSchema, toTable, hkind, -, -⟩ := Catalog.mem_foreign hc
  obtain ⟨-, hkeys, -⟩ := Constraint.length_pairedColumns hkind
  have hone := h.1
  rw [hkeys] at hone
  obtain ⟨⟨column, toColumn⟩, rfl⟩ := List.length_eq_one_iff.mp hone
  rw [Catalog.joined, keysOf_of_apart hmem h.2.keyApart, usagesOf_of_apart hmem h.2,
    Constraint.keyRows, Constraint.usageRows, Constraint.keyColumns, Constraint.usedColumns,
    Constraint.pairedColumns, hkind]
  rfl

/-- **Foreign keys** are listed just if each has one column and a name that is apart, and no two pair
the same columns. -/
theorem foreignKeys_iff : ListsOnce (foreignKeys C param) (C.keyGraph param) ↔
    (∀ c ∈ C.foreign param, C.JoinsApart c) ∧ (C.keyGraph param).Nodup := by
  have hjoined : foreignKeys C param = (C.foreign param).flatMap C.joined := foreignKeys_eq
  rw [hjoined]
  constructor
  · intro h
    have hlen := h.length_eq fun c hc => ?_
    · refine ⟨fun c hc => (length_joined_iff hc).mp (hlen c hc), ?_⟩
      refine (h.perm (length_flatMap_le fun c hc => (hlen c hc).ge)).nodup_iff.mp h.1
    · obtain ⟨hmem, pairs, toSchema, toTable, hkind, hne, -⟩ := Catalog.mem_foreign hc
      obtain ⟨hpaired, hkeys, hused⟩ := Constraint.length_pairedColumns hkind
      have hkeysLe := length_le_keysOf hmem
      have husedLe := length_le_usagesOf hmem
      have hpos : 0 < (C.usagesOf c).length := by
        have := List.length_pos_iff.mpr hne
        omega
      rw [length_joined, hpaired, ← hkeys]
      exact hkeysLe.trans (Nat.le_mul_of_pos_right _ hpos)
  · rintro ⟨hall, hnodup⟩
    have heq : (C.foreign param).flatMap C.joined = C.keyGraph param :=
      List.flatMap_congr fun c hc => joined_of_apart hc (hall c hc)
    rw [heq]
    exact ⟨hnodup, fun _ => Iff.rfl⟩

/-! ### The answer -/

/-- The answer lists the columns that the foreign keys of the selected schemas pair up, and those of
their primary keys, each once. -/
def ReportsKeys (C : Catalog) (schema : Option String) : Prop :=
  ListsOnce (describeSchema C schema).foreignKeys (C.keyGraph (schemaParam schema)) ∧
    ListsOnce (describeSchema C schema).primaryKeys (C.primaryKeyColumns (schemaParam schema))

/-- **`describe_schema`** reports the keys just if every selected foreign key has one column and a name
no other constraint with columns has, no two of them pair the same columns, and no other key of the
schema has the name of a selected primary key. -/
theorem describe_schema_iff (C : Catalog) (schema : Option String) :
    ReportsKeys C schema ↔
      ((∀ c ∈ C.foreign (schemaParam schema), C.JoinsApart c) ∧
        (C.keyGraph (schemaParam schema)).Nodup) ∧
      ∀ c ∈ C.primary (schemaParam schema), C.KeyApart c :=
  and_congr foreignKeys_iff primaryKeys_iff

/-- Two tables, the second with a key of two columns into the first. -/
def orderLines : Catalog where
  columns := []
  constraints := [
    ⟨"public", "lines", "lines_pkey", .primaryKey ["order_id", "line_no"]⟩,
    ⟨"public", "shipments", "shipments_line_fkey",
      .foreignKey [("order_id", "order_id"), ("line_no", "line_no")] "public" "lines"⟩]
  named := by decide
  onePrimary := by decide
  wellFormed := by decide

/-- Two tables whose foreign keys of one column share a name. -/
def sharedName : Catalog where
  columns := []
  constraints := [
    ⟨"public", "users", "users_pkey", .primaryKey ["id"]⟩,
    ⟨"public", "teams", "teams_pkey", .primaryKey ["id"]⟩,
    ⟨"public", "orders", "owner_fk", .foreignKey [("user_id", "id")] "public" "users"⟩,
    ⟨"public", "projects", "owner_fk", .foreignKey [("team_id", "id")] "public" "teams"⟩]
  named := by decide
  onePrimary := by decide
  wellFormed := by decide

/-- A key of two columns is crossed, and keys that share a name are mixed. -/
theorem crossed_and_mixed_keys :
    ¬ ReportsKeys orderLines none ∧ ¬ ReportsKeys sharedName none ∧
      (⟨"public", "shipments", "order_id", "lines", "line_no"⟩ : ForeignKeyEntry) ∈
        (describeSchema orderLines none).foreignKeys ∧
      (⟨"public", "orders", "user_id", "teams", "id"⟩ : ForeignKeyEntry) ∈
        (describeSchema sharedName none).foreignKeys := by
  have hcrossed : (⟨"public", "shipments", "order_id", "lines", "line_no"⟩ : ForeignKeyEntry) ∈
      (describeSchema orderLines none).foreignKeys := by decide
  have hmixed : (⟨"public", "orders", "user_id", "teams", "id"⟩ : ForeignKeyEntry) ∈
      (describeSchema sharedName none).foreignKeys := by decide
  refine ⟨fun h => ?_, fun h => ?_, hcrossed, hmixed⟩
  · exact absurd ((h.1.2 _).mp hcrossed) (by decide)
  · exact absurd ((h.1.2 _).mp hmixed) (by decide)

end Joins

end Sql

end PgSynapse
