import PgSynapse.Fs.Equiv.Tools
import PgSynapse.LoadFile.Equiv.Columns
import PgSynapse.LoadFile.Equiv.FreshLoad

/-!
# `export_csv` and `load_csv`

What `export_csv` writes of a table that `load_csv` made is loaded again, on tables that keep texts
and `NULL` as they are.  The columns come back in the order of their names.  A name that was cut
behind an underscore loses it, so the tables are the same just if no column name ends with one
(`export_load_iff`).
-/

namespace PgSynapse

/-! ### Column names as headers -/

variable {U : UnicodeCase}

/-- A text that `to_column_name` could have made, apart from an underscore at its end. -/
structure CanonicalName (name : String) : Prop extends ValidName name where
  pair : ¬ ['_', '_'] <:+: name.toList

theorem toColumnName_canonical (header : String) {index : Nat} (hindex : index < 2 ^ 64) :
    CanonicalName (toColumnName U header index) := by
  refine ⟨toColumnName_valid U header hindex, ?_⟩
  rw [toColumnName_eq]
  by_cases hletter : startsWithLetter U header = true
  · rw [if_pos hletter, String.toList_ofList]
    intro hpair
    have hsqueezed : headerText U header <:+:
        squeeze Char.isAlphanum '_' (U.toLowercase (Text.trim header)).toList := by
      rw [headerText, headerWords, ← trimMatches_squeeze (by decide)]
      exact (infix_of_trimMatches _ _).1
    exact not_pair_squeeze (by decide) _
      ((hpair.trans (List.take_prefix _ _).isInfix).trans hsqueezed)
  · rw [if_neg hletter, String.toList_ofList]
    intro hpair
    -- the only underscore is the one before the number
    have hcount := hpair.sublist.count_le '_'
    have hdigits : (numeral (index + 1)).count '_' = 0 :=
      List.count_eq_zero.mpr Nat.underscore_not_in_toDigits
    rw [List.count_append, hdigits, show "col_".toList.count '_' = 1 by decide] at hcount
    exact absurd hcount (by decide)

/-- The characters of a name. -/
theorem ValidName.char {name : String} (h : ValidName name) {c : Char} (hc : c ∈ name.toList) :
    (c.isAlphanum = true ∨ c = '_') ∧ c.isUpper = false ∧ c.toNat < 128 ∧
      Text.isWhitespace c = false := by
  have hwhite (halnum : c.isAlphanum = true) : Text.isWhitespace c = false :=
    Text.isWhitespace_of_isIdentifierChar (by simp [Text.isIdentifierChar, halnum])
  have hupper (hcode : ¬ (65 ≤ c.toNat ∧ c.toNat ≤ 90)) : c.isUpper = false := by
    rwa [Bool.eq_false_iff, ne_eq, isUpper_iff_toNat]
  rcases h.chars c hc with hlower | hdigit | rfl
  · have halnum : c.isAlphanum = true := by
      show ((c.isUpper || c.isLower) || c.isDigit) = true
      simp [hlower]
    rw [isLower_iff_toNat] at hlower
    exact ⟨.inl halnum, hupper (by omega), by omega, hwhite halnum⟩
  · have halnum : c.isAlphanum = true := by simp [Char.isAlphanum, hdigit]
    have hcode : 48 ≤ c.toNat ∧ c.toNat ≤ 57 := Char.isDigit_iff_toNat.mp hdigit
    exact ⟨.inl halnum, hupper (by omega), by omega, hwhite halnum⟩
  · exact ⟨.inr rfl, by decide, by decide, by decide⟩

/-- Lowercasing and trimming leave a name as it is. -/
theorem ValidName.toLowercase {name : String} (h : ValidName name) :
    U.toLowercase (Text.trim name) = name := by
  have hne : name.toList ≠ [] := by
    intro hnil
    have hfirst := h.first
    rw [hnil] at hfirst
    cases hfirst
  have htight : Text.Tight name.toList := Text.tight_of_forall hne fun c hc => (h.char hc).2.2.2
  have htrim : Text.trim name = name := by
    apply String.toList_inj.mp
    have heq := htight.trim_eq
    rwa [String.ofList_toList] at heq
  have hkeep : name.toList.map (fun c => if 'A' ≤ c && c ≤ 'Z' then Char.ofNat (c.toNat + 32) else c) =
      name.toList := by
    refine (List.map_congr_left fun c hc => ?_).trans (List.map_id _)
    have hupper := (h.char hc).2.1
    rw [if_neg]
    · rfl
    · intro hrange
      rw [Bool.and_eq_true, decide_eq_true_eq, decide_eq_true_eq] at hrange
      rw [Bool.eq_false_iff, ne_eq, isUpper_iff_toNat] at hupper
      exact hupper (hrange.imp UInt32.le_iff_toNat_le.mp UInt32.le_iff_toNat_le.mp)
  rw [htrim, U.ascii name fun c hc => (h.char hc).2.2.1, Text.toAsciiLowercase, hkeep,
    String.ofList_toList]

/-- The words of a name, joined again. -/
theorem CanonicalName.headerText {name : String} (h : CanonicalName name) :
    headerText U name = trimMatches '_' name.toList := by
  have hsqueeze : squeeze Char.isAlphanum '_' name.toList = name.toList :=
    squeeze_eq_self (by decide) (fun c hc => (h.toValidName.char hc).1) h.pair
  unfold PgSynapse.headerText headerWords
  rw [← trimMatches_squeeze (by decide), h.toValidName.toLowercase, hsqueeze]

/-- **A name is its own column name**, if it does not end with an underscore. -/
theorem CanonicalName.toColumnName {name : String} (h : CanonicalName name)
    (hlast : name.toList.getLast? ≠ some '_') (index : Nat) :
    toColumnName U name index = name := by
  have hfirst := h.first
  have hlen := h.length.2
  have htext : PgSynapse.headerText U name = name.toList := by
    rw [h.headerText]
    refine trimMatches_eq_self ?_ ?_ hlast
    · intro hnil
      rw [hnil] at hfirst
      cases hfirst
    · intro hhead
      rw [hhead] at hfirst
      exact absurd hfirst (by decide)
  have hletter : startsWithLetter U name = true := by
    unfold startsWithLetter
    rw [htext]
    rcases hhead : name.toList.head? with _ | c
    · rw [hhead] at hfirst
      cases hfirst
    · rw [hhead] at hfirst
      have hlower : c.isLower = true := hfirst
      show (c.isUpper || c.isLower) = true
      rw [hlower, Bool.or_true]
  rw [toColumnName_eq, if_pos hletter, htext, List.take_of_length_le, String.ofList_toList]
  rwa [String.length_toList]

/-- The column name of a name does not end with an underscore. -/
theorem CanonicalName.toColumnName_last {name : String} (h : CanonicalName name) (index : Nat) :
    (PgSynapse.toColumnName U name index).toList.getLast? ≠ some '_' := by
  rw [toColumnName_eq]
  by_cases hletter : startsWithLetter U name = true
  · obtain ⟨hwithin, hlast⟩ := infix_of_trimMatches '_' name.toList
    have hlen := hwithin.length_le
    rw [String.length_toList] at hlen
    rw [if_pos hletter, String.toList_ofList, h.headerText,
      List.take_of_length_le (hlen.trans h.length.2)]
    exact hlast
  · rw [if_neg hletter, String.toList_ofList, List.getLast?_append_of_ne_nil _ (numeral_ne_nil _)]
    intro hend
    exact Nat.underscore_not_in_toDigits (List.mem_of_getLast? hend)

/-! ### Rows as objects -/

theorem keys_insertField {key : String} {v : Value} {fields : List (String × Value)}
    (hkey : key ∉ fields.map Prod.fst) :
    ((Value.insertField key v fields).map Prod.fst).Perm (key :: fields.map Prod.fst) := by
  induction fields with
  | nil => exact List.Perm.refl _
  | cons field fields ih =>
    obtain ⟨k, w⟩ := field
    rw [List.map_cons, List.mem_cons, not_or] at hkey
    rw [Value.insertField, if_neg hkey.1]
    by_cases hlt : key < k
    · rw [if_pos hlt]
      exact List.Perm.refl _
    · rw [if_neg hlt]
      exact ((ih hkey.2).cons k).trans (List.Perm.swap key k _)

/-- An object of members with different keys has these keys. -/
theorem keys_obj {fields : List (String × Value)} (hnodup : (fields.map Prod.fst).Nodup) :
    ∃ stored, Value.obj fields = .object stored ∧
      (stored.map Prod.fst).Perm (fields.map Prod.fst) := by
  have hloop : ∀ (fields acc : List (String × Value)), ((acc ++ fields).map Prod.fst).Nodup →
      ((fields.foldl (fun acc kv => Value.insertField kv.1 kv.2 acc) acc).map Prod.fst).Perm
        ((acc ++ fields).map Prod.fst) := by
    intro fields
    induction fields with
    | nil =>
      intro acc _
      rw [List.append_nil]
      exact List.Perm.refl _
    | cons field fields ih =>
      intro acc hnodup
      have hkey : field.1 ∉ acc.map Prod.fst := by
        rw [List.map_append, List.map_cons] at hnodup
        intro hmem
        exact (List.nodup_append.mp hnodup).2.2 _ hmem _ List.mem_cons_self rfl
      have hmove : ((Value.insertField field.1 field.2 acc ++ fields).map Prod.fst).Perm
          ((acc ++ field :: fields).map Prod.fst) := by
        rw [List.map_append, List.map_append, List.map_cons]
        exact ((keys_insertField hkey).append_right _).trans List.perm_middle.symm
      exact (ih _ (hmove.nodup_iff.mpr hnodup)).trans hmove
  exact ⟨_, rfl, hloop fields [] hnodup⟩

/-- The cell of a row under a column name. -/
def cellOf (columns : List String) (row : List (Option String)) (c : String) : Option String :=
  ((columns.zip row).lookup c).join

/-- A row has a cell under each of its columns, and no other. -/
theorem lookup_zip {columns : List String} {row : List (Option String)}
    (hlen : row.length = columns.length) (c : String) :
    (columns.zip row).lookup c = if c ∈ columns then some (cellOf columns row c) else none := by
  unfold cellOf
  induction columns generalizing row with
  | nil => rfl
  | cons d columns ih =>
    obtain ⟨v, row, rfl⟩ := List.exists_cons_of_length_eq_add_one hlen
    rw [List.zip_cons_cons, List.lookup_cons]
    by_cases hc : c = d
    · subst hc
      simp
    · rw [beq_eq_false_iff_ne.mpr hc]
      simp only [List.mem_cons, hc, false_or]
      exact ih (Nat.succ.inj hlen)

/-- The cells under some columns. -/
theorem cellOf_map {columns : List String} {f : String → Option String} {c : String}
    (hc : c ∈ columns) : cellOf columns (columns.map f) c = f c := by
  unfold cellOf
  induction columns with
  | nil => exact absurd hc List.not_mem_nil
  | cons d columns ih =>
    rw [List.map_cons, List.zip_cons_cons, List.lookup_cons]
    by_cases hcd : c = d
    · subst hcd
      simp
    · rw [beq_eq_false_iff_ne.mpr hcd]
      exact ih ((List.mem_cons.mp hc).resolve_left hcd)

/-! ### Tables that keep texts -/

/-- A bound text is stored as it is, and `NULL` as `NULL`. -/
def textStore : Value → Option String
  | .string s => some s
  | _ => none

namespace StagedTable

/-- The names of the columns. -/
def names (t : StagedTable) : List String := t.columns.map Prod.fst

/-- `SELECT *`: each row as an object, a text as it is stored. -/
def selectAll (t : StagedTable) : List Value :=
  t.rows.map fun row => .obj (t.names.zip (row.map cellParam))

/-- The cell of a row under a column name, if both are there. -/
def cell (t : StagedTable) (i : Nat) (c : String) : Option (Option String) :=
  t.rows[i]?.bind fun row => (t.names.zip row).lookup c

end StagedTable

/-- **Two tables have the same content**: the same column names, and the same rows in the same order
under them. -/
structure SameContent (t t' : StagedTable) : Prop where
  names : ∀ c, c ∈ t.names ↔ c ∈ t'.names
  rows : t.rows.length = t'.rows.length
  cells : ∀ i c, t.cell i c = t'.cell i c

/-- A load of the file into a table that is not there is accepted, and makes the table. -/
def CsvLoaded (U : UnicodeCase) (csv : Csv) (table : String) (replace : Bool) (bytes : ByteArray)
    (ctx : ToolCtx) (b : Backend (Session Tables)) (t : StagedTable) : Prop :=
  ∃ plan qualified out b', LoadCsvTool.plan U csv table replace bytes = .ok plan ∧
    quoteTable table "load_csv" = .ok qualified ∧ b.cur.db qualified = none ∧
    LoadTool.run (freshTables textStore fun _ => none) false (.ok plan) ctx b = (.ok out, b') ∧
    b'.cur.db qualified = some t

/-- The records that `export_csv` writes. -/
def exportRecords (rows : List Value) : List (List String) :=
  rows.map fun row => (exportColumns rows).map (exportCell row)

/-- The CSV reader reads back what the CSV writer writes, for these records behind this header. -/
def Csv.ReadsBack (csv : Csv) (header : List String) (records : List (List String)) : Prop :=
  ∃ bytes, csv.write (header :: records) = .ok bytes ∧ csv.headers bytes = .ok header ∧
    csv.records bytes = records.map .ok

/-! ### What a load stores -/

theorem textStore_cellParam (v : Option String) : textStore (cellParam v) = v := by
  cases v <;> rfl

/-- A row that fits is stored as it is. -/
theorem stored_row {columns : Nat} {row : List (Option String)} (hlen : row.length = columns) :
    (rowParams columns row).map textStore = row := by
  rw [rowParams_eq_fitRow, fitRow_eq_self hlen, List.map_map]
  exact (List.map_congr_left fun v _ => textStore_cellParam v).trans (List.map_id' _)

/-- The table of a load whose rows fit. -/
theorem staged_textStore {plan : LoadPlan}
    (hwidth : ∀ row ∈ plan.rows, row.length = plan.columns.length) :
    plan.staged textStore = ⟨plan.columns.map fun c => (c, none), plan.rows⟩ := by
  have hrows : plan.rows.map (fun row => (rowParams plan.columns.length row).map textStore) =
      plan.rows :=
    (List.map_congr_left fun row hrow => stored_row (hwidth row hrow)).trans (List.map_id' _)
  unfold LoadPlan.staged
  rw [hrows]

/-- The names of a table are those its columns were made with. -/
theorem names_mk (columns : List String) (rows : List (List (Option String))) :
    StagedTable.names ⟨columns.map fun c => (c, none), rows⟩ = columns := by
  unfold StagedTable.names
  rw [List.map_map]
  exact List.map_id' _

theorem length_csvRow (columns : Nat) (record : List String) :
    (csvRow columns record).length = columns := by
  unfold csvRow
  simp only [List.length_take, List.length_append, List.length_map, List.length_replicate]
  omega

/-- A cell that a load can make: no text, or one without white space at its ends. -/
def CleanCell (v : Option String) : Prop := csvCell (v.getD "") = v

/-- The cells of a record, one for each column. -/
theorem csvRow_eq (columns : Nat) (record : List String) :
    csvRow columns record = (List.range columns).map fun i => record[i]?.bind csvCell := by
  unfold csvRow
  generalize csvCell = cell
  apply List.ext_getElem?
  intro i
  simp only [List.getElem?_map, List.length_map]
  by_cases hi : i < columns
  · rw [List.getElem?_take_of_lt hi, List.getElem?_range hi]
    by_cases hlt : i < record.length
    · rw [List.getElem?_append_left (by rwa [List.length_map]), List.getElem?_map,
        Option.map_some, List.getElem?_eq_getElem hlt]
      rfl
    · rw [List.getElem?_append_right (by rw [List.length_map]; omega),
        List.getElem?_replicate_of_lt (by rw [List.length_map]; omega),
        Option.map_some, List.getElem?_eq_none (by omega)]
      rfl
  · rw [List.getElem?_eq_none, List.getElem?_eq_none (by rw [List.length_range]; omega)]
    · rfl
    · exact (List.length_take_le columns _).trans (by omega)

theorem csvCell_clean (v : String) : CleanCell (csvCell v) := by
  unfold CleanCell csvCell
  by_cases hempty : (Text.trim v).isEmpty = true
  · simp only [hempty, if_true]
    rfl
  · simp only [hempty, Option.getD_some, Text.trim_trim, Bool.false_eq_true, if_false]

theorem mem_csvRow {columns : Nat} {record : List String} {v : Option String}
    (h : v ∈ csvRow columns record) : CleanCell v := by
  rcases List.mem_append.mp (List.mem_of_mem_take h) with hcell | hpad
  · obtain ⟨text, -, rfl⟩ := List.mem_map.mp hcell
    exact csvCell_clean text
  · rw [(List.mem_replicate.mp hpad).2]
    rfl

/-- Records that are all well formed. -/
theorem csvRows_ok {columns : Nat} {read : List (Except String (List String))}
    {rows : List (List (Option String))} (h : csvRows columns read = .ok rows) :
    ∃ records : List (List String), read = records.map .ok ∧ rows = records.map (csvRow columns) := by
  induction read generalizing rows with
  | nil => exact ⟨[], rfl, (Except.ok.inj h).symm⟩
  | cons first read ih =>
    rcases first with e | record
    · cases h
    · rw [csvRows] at h
      rcases hrest : csvRows columns read with e | rest
      · rw [hrest] at h
        cases h
      · rw [hrest] at h
        obtain ⟨records, hread, hrows⟩ := ih hrest
        refine ⟨record :: records, by rw [hread]; rfl, ?_⟩
        rw [← Except.ok.inj h, hrows]
        rfl

theorem csvRows_map_ok (columns : Nat) (records : List (List String)) :
    csvRows columns (records.map .ok) = .ok (records.map (csvRow columns)) := by
  induction records with
  | nil => rfl
  | cons record records ih =>
    rw [List.map_cons, csvRows, ih]
    rfl

/-- A table that `load_csv` made: column names of headers, and rows of clean cells. -/
structure CsvTable (U : UnicodeCase) (t : StagedTable) : Prop where
  named : ∃ headers, t.names = columnNames U headers
  nonempty : t.names ≠ []
  nodup : t.names.Nodup
  width : ∀ row ∈ t.rows, row.length = t.names.length
  clean : ∀ row ∈ t.rows, ∀ v ∈ row, CleanCell v

/-- A plan of `load_csv`. -/
theorem LoadCsvTool.plan_ok {csv : Csv} {table : String} {replace : Bool} {bytes : ByteArray}
    {plan : LoadPlan} (h : LoadCsvTool.plan U csv table replace bytes = .ok plan) :
    ∃ headers rows, csv.headers bytes = .ok headers ∧ columnNames U headers ≠ [] ∧
      csvRows (columnNames U headers).length (csv.records bytes) = .ok rows ∧
      plan = ⟨"load_csv", table, columnNames U headers, rows, replace⟩ := by
  unfold LoadCsvTool.plan at h
  rcases hheaders : csv.headers bytes with e | headers
  · rw [hheaders] at h
    cases h
  rw [hheaders] at h
  simp only at h
  by_cases hempty : (columnNames U headers).isEmpty = true
  · rw [if_pos hempty] at h
    cases h
  rw [if_neg hempty] at h
  rcases hrows : csvRows (columnNames U headers).length (csv.records bytes) with e | rows
  · rw [hrows] at h
    cases h
  · rw [hrows] at h
    exact ⟨headers, rows, rfl, fun hnil => hempty (List.isEmpty_iff.mpr hnil), hrows,
      (Except.ok.inj h).symm⟩

/-- **What an accepted load makes**. -/
theorem CsvLoaded.table {csv : Csv} {table : String} {replace : Bool} {bytes : ByteArray}
    {ctx : ToolCtx} {b : Backend (Session Tables)} {t : StagedTable}
    (h : CsvLoaded U csv table replace bytes ctx b t) :
    CsvTable U t ∧ ∃ plan, LoadCsvTool.plan U csv table replace bytes = .ok plan ∧
      t = ⟨plan.columns.map fun c => (c, none), plan.rows⟩ := by
  obtain ⟨plan, qualified, out, b', hplan, hq, hfresh, hrun, ht⟩ := h
  obtain ⟨headers, rows, -, hne, hrows, heq⟩ := LoadCsvTool.plan_ok hplan
  have hquoted : quoteTable plan.table plan.tool = .ok qualified := by rwa [heq]
  obtain ⟨hnodup, hdb⟩ := freshLoad_accepted hquoted hfresh hrun
  subst heq
  simp only at hnodup
  obtain ⟨records, -, hread⟩ := csvRows_ok hrows
  have hwidth : ∀ row ∈ rows, row.length = (columnNames U headers).length := by
    intro row hrow
    rw [hread] at hrow
    obtain ⟨record, -, rfl⟩ := List.mem_map.mp hrow
    exact length_csvRow _ record
  have hstaged : t = ⟨(columnNames U headers).map fun c => (c, none), rows⟩ := by
    rw [hdb, Function.update_self] at ht
    rw [← Option.some.inj ht]
    exact staged_textStore hwidth
  have hnames : t.names = columnNames U headers := by rw [hstaged, names_mk]
  refine ⟨⟨⟨headers, hnames⟩, by rwa [hnames], by rwa [hnames], ?_, ?_⟩, _, hplan, hstaged⟩
  · rw [hnames, hstaged]
    exact hwidth
  · rw [hstaged]
    intro row hrow v hv
    rw [hread] at hrow
    obtain ⟨record, -, rfl⟩ := List.mem_map.mp hrow
    exact mem_csvRow hv

/-! ### What an export writes -/

theorem lookup_reverse {fields : List (String × Value)} (hnodup : (fields.map Prod.fst).Nodup)
    (c : String) : fields.reverse.lookup c = fields.lookup c := by
  induction fields with
  | nil => rfl
  | cons field fields ih =>
    obtain ⟨k, v⟩ := field
    rw [List.map_cons, List.nodup_cons] at hnodup
    rw [List.reverse_cons, List.lookup_append, ih hnodup.2]
    by_cases hc : c = k
    · subst hc
      have hnone : fields.lookup c = none := by
        rw [List.lookup_eq_none_iff]
        intro p hp
        rw [bne_iff_ne]
        intro hkey
        exact hnodup.1 (List.mem_map.mpr ⟨p, hp, hkey.symm⟩)
      rw [hnone, List.lookup_cons_self, List.lookup_cons_self]
      rfl
    · rw [List.lookup_cons, List.lookup_cons, beq_eq_false_iff_ne.mpr hc]
      exact Option.or_none

theorem lookup_zip_cellParam (columns : List String) (row : List (Option String)) (c : String) :
    (columns.zip (row.map cellParam)).lookup c = ((columns.zip row).lookup c).map cellParam := by
  induction columns generalizing row with
  | nil => rfl
  | cons d columns ih =>
    cases row with
    | nil => rfl
    | cons v row =>
      rw [List.map_cons, List.zip_cons_cons, List.zip_cons_cons, List.lookup_cons,
        List.lookup_cons]
      cases c == d with
      | true => rfl
      | false => exact ih row

section Export

variable {t : StagedTable}

theorem keys_row (h : CsvTable U t) {row : List (Option String)} (hrow : row ∈ t.rows) :
    (t.names.zip (row.map cellParam)).map Prod.fst = t.names := by
  apply List.map_fst_zip
  rw [List.length_map, h.width row hrow]

/-- The columns of an export are the columns of the table, in the order of their names. -/
theorem exportColumns_perm (h : CsvTable U t) (hrows : t.rows ≠ []) :
    (exportColumns t.selectAll).Perm t.names := by
  obtain ⟨row, rows, hsplit⟩ := List.exists_cons_of_ne_nil hrows
  have hrow : row ∈ t.rows := by
    rw [hsplit]
    exact List.mem_cons_self
  have hkeys := keys_row h hrow
  obtain ⟨stored, hstored, hperm⟩ := keys_obj (hkeys.symm ▸ h.nodup)
  rw [hkeys] at hperm
  unfold StagedTable.selectAll
  rw [hsplit, List.map_cons, hstored]
  exact hperm

/-- A cell of an export: its text, or nothing. -/
theorem exportCell_row (h : CsvTable U t) {row : List (Option String)} (hrow : row ∈ t.rows)
    (c : String) :
    exportCell (.obj (t.names.zip (row.map cellParam))) c = (cellOf t.names row c).getD "" := by
  unfold exportCell cellOf
  rw [Value.get?_obj, lookup_reverse ((keys_row h hrow).symm ▸ h.nodup), lookup_zip_cellParam]
  rcases (t.names.zip row).lookup c with _ | _ | s <;> rfl

theorem cellOf_clean (h : CsvTable U t) {row : List (Option String)} (hrow : row ∈ t.rows)
    (c : String) : CleanCell (cellOf t.names row c) := by
  unfold cellOf
  rcases hlookup : (t.names.zip row).lookup c with _ | v
  · rfl
  · obtain ⟨before, behind, hsplit, -⟩ := List.lookup_eq_some_iff.mp hlookup
    have hmem : (c, v) ∈ t.names.zip row := by
      rw [hsplit]
      exact List.mem_append_right _ List.mem_cons_self
    exact h.clean row hrow v (List.of_mem_zip hmem).2

/-- **A record of an export** is read as the cells of its row. -/
theorem csvRow_export (h : CsvTable U t) {row : List (Option String)} (hrow : row ∈ t.rows)
    (columns : List String) :
    csvRow columns.length
        (columns.map (exportCell (.obj (t.names.zip (row.map cellParam))))) =
      columns.map (cellOf t.names row) := by
  have hcell (c : String) :
      csvCell (exportCell (.obj (t.names.zip (row.map cellParam))) c) = cellOf t.names row c := by
    rw [exportCell_row h hrow]
    exact cellOf_clean h hrow c
  generalize exportCell (.obj (t.names.zip (row.map cellParam))) = text at hcell
  have hcells : (columns.map text).map csvCell = columns.map (cellOf t.names row) := by
    simp only [List.map_map, Function.comp_def, hcell]
  unfold csvRow
  simp only [hcells, List.length_map, Nat.sub_self, List.replicate_zero, List.append_nil]
  rw [List.take_of_length_le (by rw [List.length_map])]

/-- The column names of a table are canonical. -/
theorem CsvTable.canonical (h : CsvTable U t) (hcolumns : t.names.length < 2 ^ 64) :
    ∀ c ∈ t.names, CanonicalName c := by
  obtain ⟨headers, hnames⟩ := h.named
  rw [hnames]
  intro c hc
  obtain ⟨i, hi, rfl⟩ := List.mem_mapIdx.mp hc
  rw [hnames, columnNames, List.length_mapIdx] at hcolumns
  exact toColumnName_canonical _ (by omega)

/-- Names without an underscore at their ends are their own column names. -/
theorem columnNames_eq_self {columns : List String} (hcanonical : ∀ c ∈ columns, CanonicalName c)
    (hlast : ∀ c ∈ columns, c.toList.getLast? ≠ some '_') : columnNames U columns = columns := by
  apply List.ext_getElem?
  intro i
  rw [getElem?_columnNames]
  rcases hc : columns[i]? with _ | c
  · rfl
  · have hmem := List.mem_of_getElem? hc
    rw [Option.map_some, (hcanonical c hmem).toColumnName (hlast c hmem) i]

/-- **The round trip**: what `export_csv` writes of a table that `load_csv` made is loaded as a table
with the same content, just if no column name ends with an underscore. -/
theorem export_load_iff {csv : Csv} {table : String} {replace : Bool} {bytes : ByteArray}
    {ctx : ToolCtx} {b : Backend (Session Tables)}
    (hload : CsvLoaded U csv table replace bytes ctx b t) (hrows : t.rows ≠ [])
    (hcolumns : t.names.length < 2 ^ 64)
    (hcsv : csv.ReadsBack (exportColumns t.selectAll) (exportRecords t.selectAll))
    {table' qualified' : String} (hq : quoteTable table' "load_csv" = .ok qualified')
    {b' : Backend (Session Tables)} (hfresh : b'.cur.db qualified' = none) (replace' : Bool)
    (ctx' : ToolCtx) :
    (∃ bytes' t', exportBytes (.ok t.selectAll) csv.write = some bytes' ∧
      CsvLoaded U csv table' replace' bytes' ctx' b' t' ∧ SameContent t t') ↔
    ∀ c ∈ t.names, c.toList.getLast? ≠ some '_' := by
  obtain ⟨htable, -⟩ := hload.table
  obtain ⟨file, hwrite, hheaders, hrecords⟩ := hcsv
  have hperm := exportColumns_perm htable hrows
  have hcanonical := htable.canonical hcolumns
  have hexport : exportBytes (.ok t.selectAll) csv.write = some file := by
    obtain ⟨row, rows, hsplit⟩ := List.exists_cons_of_ne_nil hrows
    have hall : t.selectAll = .obj (t.names.zip (row.map cellParam)) ::
        rows.map fun row => .obj (t.names.zip (row.map cellParam)) := by
      unfold StagedTable.selectAll
      rw [hsplit, List.map_cons]
    unfold exportRecords at hwrite
    rw [hall] at hwrite ⊢
    exact congrArg Except.toOption hwrite
  generalize hK : exportColumns t.selectAll = columns at hperm hheaders
  have hplan : columnNames U columns ≠ [] → LoadCsvTool.plan U csv table' replace' file =
      .ok ⟨"load_csv", table', columnNames U columns,
        t.rows.map fun row => columns.map (cellOf t.names row), replace'⟩ := by
    intro hne
    have hlen : (columnNames U columns).length = columns.length := List.length_mapIdx
    have hread : csvRows columns.length (csv.records file) =
        .ok (t.rows.map fun row => columns.map (cellOf t.names row)) := by
      rw [hrecords, csvRows_map_ok]
      unfold exportRecords StagedTable.selectAll
      rw [List.map_map, List.map_map]
      congr 1
      apply List.map_congr_left
      intro row hrow
      have hrecord := csvRow_export htable hrow columns
      rw [← hK] at hrecord ⊢
      exact hrecord
    unfold LoadCsvTool.plan
    simp only [hheaders, hlen, hread]
    rw [if_neg (by rwa [List.isEmpty_iff])]
    rfl
  constructor
  · rintro ⟨bytes', t', hbytes, hload', hsame⟩ c hc hend
    obtain rfl : file = bytes' := Option.some.inj (hexport.symm.trans hbytes)
    obtain ⟨-, plan', hplan', hstaged⟩ := hload'.table
    obtain ⟨headers, rows, hheaders', -, -, rfl⟩ := LoadCsvTool.plan_ok hplan'
    obtain rfl : columns = headers := Except.ok.inj (hheaders.symm.trans hheaders')
    have hnames : t'.names = columnNames U columns := by rw [hstaged, names_mk]
    -- the loaded table has no such name
    have hmem := (hsame.names c).mp hc
    rw [hnames] at hmem
    obtain ⟨i, hi, hname⟩ := List.mem_mapIdx.mp hmem
    have hcolumn := hcanonical _ (hperm.subset (List.getElem_mem hi))
    exact hcolumn.toColumnName_last i (hname.symm ▸ hend)
  · intro hlast
    have hfixed : columnNames U columns = columns :=
      columnNames_eq_self (fun c hc => hcanonical c (hperm.subset hc))
        fun c hc => hlast c (hperm.subset hc)
    rw [hfixed] at hplan
    have hne : columns ≠ [] := fun hnil => htable.nonempty (hnil ▸ hperm).nil_eq.symm
    let rows := t.rows.map fun row => columns.map (cellOf t.names row)
    let plan : LoadPlan := ⟨"load_csv", table', columns, rows, replace'⟩
    have hquoted : quoteTable plan.table plan.tool = .ok qualified' := hq
    have hwidth : ∀ row ∈ plan.rows, row.length = plan.columns.length := by
      intro row hrow
      obtain ⟨row, -, rfl⟩ := List.mem_map.mp hrow
      exact List.length_map _
    obtain ⟨out, b'', hrun⟩ := freshLoad_accepts hquoted (hperm.nodup_iff.mpr htable.nodup) ctx' b'
    obtain ⟨-, hdb⟩ := freshLoad_accepted hquoted hfresh hrun
    rw [staged_textStore hwidth] at hdb
    refine ⟨file, ⟨columns.map fun c => (c, none), rows⟩, hexport,
      ⟨plan, qualified', out, b'', hplan hne, hq, hfresh, hrun, ?_⟩, ?_, ?_, ?_⟩
    · rw [hdb, Function.update_self]
    · intro c
      rw [names_mk]
      exact hperm.mem_iff.symm
    · exact (List.length_map _).symm
    · intro i c
      unfold StagedTable.cell
      rw [names_mk, List.getElem?_map]
      rcases hi : t.rows[i]? with _ | row
      · rfl
      · have hrow := List.mem_of_getElem? hi
        show (t.names.zip row).lookup c = (columns.zip (columns.map (cellOf t.names row))).lookup c
        rw [lookup_zip (htable.width row hrow), lookup_zip (List.length_map _)]
        by_cases hc : c ∈ columns
        · rw [if_pos (hperm.subset hc), if_pos hc, cellOf_map hc]
        · rw [if_neg hc, if_neg fun hmem => hc (hperm.mem_iff.mpr hmem)]

end Export

/-! ### Two files -/

/-- The records of a file without quotes and empty lines. -/
def plainRecords (bytes : ByteArray) : List (List String) :=
  match String.fromUTF8? bytes with
  | some text => (Text.lines text).map (Text.splitChar ',')
  | none => []

/-- The `csv` crate, on files without quotes and empty lines. -/
def plainCsv : Csv where
  headers bytes := .ok ((plainRecords bytes).headD [])
  records bytes := (plainRecords bytes).tail.map .ok
  write records :=
    .ok (String.join (records.map fun record => ",".intercalate record ++ "\n")).toUTF8

theorem plainRecords_toUTF8 (text : String) :
    plainRecords text.toUTF8 = (Text.lines text).map (Text.splitChar ',') := by
  unfold plainRecords
  rw [fromUTF8?_toUTF8]

/-- The plan of a plain file. -/
theorem plainCsv_plan (table text : String) {header : List String} {records : List (List String)}
    (htext : (Text.lines text).map (Text.splitChar ',') = header :: records) (hne : header ≠ []) :
    LoadCsvTool.plan asciiCase plainCsv table false text.toUTF8 =
      .ok ⟨"load_csv", table, columnNames asciiCase header,
        records.map (csvRow header.length), false⟩ := by
  have hheaders : plainCsv.headers text.toUTF8 = .ok header := by
    show Except.ok ((plainRecords text.toUTF8).headD []) = _
    rw [plainRecords_toUTF8, htext]
    rfl
  have hrecords : plainCsv.records text.toUTF8 = records.map .ok := by
    show (plainRecords text.toUTF8).tail.map _ = _
    rw [plainRecords_toUTF8, htext]
    rfl
  have hlen : (columnNames asciiCase header).length = header.length := List.length_mapIdx
  unfold LoadCsvTool.plan
  simp only [hheaders, hrecords, hlen, csvRows_map_ok]
  rw [if_neg]
  · rfl
  · rw [List.isEmpty_iff]
    intro hnil
    rw [hnil] at hlen
    exact hne (List.length_eq_zero_iff.mp hlen.symm)

/-- No tables at all. -/
def noTables : Backend (Session Tables) := ⟨⟨fun _ => none, none⟩, []⟩

theorem quoteTable_t : quoteTable "t" "load_csv" = .ok "\"t\"" := by rfl

/-- A plain file is loaded into a new table. -/
theorem plainCsv_run (store : Value → Option String) (text : String) {header : List String}
    {records : List (List String)}
    (htext : (Text.lines text).map (Text.splitChar ',') = header :: records) (hne : header ≠ [])
    (hnodup : (columnNames asciiCase header).Nodup) (ctx : ToolCtx) :
    ∃ plan out b', LoadCsvTool.plan asciiCase plainCsv "t" false text.toUTF8 = .ok plan ∧
      plan = ⟨"load_csv", "t", columnNames asciiCase header, records.map (csvRow header.length),
        false⟩ ∧
      LoadTool.run (freshTables store fun _ => none) false (.ok plan) ctx noTables = (.ok out, b') ∧
      b'.cur.db "\"t\"" = some (plan.staged store) := by
  have hplan := plainCsv_plan "t" text htext hne
  obtain ⟨plan, hp⟩ : ∃ plan : LoadPlan, plan = ⟨"load_csv", "t", columnNames asciiCase header,
    records.map (csvRow header.length), false⟩ := ⟨_, rfl⟩
  rw [← hp] at hplan
  have hquoted : quoteTable plan.table plan.tool = .ok "\"t\"" := by
    rw [hp]
    exact quoteTable_t
  have hcolumns : plan.columns = columnNames asciiCase header := by rw [hp]
  obtain ⟨out, b', hrun⟩ := freshLoad_accepts hquoted (hcolumns.symm ▸ hnodup) ctx noTables
  obtain ⟨-, hdb⟩ := freshLoad_accepted hquoted rfl hrun
  exact ⟨plan, out, b', hplan, hp, hrun, by rw [hdb, Function.update_self]⟩

/-- The table a plain file is loaded into. -/
theorem plainCsv_loaded (text : String) (header : List String) (records : List (List String))
    (htext : (Text.lines text).map (Text.splitChar ',') = header :: records) (hne : header ≠ [])
    (hnodup : (columnNames asciiCase header).Nodup) (ctx : ToolCtx) :
    CsvLoaded asciiCase plainCsv "t" false text.toUTF8 ctx noTables
      ⟨(columnNames asciiCase header).map fun c => (c, none), records.map (csvRow header.length)⟩ := by
  obtain ⟨plan, out, b', hplan, heq, hrun, hdb⟩ := plainCsv_run textStore text htext hne hnodup ctx
  refine ⟨plan, "\"t\"", out, b', hplan, quoteTable_t, rfl, hrun, ?_⟩
  rw [hdb, heq, staged_textStore]
  intro row hrow
  obtain ⟨record, -, rfl⟩ := List.mem_map.mp hrow
  rw [length_csvRow]
  exact List.length_mapIdx.symm

/-- A plain file is read back. -/
theorem plainCsv_readsBack {header : List String} {records : List (List String)}
    (h : (Text.lines (String.join ((header :: records).map fun record =>
      ",".intercalate record ++ "\n"))).map (Text.splitChar ',') = header :: records) :
    plainCsv.ReadsBack header records := by
  refine ⟨_, rfl, ?_, ?_⟩
  · show Except.ok ((plainRecords _).headD []) = _
    rw [plainRecords_toUTF8, h]
    rfl
  · show (plainRecords _).tail.map _ = _
    rw [plainRecords_toUTF8, h]
    rfl

/-- Two columns that come back in the other order, with an empty cell and white space. -/
theorem sorted_columns_reloaded :
    let t : StagedTable := ⟨[("b", none), ("a", none)],
      [[some "1", none], [some "x", some "2"]]⟩
    let ctx : ToolCtx := ⟨⟨0⟩, none, none⟩
    CsvLoaded asciiCase plainCsv "t" false "b,a\n1,\n x ,2\n".toUTF8 ctx noTables t ∧
      ∃ bytes' t', exportBytes (.ok t.selectAll) plainCsv.write = some bytes' ∧
        CsvLoaded asciiCase plainCsv "t" false bytes' ctx noTables t' ∧ SameContent t t' := by
  intro t ctx
  have hload : CsvLoaded asciiCase plainCsv "t" false "b,a\n1,\n x ,2\n".toUTF8 ctx noTables t := by
    have h := plainCsv_loaded "b,a\n1,\n x ,2\n" ["b", "a"] [["1", ""], [" x ", "2"]]
      (by decide +kernel) (by decide) (by decide +kernel) ctx
    have ht : (⟨(columnNames asciiCase ["b", "a"]).map fun c => (c, none),
        [["1", ""], [" x ", "2"]].map (csvRow 2)⟩ : StagedTable) = t := by decide +kernel
    exact ht ▸ h
  refine ⟨hload, ?_⟩
  have hcolumns : exportColumns t.selectAll = ["a", "b"] := by decide +kernel
  have hrecords : exportRecords t.selectAll = [["", "1"], ["2", "x"]] := by decide +kernel
  have hcsv : plainCsv.ReadsBack (exportColumns t.selectAll) (exportRecords t.selectAll) := by
    rw [hcolumns, hrecords]
    exact plainCsv_readsBack (by decide +kernel)
  exact (export_load_iff hload (by decide) (by decide) hcsv quoteTable_t rfl false ctx).mpr
    (by decide +kernel)

/-- A column name of 63 characters, and one underscore at its end. -/
def cutName : String := String.ofList (List.replicate 62 'a') ++ "_"

/-- A header of two words that is cut behind the underscore loses it on the way back. -/
theorem cut_column_renamed :
    let t : StagedTable := ⟨[(cutName, none)], [[some "1"]]⟩
    let ctx : ToolCtx := ⟨⟨0⟩, none, none⟩
    let text := String.ofList (List.replicate 62 'a') ++ " b\n1\n"
    CsvLoaded asciiCase plainCsv "t" false text.toUTF8 ctx noTables t ∧
      ¬ ∃ bytes' t', exportBytes (.ok t.selectAll) plainCsv.write = some bytes' ∧
        CsvLoaded asciiCase plainCsv "t" false bytes' ctx noTables t' ∧ SameContent t t' := by
  intro t ctx text
  let header := String.ofList (List.replicate 62 'a') ++ " b"
  refine ⟨?_, ?_⟩
  · have h := plainCsv_loaded text [header] [["1"]] (by decide +kernel) (by decide)
      (by decide +kernel) ctx
    have ht : (⟨(columnNames asciiCase [header]).map fun c => (c, none),
        [["1"]].map (csvRow 1)⟩ : StagedTable) = t := by decide +kernel
    exact ht ▸ h
  · rintro ⟨bytes', t', hbytes, hload', hsame⟩
    have hexport : exportBytes (.ok t.selectAll) plainCsv.write =
        some (String.join ([[cutName], ["1"]].map fun record =>
          ",".intercalate record ++ "\n")).toUTF8 := by
      have hcolumns : exportColumns t.selectAll = [cutName] := by decide +kernel
      have hrecords : exportRecords t.selectAll = [["1"]] := by decide +kernel
      show (plainCsv.write (exportColumns t.selectAll :: exportRecords t.selectAll)).toOption = _
      rw [hcolumns, hrecords]
      rfl
    obtain rfl := Option.some.inj (hexport.symm.trans hbytes)
    obtain ⟨-, plan, hplan, hstaged⟩ := hload'.table
    have htext : (Text.lines (String.join ([[cutName], ["1"]].map fun record =>
        ",".intercalate record ++ "\n"))).map (Text.splitChar ',') = [cutName] :: [["1"]] := by
      decide +kernel
    rw [plainCsv_plan "t" _ htext (by decide)] at hplan
    obtain rfl := Except.ok.inj hplan
    have hmem := (hsame.names cutName).mp (by decide +kernel)
    rw [hstaged, names_mk] at hmem
    exact absurd hmem (by decide +kernel)

end PgSynapse
