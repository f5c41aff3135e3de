import PgSynapse.Lib.Words
import PgSynapse.LoadFile.StageRows
import PgSynapse.Serde.Value

/-!
# What `load_csv` and `load_json` make of a file

The column names, the rows and the cells, up to the `LoadPlan` that `stage_rows` gets.  The CSV
reader and writer are those of the `csv` crate, the JSON reader that of `serde_json`, and lowercasing
follows the Unicode tables; each is given by its functions.
-/

namespace PgSynapse

/-! ### Columns -/

/-- `str::to_lowercase`: ASCII texts get their ASCII lowercase letters, and no text keeps an ASCII
uppercase letter. -/
structure UnicodeCase where
  toLowercase : String → String
  ascii : ∀ s, (∀ c ∈ s.toList, c.toNat < 128) → toLowercase s = Text.toAsciiLowercase s
  not_upper : ∀ s, ∀ c ∈ (toLowercase s).toList, c.isUpper = false

section Columns

variable (U : UnicodeCase)

/-- `to_column_name`. -/
def toColumnName (raw : String) (index : Nat) : String :=
  let cleaned := (U.toLowercase (Text.trim raw)).toList.foldl (squeezeStep Char.isAlphanum '_') []
  let trimmed := trimMatches '_' cleaned
  if trimmed.isEmpty || !trimmed.head?.any Char.isAlpha then "col_" ++ toString (index + 1)
  else String.ofList (trimmed.take 63)

/-- The column names of a file. -/
def columnNames (headers : List String) : List String :=
  headers.mapIdx fun i h => toColumnName U h i

end Columns

/-! ### CSV -/

/-- The `csv` crate: the header row of a file, the records behind it, and the file of some records. -/
structure Csv where
  headers : ByteArray → Except String (List String)
  records : ByteArray → List (Except String (List String))
  write : List (List String) → Except String ByteArray

/-- A cell of a record. -/
def csvCell (v : String) : Option String :=
  let v := Text.trim v
  if v.isEmpty then none else some v

/-- A record as a row of so many columns: `resize` and `truncate`. -/
def csvRow (columns : Nat) (record : List String) : List (Option String) :=
  let row := record.map csvCell
  (row ++ List.replicate (columns - row.length) none).take columns

/-- `for rec in reader.records()`. -/
def csvRows (columns : Nat) :
    List (Except String (List String)) → Except ToolError (List (List (Option String)))
  | [] => .ok []
  | .error e :: _ => .error (.execution "load_csv" ("malformed row: " ++ e))
  | .ok record :: rest => (csvRows columns rest).map (csvRow columns record :: ·)

/-- `LoadCsvTool::run`, from the bytes it read to the rows it stages. -/
def LoadCsvTool.plan (U : UnicodeCase) (csv : Csv) (table : String) (replace : Bool)
    (bytes : ByteArray) : Except ToolError LoadPlan :=
  match csv.headers bytes with
  | .error e => .error (.execution "load_csv" ("could not read the header row: " ++ e))
  | .ok headers =>
    let columns := columnNames U headers
    if columns.isEmpty then .error (.execution "load_csv" "the file has no header row")
    else (csvRows columns.length (csv.records bytes)).map fun rows =>
      ⟨"load_csv", table, columns, rows, replace⟩

/-! ### JSON -/

/-- `Value::as_object`, with the error of `parse_records`. -/
def asRecord (reason : String) : Value → Except ToolError (List (String × Value))
  | .object fields => .ok fields
  | _ => .error (.execution "load_json" reason)

/-- The records of a file with one object per line, from line number `i + 1` on. -/
def parseLines (fromStr : String → Except String Value) :
    Nat → List String → Except ToolError (List (List (String × Value)))
  | _, [] => .ok []
  | i, line :: rest =>
    let line := Text.trim line
    if line.isEmpty then parseLines fromStr (i + 1) rest
    else match fromStr line with
      | .error e => .error (.execution "load_json"
          ("invalid JSON on line " ++ toString (i + 1) ++ ": " ++ e))
      | .ok v =>
        match asRecord ("line " ++ toString (i + 1) ++ " is not an object") v with
        | .error e => .error e
        | .ok record => (parseLines fromStr (i + 1) rest).map (record :: ·)

/-- `parse_records`. -/
def parseRecords (fromStr : String → Except String Value) (text : String) :
    Except ToolError (List (List (String × Value))) :=
  let trimmed := Text.trimStart text
  if trimmed.toList.head? = some '[' then
    match fromStr trimmed with
    | .error e => .error (.execution "load_json" ("invalid JSON: " ++ e))
    | .ok (.array items) => items.mapM (asRecord "every array element must be an object")
    | .ok _ => .error (.execution "load_json" "expected an array of objects")
  else parseLines fromStr 0 (Text.lines text)

/-- The keys of the records, in first-seen order. -/
def unionKeys (records : List (List (String × Value))) : List String :=
  records.foldl (fun columns record =>
    record.foldl (fun columns field =>
      if columns.contains field.1 then columns else columns ++ [field.1]) columns) []

/-- The text of a value. -/
def jsonCell : Option Value → Option String
  | none => none
  | some .null => none
  | some (.string s) => some s
  | some other => some other.toText

/-- `LoadJsonTool::run`, from the text it read to the rows it stages. -/
def LoadJsonTool.plan (U : UnicodeCase) (fromStr : String → Except String Value) (table : String)
    (replace : Bool) (text : String) : Except ToolError LoadPlan :=
  match parseRecords fromStr text with
  | .error e => .error e
  | .ok records =>
    if records.isEmpty then
      .error (.execution "load_json" "no JSON objects found in the file")
    else
      let columns := unionKeys records
      .ok ⟨"load_json", table, columnNames U columns,
        records.map fun record => columns.map fun k => jsonCell (record.lookup k), replace⟩

end PgSynapse
