import PgSynapse.Pgrx.ToJsonb

/-!
# `SqlxSqlExecutor::query`: rows as JSON in the sidecar

A translation of `try_decode_column` and `rows_to_json` (`db.rs`): each column is read as one Rust
type after the other.  A read succeeds for the column types `sqlx` declares compatible with the Rust
type, on the values that type has.
-/

namespace PgSynapse

/-- The Rust types the sidecar asks for. -/
inductive SqlxType where
  | json
  | bool
  | i64
  | i32
  | f64
  | bigDecimal
  | uuid
  | dateTimeUtc
  | string
  deriving DecidableEq, Repr

/-- `Type::compatible`. -/
def SqlxType.compatible : SqlxType → PgType → Bool
  | .json, .json | .json, .jsonb => true
  | .bool, .bool => true
  | .i64, .int8 => true
  | .i32, .int4 => true
  | .f64, .float8 => true
  | .bigDecimal, .numeric => true
  | .uuid, .uuid => true
  | .dateTimeUtc, .timestamptz => true
  | .string, .text | .string, .varchar | .string, .bpchar | .string, .name | .string, .citext
  | .string, .unknown => true
  | _, _ => false

namespace PgValue

variable (F : SqlFormats)

/-- A value read as `Json<Value>`. -/
def asJson : PgValue → Option Value
  | .json doc => F.readJson doc
  | _ => none

/-- A value read as `bool`. -/
def asBool : PgValue → Option Bool
  | .bool b => some b
  | _ => none

/-- A value read as `i64` or `i32`. -/
def asInt : PgValue → Option Int
  | .int i => some i
  | _ => none

/-- A value read as `f64`. -/
def asFloat : PgValue → Option (Extended F64)
  | .float f => some f
  | _ => none

/-- A value read as `BigDecimal`, which has no `NaN` and no infinity. -/
def asDecimal : PgValue → Option Rat
  | .numeric (.finite q) => some q
  | _ => none

/-- A value read as `Uuid`. -/
def asUuid : PgValue → Option Uuid
  | .uuid u => some u
  | _ => none

/-- A value read as `DateTime<Utc>`, which has no infinity and ends before Postgres does. -/
def asInstant : PgValue → Option Int
  | .timestamptz (.finite t) => if t ≤ F.maxUtc then some t else none
  | _ => none

/-- A value read as `String`. -/
def asText : PgValue → Option String
  | .text s => some s
  | _ => none

end PgValue

/-- `row.try_get::<T>(name).ok()`: the name stands for the last column that has it, and `NULL` is no
value of any of these types. -/
def tryGet {α : Type} (row : List PgColumn) (name : String) (requested : SqlxType)
    (read : PgValue → Option α) : Option α :=
  (columnNamed row name).bind fun c =>
    if requested.compatible c.type.reported then c.value.bind read else none

/-- `json!` of an `f64`: what JSON has no number for becomes null. -/
def jsonFloat : Extended F64 → Value
  | .finite f => .number (.float f)
  | _ => .null

/-- A decimal as the JSON its text is, or as that text. -/
def jsonDecimal (F : SqlFormats) (q : Rat) : Value :=
  (F.readJson (F.decimalText q)).getD (.string (F.decimalText q))

/-- `try_decode_column`: the types are tried in order, and a column of none of them is null. -/
def tryDecodeColumn (F : SqlFormats) (row : List PgColumn) (name : String) : Value :=
  (tryGet row name .json (PgValue.asJson F)
    <|> (tryGet row name .bool PgValue.asBool).map Value.bool
    <|> (tryGet row name .i64 PgValue.asInt).map (fun i => Value.number (.int i))
    <|> (tryGet row name .i32 PgValue.asInt).map (fun i => Value.number (.int i))
    <|> (tryGet row name .f64 PgValue.asFloat).map jsonFloat
    <|> (tryGet row name .bigDecimal PgValue.asDecimal).map (jsonDecimal F)
    <|> (tryGet row name .uuid PgValue.asUuid).map (fun u => Value.string u.text)
    <|> (tryGet row name .dateTimeUtc (PgValue.asInstant F)).map
      (fun t => Value.string (F.rfc3339 t))
    <|> (tryGet row name .string PgValue.asText).map Value.string).getD .null

/-- One row of `rows_to_json`. -/
def rowToJson (F : SqlFormats) (row : List PgColumn) : Value :=
  .obj (row.map fun c => (c.name, tryDecodeColumn F row c.name))

/-- `rows_to_json`. -/
def rowsToJson (F : SqlFormats) (rows : List (List PgColumn)) : List Value :=
  rows.map (rowToJson F)

end PgSynapse
