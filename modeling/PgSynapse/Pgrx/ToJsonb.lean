import Mathlib.Data.Rat.Defs
import PgSynapse.Pgrx.SpiExecutor
import PgSynapse.Types.Profile

/-!
# Query results and `to_jsonb`

The values a query returns, and what the statement `SpiSqlExecutor::query` wraps it in makes of
them.  What Postgres and the crates do with a value is given by `SqlFormats`, with what they
document of it.
-/

namespace PgSynapse

/-! ### Query results -/

/-- A column type.  `other` is any type the code does not name. -/
inductive PgType where
  | bool
  | int2
  | int4
  | int8
  | float4
  | float8
  | numeric
  | text
  | varchar
  | bpchar
  | name
  | citext
  | unknown
  | json
  | jsonb
  | uuid
  | timestamptz
  | domain (name : String) (base : PgType)
  | array (elem : PgType)
  | enum (name : String)
  | other (name : String)
  deriving DecidableEq, Repr

/-- The type a row description reports: a domain is reported as its base type. -/
def PgType.reported : PgType → PgType
  | .domain _ base => base.reported
  | t => t

/-- A `jsonb` value, as `serde_json` reads it; `none` when it does not (a number beyond the doubles,
a nesting too deep). -/
abbrev Jsonb := Option Value

/-- A value that is not `NULL`.  A document is its text, a timestamp is in microseconds, and a value
of a type that is not named is what `to_jsonb` makes of it, if it does not fail. -/
inductive PgValue where
  | json (text : String)
  | bool (b : Bool)
  | int (i : Int)
  | float (f : Extended F64)
  | numeric (q : Extended Rat)
  | uuid (u : Uuid)
  | timestamptz (t : Extended Int)
  | text (s : String)
  | other (shown : Option Jsonb)
  deriving DecidableEq

/-- The values of a type. -/
def PgValue.Fits : PgType → PgValue → Prop
  | .domain _ base, x => Fits base x
  | .bool, .bool _ => True
  | .int2, .int i => -2 ^ 15 ≤ i ∧ i < 2 ^ 15
  | .int4, .int i => -2 ^ 31 ≤ i ∧ i < 2 ^ 31
  | .int8, .int i => -2 ^ 63 ≤ i ∧ i < 2 ^ 63
  | .float4, .float _ => True
  | .float8, .float _ => True
  | .numeric, .numeric _ => True
  | .text, .text _ => True
  | .varchar, .text _ => True
  | .bpchar, .text _ => True
  | .name, .text _ => True
  | .citext, .text _ => True
  | .unknown, .text _ => True
  | .json, .json _ => True
  | .jsonb, .json _ => True
  | .uuid, .uuid _ => True
  | .timestamptz, .timestamptz _ => True
  -- `to_jsonb` makes JSON null of no value of these
  | .array _, .other shown => shown ≠ some (some .null)
  | .enum _, .other shown => shown ≠ some (some .null)
  | .other _, .other shown => shown ≠ some (some .null)
  | _, _ => False

/-- A column of a row; `none` is `NULL`. -/
structure PgColumn where
  name : String
  type : PgType
  value : Option PgValue
  fits : ∀ x, value = some x → x.Fits type

/-- The result of a query: its columns, and its rows. -/
structure QueryResult where
  columns : List (String × PgType)
  rows : List (List PgColumn)
  shape : ∀ row ∈ rows, row.map (fun c => (c.name, c.type)) = columns

/-- The last column of a name. -/
def columnNamed (row : List PgColumn) (name : String) : Option PgColumn :=
  row.reverse.find? fun c => c.name == name

/-! ### Information -/

/-- How a reader takes what a JSON value stands for. -/
structure Readers where
  /-- Two ways to write one number, to the precision of a double. -/
  sameNumber : Number → Number → Prop
  /-- The instant a timestamp's text denotes, in microseconds. -/
  instantOf : String → Option Int

/-- **The same information**: the same JSON, up to the way a number is written and to the offset
from UTC an instant is written with. -/
inductive SameInfo (R : Readers) : Value → Value → Prop where
  | refl (v : Value) : SameInfo R v v
  | number {n m : Number} (h : R.sameNumber n m) : SameInfo R (.number n) (.number m)
  | instant {s s' : String} {t : Int} (h : R.instantOf s = some t) (h' : R.instantOf s' = some t) :
      SameInfo R (.string s) (.string s')
  | array {vs vs' : List Value} (hlength : vs.length = vs'.length)
      (h : ∀ (i : Nat) v v', vs[i]? = some v → vs'[i]? = some v' → SameInfo R v v') :
      SameInfo R (.array vs) (.array vs')
  | object {fs fs' : List (String × Value)}
      (hkeys : ∀ key, (fs.lookup key).isSome = (fs'.lookup key).isSome)
      (h : ∀ key v v', fs.lookup key = some v → fs'.lookup key = some v' → SameInfo R v v') :
      SameInfo R (.object fs) (.object fs')

/-- What Postgres and the crates behind the hosts do with values. -/
structure SqlFormats extends Readers where
  /-- `serde_json::from_str`. -/
  readJson : String → Option Value
  /-- `to_jsonb` of a document; it fails on an escape Postgres cannot store, such as U+0000. -/
  jsonbDoc : String → Option Jsonb
  jsonbDoc_same : ∀ text doc v, readJson text = some doc → jsonbDoc text = some (some v) →
    SameInfo toReaders doc v
  /-- `BigDecimal::to_string`. -/
  decimalText : Rat → String
  /-- `to_jsonb` of a `numeric`, as `serde_json` reads it. -/
  jsonbNumeric : Rat → Option Number
  decimalText_same : ∀ q m, jsonbNumeric q = some m →
    ∃ n, readJson (decimalText q) = some (.number n) ∧ sameNumber n m
  /-- `to_jsonb` of a `float4` or a `float8`. -/
  jsonbFloat : F64 → Number
  jsonbFloat_same : ∀ f, sameNumber (.float f) (jsonbFloat f)
  /-- `DateTime::<Utc>::MAX_UTC`, which is before the last `timestamptz`. -/
  maxUtc : Int
  /-- `DateTime<Utc>::to_rfc3339`. -/
  rfc3339 : Int → String
  rfc3339_reads : ∀ t, instantOf (rfc3339 t) = some t
  /-- `to_jsonb` of a timestamp, in the time zone of the session. -/
  jsonbTimestamp : Int → String
  jsonbTimestamp_reads : ∀ t, instantOf (jsonbTimestamp t) = some t
  /-- The text of the error `to_jsonb` raises. -/
  jsonbError : String
  /-- The text of the error of reading a `jsonb` that is no `serde_json::Value`. -/
  readError : String

/-! ### `to_jsonb` -/

/-- `to_jsonb` of a value that is not `NULL`. -/
def PgValue.toJsonb (F : SqlFormats) : PgValue → Option Jsonb
  | .json doc => F.jsonbDoc doc
  | .bool b => some (some (.bool b))
  | .int i => some (some (.number (.int i)))
  | .float (.finite f) => some (some (.number (F.jsonbFloat f)))
  | .float f => some (some (.string f.specialText))
  | .numeric (.finite q) => some ((F.jsonbNumeric q).map .number)
  | .numeric q => some (some (.string q.specialText))
  | .uuid u => some (some (.string u.text))
  | .timestamptz (.finite t) => some (some (.string (F.jsonbTimestamp t)))
  | .timestamptz (.infinity true) => some (some (.string "-infinity"))
  | .timestamptz _ => some (some (.string "infinity"))
  | .text s => some (some (.string s))
  | .other shown => shown

/-- What a column becomes in the object of its row. -/
def PgColumn.toJsonb (F : SqlFormats) (c : PgColumn) : Option Jsonb :=
  match c.value with
  | none => some (some .null)
  | some x => x.toJsonb F

/-- Of the members with one name, a `jsonb` object keeps the last. -/
def lastMembers {α : Type} : List (String × α) → List (String × α)
  | [] => []
  | m :: rest => if rest.any (fun l => l.1 == m.1) then lastMembers rest else m :: lastMembers rest

/-- A `jsonb` object read by `serde_json`, which reads all of its members or nothing. -/
def readMembers (members : List (String × Jsonb)) : Jsonb :=
  (members.mapM fun (m : String × Jsonb) => m.2.map fun v => (m.1, v)).map Value.obj

/-- The cell `to_jsonb(t)` makes of a row of the subquery `t`; `some none` is `NULL`.  A column that
is itself called `t` is found before the row. -/
def jsonbCell (F : SqlFormats) (row : List PgColumn) : Option (Option Jsonb) :=
  match columnNamed row "t" with
  | none =>
    (row.mapM fun (c : PgColumn) => (c.toJsonb F).map fun doc => (c.name, doc)).map fun members =>
      some (readMembers (lastMembers members))
  | some c =>
    match c.value with
    | none => some none
    | some x => (x.toJsonb F).map some

/-- `row.get::<JsonB>(1)`. -/
def readCell (F : SqlFormats) : Option Jsonb → Except String (Option Value)
  | none => .ok none
  | some (some v) => .ok (some v)
  | some none => .error F.readError

/-- `SELECT to_jsonb(t) FROM (...) t`, where the statement in parentheses has this result. -/
def jsonbTable (F : SqlFormats) (result : QueryResult) : SpiOutcome :=
  if 1 < result.columns.countP fun c => c.1 == "t" then
    .raised "column reference \"t\" is ambiguous"
  else
    match result.rows.mapM (jsonbCell F) with
    | some cells => .table (cells.map (readCell F)) cells.length
    | none => .raised F.jsonbError

end PgSynapse
