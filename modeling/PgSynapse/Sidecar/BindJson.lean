import PgSynapse.Pgrx.BindArgs

/-!
# Bind parameters in the sidecar

`classify_param` and `bind_json` (`db.rs`): the Postgres value that a JSON parameter is bound as.
-/

namespace PgSynapse

namespace Sidecar

variable (D : Doubles)

/-- `Bound`. -/
inductive Bound where
  | null
  | bool (b : Bool)
  | int (i : Int)
  | float (x : D.F)
  | text (s : String)

/-- `Number::as_i64`. -/
def asI64 : Number → Option Int
  | .int i => if -2 ^ 63 ≤ i ∧ i < 2 ^ 63 then some i else none
  | .float _ => none

/-- `Number::as_f64`, of a number that is no `i64`. -/
def asF64 : Number → D.F
  | .int i => D.ofNat i.toNat
  | .float f => D.ofF64 f

/-- `classify_param`. -/
def classifyParam : Value → Bound D
  | .null => .null
  | .bool b => .bool b
  | .number n =>
    match asI64 n with
    | some i => .int i
    | none => .float (asF64 D n)
  | .string s =>
    match parseI64 s with
    | some i => .int i
    | none =>
      match D.parse s with
      | some x => if D.isFinite x then .float x else .text s
      | none => .text s
  -- an object or an array is bound as the text of its JSON
  | .array items => .text (Value.array items).toText
  | .object fields => .text (Value.object fields).toText

/-- `bind_json`: `sqlx` binds an `i64` as `int8`, an `f64` as `float8`, a `String` as `text` and a
missing one as a `text` that is `NULL`. -/
def bindJson (v : Value) : Datum D.F :=
  match classifyParam D v with
  | .null => .nullText
  | .bool b => .bool b
  | .int i => .int8 i
  | .float x => .float8 x
  | .text s => .text s

end Sidecar

end PgSynapse
