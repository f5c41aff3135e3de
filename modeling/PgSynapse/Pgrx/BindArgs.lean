import PgSynapse.Serde.Value
import Mathlib.Algebra.Ring.Int.Defs
import Mathlib.Algebra.Ring.Nat

/-!
# Bind parameters

`json_to_datum`: the Postgres value that a JSON parameter is bound as, and the text a column of type
`text` gets of it by an assignment cast.  Doubles are given by the functions of `f64` and `float8`
that are used, and so is the output form of `jsonb`.
-/

namespace PgSynapse

/-- Doubles, with the texts of Rust and Postgres for them, and the text of a `jsonb`. -/
structure Doubles where
  F : Type
  parse : String → Option F
  isFinite : F → Bool
  ofNat : Nat → F
  ofF64 : F64 → F
  float8Out : F → String
  jsonbOut : Value → String

/-- The digits of `i64::from_str`. -/
def parseDigits (cs : List Char) : Option Nat :=
  if !cs.isEmpty && cs.all Char.isDigit then some (Nat.ofDigitChars 10 cs 0) else none

/-- `str::parse::<i64>`. -/
def parseI64 (s : String) : Option Int :=
  match s.toList with
  | '-' :: digits => (parseDigits digits).bind fun n => if n ≤ 2 ^ 63 then some (-n) else none
  | '+' :: digits => (parseDigits digits).bind fun n => if n < 2 ^ 63 then some n else none
  | digits => (parseDigits digits).bind fun n => if n < 2 ^ 63 then some n else none

/-- `DatumWithOid`: a value with its type. -/
inductive Datum (F : Type) where
  | int8 (i : Int)
  | float8 (x : F)
  | bool (b : Bool)
  | text (s : String)
  | nullText
  | jsonb (v : Value)

variable (D : Doubles)

/-- `json_to_datum`. -/
def jsonToDatum : Value → Datum D.F
  | .string s =>
    match parseI64 s with
    | some i => .int8 i
    | none =>
      match D.parse s with
      | some x => if D.isFinite x then .float8 x else .text s
      | none => .text s
  | .bool b => .bool b
  | .number (.int i) =>
    -- a `u64` that is no `i64` goes through `f64`
    if -2 ^ 63 ≤ i ∧ i < 2 ^ 63 then .int8 i else .float8 (D.ofNat i.toNat)
  | .number (.float f) => .float8 (D.ofF64 f)
  | .null => .nullText
  | .array items => .jsonb (.array items)
  | .object fields => .jsonb (.object fields)

/-- `bind_args`. -/
def bindArgs (params : List Value) : List (Datum D.F) := params.map (jsonToDatum D)

/-- `int8out`. -/
def int8Out (i : Int) : String := if i < 0 then "-" ++ toString i.natAbs else toString i.natAbs

/-- The text a `text` column is assigned. -/
def assignText : Datum D.F → Option String
  | .int8 i => some (int8Out i)
  | .float8 x => some (D.float8Out x)
  | .bool true => some "true"
  | .bool false => some "false"
  | .text s => some s
  | .nullText => none
  | .jsonb v => some (D.jsonbOut v)

end PgSynapse
