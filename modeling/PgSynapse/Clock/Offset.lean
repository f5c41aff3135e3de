import PgSynapse.Lib.ByteSlices
import PgSynapse.Pgrx.BindArgs
import PgSynapse.Std.Text

/-!
# Fixed offsets of the clock tool

`parse_fixed_offset` (`pg-synapse-tools-clock/src/lib.rs`).  Machine integers are integers that are
checked against the range of an `i32` after every operation.
-/

namespace PgSynapse

namespace Clock

/-- How the parser stops without a value. -/
inductive Fault where
  | charBoundary
  | overflow
  deriving DecidableEq, Repr

/-- `chrono::FixedOffset`: less than a day either way. -/
structure FixedOffset where
  secs : Int
  low : -86400 < secs
  high : secs < 86400
  deriving DecidableEq, Repr

/-- `FixedOffset::east_opt`. -/
def eastOpt (secs : Int) : Option FixedOffset :=
  if h : -86400 < secs ∧ secs < 86400 then some ⟨secs, h.1, h.2⟩ else none

/-- A value of an `i32`. -/
def InI32 (i : Int) : Prop := -2 ^ 31 ≤ i ∧ i < 2 ^ 31

instance : DecidablePred InI32 := fun i =>
  inferInstanceAs (Decidable (-2 ^ 31 ≤ i ∧ i < 2 ^ 31))

/-- The digits and their sign. -/
def parseSigned : List Char → Option Int
  | '-' :: digits => (parseDigits digits).map fun n => -n
  | '+' :: digits => (parseDigits digits).map fun n => n
  | digits => (parseDigits digits).map fun n => n

/-- `str::parse::<i32>`. -/
def parseI32 (s : List Char) : Option Int :=
  (parseSigned s).bind fun i => if InI32 i then some i else none

/-- The value of an operation on `i32`.  A debug build panics where the value is out of range; a
release build goes on with the wrong value. -/
def checkI32 (i : Int) : Except Fault Int := if InI32 i then .ok i else .error .overflow

/-- `sign * (hours * 3600 + minutes * 60)`. -/
def totalSeconds (sign hours minutes : Int) : Except Fault Int := do
  let h ← checkI32 (hours * 3600)
  let m ← checkI32 (minutes * 60)
  let t ← checkI32 (h + m)
  checkI32 (sign * t)

/-- `str::split_at`. -/
def splitAt (s : List Char) (mid : Nat) : Except Fault (List Char × List Char) :=
  match sliceTo s mid, sliceFrom s mid with
  | some a, some b => .ok (a, b)
  | _, _ => .error .charBoundary

/-- `str::splitn(2, c)`. -/
def splitn2 (c : Char) (s : List Char) : List (List Char) :=
  match splitOnce [c] s with
  | some (a, b) => [a, b]
  | none => [s]

/-- The sign of the offset. -/
def signOf (signChar : List Char) : Option Int :=
  if signChar = ['+'] then some 1 else if signChar = ['-'] then some (-1) else none

/-- `parse_fixed_offset`. -/
def parseFixedOffset (s : String) : Except Fault (Option FixedOffset) := do
  let s := (Text.trim s).toList
  if byteLen s < 6 then
    return none
  let (signChar, rest) ← splitAt s 1
  match signOf signChar with
  | none => return none
  | some sign =>
    let parts := splitn2 ':' rest
    match parts[0]?.bind parseI32, parts[1]?.bind parseI32 with
    | some hours, some minutes => return eastOpt (← totalSeconds sign hours minutes)
    | _, _ => return none

end Clock

end PgSynapse
