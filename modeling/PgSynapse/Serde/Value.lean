import Mathlib.Data.List.Basic
import Mathlib.Data.List.Induction

/-!
# `serde_json::Value`

JSON values as the kernel holds them, with the compact printer `serde_json::to_string`.

A number is an integer (`u64` or `i64` in the source) or a finite `f64`.  An `f64` is given by the
shortest decimal that reads back as it, which is the form `serde_json` prints, so printing needs no
floating point; `-0.0` and `0.0` compare equal in the source and are one value here.

An object is a `BTreeMap` in the source (no crate of the workspace turns `preserve_order` on), so
the fields of an object stand in key order; `Value.obj` inserts them one by one, as the `json!`
macro does.
-/

namespace PgSynapse

/-- A finite `f64`: `± digits · 10^exp`, the shortest decimal that reads back as it. -/
structure F64 where
  neg : Bool
  digits : Nat
  exp : Int
  deriving DecidableEq, Repr

/-- `serde_json::Number`. -/
inductive Number where
  | int (i : Int)
  | float (f : F64)
  deriving DecidableEq, Repr

/-- `serde_json::Value`. -/
inductive Value where
  | null
  | bool (b : Bool)
  | number (n : Number)
  | string (s : String)
  | array (items : List Value)
  | object (fields : List (String × Value))
  deriving Repr, Inhabited

namespace Value

/-! ### Equality -/

mutual

/-- `PartialEq` on values. -/
def beq : Value → Value → Bool
  | .null, .null => true
  | .bool a, .bool b => a == b
  | .number a, .number b => a == b
  | .string a, .string b => a == b
  | .array as, .array bs => beqItems as bs
  | .object as, .object bs => beqFields as bs
  | _, _ => false

/-- Element by element comparison of two arrays. -/
def beqItems : List Value → List Value → Bool
  | [], [] => true
  | a :: as, b :: bs => beq a b && beqItems as bs
  | _, _ => false

/-- Field by field comparison of two objects. -/
def beqFields : List (String × Value) → List (String × Value) → Bool
  | [], [] => true
  | (k, a) :: as, (l, b) :: bs => k == l && beq a b && beqFields as bs
  | _, _ => false

end

mutual

theorem beq_iff_eq : ∀ a b : Value, beq a b = true ↔ a = b
  | .null, b => by cases b <;> simp [beq]
  | .bool _, b => by cases b <;> simp [beq]
  | .number _, b => by cases b <;> simp [beq]
  | .string _, b => by cases b <;> simp [beq]
  | .array as, b => by
    cases b with
    | array bs => simp [beq, beqItems_iff_eq as bs]
    | _ => simp [beq]
  | .object as, b => by
    cases b with
    | object bs => simp [beq, beqFields_iff_eq as bs]
    | _ => simp [beq]

theorem beqItems_iff_eq : ∀ as bs : List Value, beqItems as bs = true ↔ as = bs
  | [], bs => by cases bs <;> simp [beqItems]
  | a :: as, bs => by
    cases bs with
    | nil => simp [beqItems]
    | cons b bs => simp [beqItems, beq_iff_eq a b, beqItems_iff_eq as bs]

theorem beqFields_iff_eq : ∀ as bs : List (String × Value), beqFields as bs = true ↔ as = bs
  | [], bs => by cases bs <;> simp [beqFields]
  | (k, a) :: as, bs => by
    cases bs with
    | nil => simp [beqFields]
    | cons b bs =>
      obtain ⟨l, b⟩ := b
      simp [beqFields, beq_iff_eq a b, beqFields_iff_eq as bs, and_assoc]

end

instance : DecidableEq Value := fun a b => decidable_of_iff _ (beq_iff_eq a b)

/-! ### Access -/

/-- `Map::insert`: replaces the value of `key`, or adds it in key order. -/
def insertField (key : String) (v : Value) : List (String × Value) → List (String × Value)
  | [] => [(key, v)]
  | (k, w) :: rest =>
    if key = k then (key, v) :: rest
    else if key < k then (key, v) :: (k, w) :: rest
    else (k, w) :: insertField key v rest

/-- The object the `json!` macro builds: its members inserted in the order written. -/
def obj (fields : List (String × Value)) : Value :=
  .object (fields.foldl (fun acc kv => insertField kv.1 kv.2 acc) [])

/-- `value.get(key)`. -/
def get? (v : Value) (key : String) : Option Value :=
  match v with
  | .object fields => fields.lookup key
  | _ => none

/-- `value.as_str()`. -/
def asStr? : Value → Option String
  | .string s => some s
  | _ => none

/-- `value.as_array()`. -/
def asArray? : Value → Option (List Value)
  | .array items => some items
  | _ => none

/-- `value[key] = v` on an object. -/
def set (v : Value) (key : String) (w : Value) : Value :=
  match v with
  | .object fields => .object (insertField key w fields)
  | other => other

/-- `json!` of an optional string. -/
def ofOption : Option String → Value
  | some s => .string s
  | none => .null

/-- `json!` of an unsigned integer. -/
def nat (n : Nat) : Value := .number (.int n)

/-! ### Printing -/

/-- The digits of `n` in base ten. -/
def decimal (n : Nat) : List Char := Nat.toDigits 10 n

/-- An `f64` as `serde_json` prints it. -/
def printFloat (f : F64) : List Char :=
  let ds := decimal f.digits
  let len : Int := ds.length
  let point := len + f.exp
  let body :=
    if f.digits = 0 then "0.0".toList
    else if 0 ≤ f.exp ∧ point ≤ 16 then ds ++ List.replicate f.exp.toNat '0' ++ ".0".toList
    else if 0 < point ∧ point ≤ 16 then ds.take point.toNat ++ '.' :: ds.drop point.toNat
    else if -5 < point ∧ point ≤ 0 then
      "0.".toList ++ List.replicate (-point).toNat '0' ++ ds
    else
      let e := (toString (point - 1)).toList
      if ds.length = 1 then ds ++ 'e' :: e else ds.take 1 ++ '.' :: ds.drop 1 ++ 'e' :: e
  if f.neg ∧ f.digits ≠ 0 then '-' :: body else body

/-- A number as `serde_json` prints it. -/
def printNumber : Number → List Char
  | .int i => if i < 0 then '-' :: decimal i.natAbs else decimal i.natAbs
  | .float f => printFloat f

/-- One character inside a JSON string. -/
def escapeChar (c : Char) : List Char :=
  if c = '"' then ['\\', '"']
  else if c = '\\' then ['\\', '\\']
  else if c = '\n' then ['\\', 'n']
  else if c = '\r' then ['\\', 'r']
  else if c = '\t' then ['\\', 't']
  else if c.toNat = 8 then ['\\', 'b']
  else if c.toNat = 12 then ['\\', 'f']
  else if c.toNat < 0x20 then
    ['\\', 'u', '0', '0', Nat.digitChar (c.toNat / 16), Nat.digitChar (c.toNat % 16)]
  else [c]

/-- A JSON string literal. -/
def printString (s : String) : List Char :=
  '"' :: s.toList.flatMap escapeChar ++ ['"']

mutual

/-- Compact output, as characters. -/
def print : Value → List Char
  | .null => "null".toList
  | .bool true => "true".toList
  | .bool false => "false".toList
  | .number n => printNumber n
  | .string s => printString s
  | .array items => '[' :: printItems items ++ [']']
  | .object fields => '\x7b' :: printFields fields ++ ['\x7d']

/-- The elements of an array, separated by commas. -/
def printItems : List Value → List Char
  | [] => []
  | [v] => print v
  | v :: vs => print v ++ ',' :: printItems vs

/-- The members of an object, separated by commas. -/
def printFields : List (String × Value) → List Char
  | [] => []
  | [(k, v)] => printString k ++ ':' :: print v
  | (k, v) :: kvs => printString k ++ ':' :: print v ++ ',' :: printFields kvs

end

/-- `serde_json::to_string(&v)`, which is also `v.to_string()`. -/
def toText (v : Value) : String := String.ofList (print v)

/-- Reading back a member just inserted. -/
theorem lookup_insertField (key : String) (v : Value) (l : String) :
    ∀ fields : List (String × Value),
      (insertField key v fields).lookup l = if l = key then some v else fields.lookup l
  | [] => by
    by_cases h : l = key
    · simp [insertField, h]
    · simp [insertField, h, List.lookup_cons, beq_eq_false_iff_ne.mpr h]
  | (k, w) :: rest => by
    unfold insertField
    by_cases hk : key = k
    · subst hk
      by_cases h : l = key
      · simp [h]
      · simp [h, List.lookup_cons, beq_eq_false_iff_ne.mpr h]
    · by_cases hlt : key < k
      · by_cases h : l = key
        · simp [hk, hlt, h]
        · simp [hk, hlt, h, List.lookup_cons, beq_eq_false_iff_ne.mpr h]
      · rw [if_neg hk, if_neg hlt]
        by_cases hl : l = k
        · subst hl
          simp [Ne.symm hk]
        · rw [List.lookup_cons, List.lookup_cons, beq_eq_false_iff_ne.mpr hl,
            lookup_insertField key v l rest]

/-- **`json!` objects**: a key stands for the last member that has it. -/
theorem get?_obj (fields : List (String × Value)) (key : String) :
    (obj fields).get? key = fields.reverse.lookup key := by
  induction fields using List.reverseRecOn with
  | nil => rfl
  | append_singleton fields m ih =>
    have hlast : (obj (fields ++ [m])).get? key =
        if key = m.1 then some m.2 else (obj fields).get? key := by
      simp only [obj, get?, List.foldl_append, List.foldl_cons, List.foldl_nil,
        lookup_insertField]
    rw [hlast, ih, List.reverse_append, List.reverse_singleton, List.singleton_append]
    by_cases h : key = m.1
    · rw [if_pos h, h, List.lookup_cons_self]
    · rw [if_neg h, List.lookup_cons, beq_eq_false_iff_ne.mpr h]

end Value

end PgSynapse
