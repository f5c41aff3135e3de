import PgSynapse.Pgrx.Equiv.BindArgs
import PgSynapse.Sidecar.BindJson

/-!
# Bind parameters in both hosts

The sidecar and the extension host bind a JSON parameter alike just if it is no array and no object
(`binds_alike_iff`).
-/

namespace PgSynapse

namespace Sidecar

variable (D : Doubles)

/-- A string is read as a number in the same order. -/
theorem bindJson_string (s : String) : bindJson D (.string s) = jsonToDatum D (.string s) := by
  unfold bindJson classifyParam jsonToDatum
  rcases hint : parseI64 s with _ | i
  · rcases hdouble : D.parse s with _ | x
    · simp only [hint, hdouble]
    · cases hfinite : D.isFinite x <;> simp [hint, hdouble, hfinite]
  · simp only [hint]

/-- A number that is no `i64` goes through the same conversion. -/
theorem bindJson_number (n : Number) : bindJson D (.number n) = jsonToDatum D (.number n) := by
  cases n with
  | float f => rfl
  | int i =>
    unfold bindJson classifyParam asI64 jsonToDatum
    by_cases hi : -2 ^ 63 ≤ i ∧ i < 2 ^ 63
    · simp only [if_pos hi]
    · simp only [if_neg hi]
      rfl

/-- A value with parts. -/
def isNested : Value → Bool
  | .array _ | .object _ => true
  | _ => false

/-- **Both hosts bind a parameter alike** just if it is no array and no object. -/
theorem binds_alike_iff (v : Value) : bindJson D v = jsonToDatum D v ↔ isNested v = false := by
  cases v with
  | null => exact iff_of_true rfl rfl
  | bool b => exact iff_of_true rfl rfl
  | number n => exact iff_of_true (bindJson_number D n) rfl
  | string s => exact iff_of_true (bindJson_string D s) rfl
  | array items => exact iff_of_false nofun nofun
  | object fields => exact iff_of_false nofun nofun

/-- An array with one number is a `text` in the sidecar and a `jsonb` in the extension host. -/
theorem array_bound_apart :
    let v : Value := .array [.nat 1]
    bindJson noDoubles v = .text "[1]" ∧ jsonToDatum noDoubles v = .jsonb v ∧
      bindJson noDoubles v ≠ jsonToDatum noDoubles v :=
  ⟨congrArg Datum.text (by decide +kernel), rfl, nofun⟩

end Sidecar

end PgSynapse
