import PgSynapse.Pgrx.AuditCapability
import PgSynapse.Types.Message

/-!
# `uuid_in`

How Postgres reads a `uuid` from its text.
-/

namespace PgSynapse

/-- The bytes of a `uuid` that are left to read: two digits each, and after every second byte a hyphen
if there is one. -/
def Uuid.readBytes : Nat → List Char → Nat → Option (Nat × List Char)
  | 0, cs, acc => some (acc, cs)
  | left + 1, a :: b :: cs, acc => do
    let high ← toDigit16 a
    let low ← toDigit16 b
    let cs := if cs.head? = some '-' ∧ left % 2 = 0 ∧ left ≠ 0 then cs.tail else cs
    readBytes left cs (acc * 256 + (high * 16 + low))
  | _, _, _ => none

/-- `uuid_in`. -/
def Uuid.read (s : String) : Option Uuid := do
  let braces := s.toList.head? = some '\x7b'
  let (n, rest) ← readBytes 16 (if braces then s.toList.tail else s.toList) 0
  if rest = if braces then ['\x7d'] else [] then some ⟨BitVec.ofNat 128 n⟩ else none

end PgSynapse
