import Mathlib.Algebra.Ring.Int.Defs
import Mathlib.Algebra.Ring.Nat
import Mathlib.Data.List.Basic

/-!
# The audit capability

The tokens of the runs in flight on a backend (`audit_capability.rs`), and the check that
`synapse.audit_run` and `synapse.audit_status` make before they write (`sql_functions.rs`).
-/

namespace PgSynapse

/-- A token, a `u128`. -/
abbrev Token := BitVec 128

/-! ### Grants -/

/-- What happens to the grants of a backend: `AuditGrant::mint` with the token drawn, and the drop of
the grant with a token. -/
inductive GrantEvent where
  | mint (token : Token)
  | drop (token : Token)
  deriving DecidableEq, Repr

/-- The list `LIVE` after an event. -/
def GrantEvent.apply (live : List Token) : GrantEvent → List Token
  | mint token => live ++ [token]
  -- retired by value
  | drop token => live.filter fun t => t != token

/-- The list `LIVE` after some events. -/
def liveTokens (events : List GrantEvent) : List Token := events.foldl GrantEvent.apply []

/-- `is_live`. -/
def isLive (live : List Token) (token : Token) : Bool := live.contains token

/-! ### Texts -/

/-- `token_text`: 32 lowercase hexadecimal digits. -/
def tokenText (token : Token) : String :=
  let digits := Nat.toDigits 16 token.toNat
  String.ofList (List.replicate (32 - digits.length) '0' ++ digits)

/-- `char::to_digit(16)`. -/
def toDigit16 (c : Char) : Option Nat :=
  if '0' ≤ c ∧ c ≤ '9' then some (c.toNat - 48)
  else if 'a' ≤ c ∧ c ≤ 'f' then some (c.toNat - 87)
  else if 'A' ≤ c ∧ c ≤ 'F' then some (c.toNat - 55)
  else none

/-- A checked result of `u128` arithmetic. -/
def checkedU128 (n : Nat) : Option Nat := if n < 2 ^ 128 then some n else none

/-- The loop of `u128::from_str_radix` over the digits. -/
def digitLoop : List Char → Nat → Option Nat
  | [], result => some result
  | c :: rest, result => do
    let x ← toDigit16 c
    let result ← checkedU128 (result * 16)
    let result ← checkedU128 (result + x)
    digitLoop rest result

/-- `u128::from_str_radix(s, 16).ok()`. -/
def fromStrRadix16 (s : String) : Option Token :=
  let digits := match s.toList with
    | '+' :: rest => rest
    | all => all
  -- an empty text, and a sign alone
  if digits.isEmpty then none else (digitLoop digits 0).map (BitVec.ofNat 128)

/-! ### The check -/

/-- `check_audit_token`. -/
def checkAuditToken (live : List Token) (token : String) : Except String Unit :=
  if (fromStrRadix16 token).any (isLive live) then .ok ()
  else .error ("audit writes are reachable only from a run in progress; " ++
    "this function cannot be called directly")

variable {σ : Type}

/-- A writer behind the check: `record` is the statement it runs. -/
def auditWriter (name : String) (record : σ → Except String σ) (live : List Token) (token : String)
    (s : σ) : Except String σ := do
  checkAuditToken live token
  (record s).mapError fun e => name ++ ": " ++ e

/-- `synapse.audit_run`. -/
def auditRun (recordRun : σ → Except String σ) : List Token → String → σ → Except String σ :=
  auditWriter "audit_run" recordRun

/-- `synapse.audit_status`. -/
def auditStatus (recordStatus : σ → Except String σ) : List Token → String → σ → Except String σ :=
  auditWriter "audit_status" recordStatus

end PgSynapse
