import Mathlib.Data.List.Basic

/-!
# The admin token of the sidecar

`constant_time_eq` and `check_admin_token` (`pg-synapse-sidecar/src/api.rs`).  A byte string is a list
of bytes, and so is a `&str`.
-/

namespace PgSynapse

namespace Sidecar

/-- The bytes of a `String`. -/
def bytesOf (s : String) : List UInt8 := s.toUTF8.toList

/-- `a.get(i).copied().unwrap_or(0)`. -/
def byteAt (a : List UInt8) (i : Nat) : UInt8 := a[i]?.getD 0

/-- `constant_time_eq`. -/
def constantTimeEq (a b : List UInt8) : Bool :=
  -- the difference of the lengths is cut to a byte
  let diff := UInt8.ofNat (a.length ^^^ b.length)
  (List.range (max a.length b.length)).foldl
    (fun diff i => diff ||| (byteAt a i ^^^ byteAt b i)) diff == 0

/-- A byte that `http` takes in a header value. -/
def isHeaderByte (b : UInt8) : Bool := b ≥ 32 && b != 127 || b == 9

/-- `HeaderValue`. -/
structure HeaderValue where
  bytes : List UInt8
  valid : ∀ b ∈ bytes, isHeaderByte b = true

/-- A byte of a header value that `to_str` takes: visible ASCII. -/
def isVisibleAscii (b : UInt8) : Bool := b ≥ 32 && b < 127 || b == 9

/-- `HeaderValue::to_str`, `none` for the error. -/
def HeaderValue.toStr (v : HeaderValue) : Option (List UInt8) :=
  if v.bytes.all isVisibleAscii then some v.bytes else none

/-- `HeaderMap`: the values by lowercase name, in order. -/
abbrev HeaderMap := List (String × HeaderValue)

/-- The name of the header. -/
def adminTokenHeader : String := "x-pg-synapse-admin-token"

/-- `err_json`: a status code and the message. -/
structure ErrJson where
  status : Nat
  error : String
  deriving DecidableEq, Repr

/-- What a request provides as its token: a missing header and one that is not visible ASCII count as
the empty text. -/
def providedToken (headers : HeaderMap) : List UInt8 :=
  ((headers.lookup adminTokenHeader).bind HeaderValue.toStr).getD []

/-- `check_admin_token`, on the token of the state. -/
def checkAdminToken (headers : HeaderMap) (adminToken : Option String) : Except ErrJson Unit :=
  match adminToken with
  | none => .error ⟨503, "admin endpoints are disabled: start sidecar with --admin-token"⟩
  | some token =>
    if constantTimeEq (providedToken headers) (bytesOf token) then .ok ()
    else .error ⟨401, "invalid or missing X-PG-Synapse-Admin-Token"⟩

end Sidecar

end PgSynapse
