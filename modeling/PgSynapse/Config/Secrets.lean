import PgSynapse.Pgrx.Configure
import PgSynapse.Sidecar.Admin

/-!
# One column, two hosts

`synapse.secrets` is written by `synapse.secret_set` of the extension and by `POST /v1/admin/secret`
of the sidecar, and read by `synapse.secret_value`, `synapse.config_secrets` and
`SqlxProfileSource::secrets`.  A history is any sequence of writes, to any names, by either host.
-/

namespace PgSynapse

/-- One write of a secret.  The extension's has the setting `pg_synapse.master_key` of its session
and the salt `pgp_sym_encrypt` draws. -/
inductive SecretWrite where
  | pgrx (setting : Option String) (value : String) (salt : Nat)
  | sidecar (value : String)
  deriving DecidableEq, Repr

namespace SecretWrite

/-- The plaintext that was written. -/
def value : SecretWrite → String
  | .pgrx _ value _ => value
  | .sidecar value => value

/-- The session of a write: its own setting of the key. -/
def session (env : PgEnv) (setting : Option String) : PgEnv :=
  { env with gucs := { env.gucs with masterKey := setting } }

/-- The write, on the tables.  Neither statement is refused. -/
def apply (env : PgEnv) (name : String) (cfg : Config) : SecretWrite → Config
  | .pgrx setting value salt =>
    (Configure.secretSet (session env setting) name value salt cfg).toOption.getD cfg
  | .sidecar value => Sidecar.adminSecret name value cfg

/-- The key the extension encrypted with, if it did. -/
def key : SecretWrite → Option String
  | .pgrx setting _ _ => setting.filter fun k => !Text.isBlank k
  | .sidecar _ => none

end SecretWrite

/-- A sequence of writes, on the tables. -/
def applyWrites (env : PgEnv) (history : List (String × SecretWrite)) (cfg : Config) : Config :=
  history.foldl (fun cfg w => w.2.apply env w.1 cfg) cfg

/-- **Read back**: every reader of either host gets the plaintext, with the key set or not, and whether
its role may examine the setting or not. -/
structure ReadsBack (crypto : Pgcrypto) (cfg : Config) (name value : String) : Prop where
  secretValue : ∀ key, secretValue crypto key cfg name = .ok (some value)
  configSecrets : ∃ out, configSecrets crypto cfg [name] = .ok out ∧ out name = some value
  sidecar : Sidecar.secrets cfg [name] name = some value

end PgSynapse
