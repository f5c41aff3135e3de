import PgSynapse.Config.Equiv.Secrets
import PgSynapse.Runtime.Equiv.Builder

/-!
# Changing the secrets of others

Both hosts build a new runtime when a secret was written.  A history of writes, by either host, to
secrets that the profiles of an agent do not name leaves every run of that agent as it was, on a
runtime that is built anew.  There is one unless the extension meets a secret that was encrypted, or a
provider is refused with its new key (`rotation_isolated`).
-/

namespace PgSynapse

/-- The programs that build a runtime from the tables. -/
inductive RuntimeHost where
  | pgrx
  | sidecar
  deriving DecidableEq, Repr

namespace RuntimeHost

variable (env : PgEnv) (cfg : Config)

/-- The source a host reads its configuration from. -/
def source : RuntimeHost → ProfileSource
  | .pgrx => spiProfileSource env cfg
  | .sidecar => Sidecar.sqlxProfileSource cfg

/-- The plaintext a host has for a name. -/
def store : RuntimeHost → String → Option String
  | .pgrx, key => (secretValue env.crypto .denied cfg key).toOption.join
  | .sidecar, key => (cfg.secrets.get key).map SecretRecord.value

end RuntimeHost

section Stores

variable {env : PgEnv} {cfg : Config}

end Stores

/-! ### A history of writes -/

section Histories

variable (env : PgEnv)

end Histories

/-- The names of the secrets that a history writes. -/
def written (history : List (String × SecretWrite)) : List String := history.map Prod.fst

section Rebuild

variable {σ ε : Type} {registry : Registry σ ε} {retry : LlmHandle σ → LlmHandle σ}
  {env : PgEnv} {cfg : Config} {history : List (String × SecretWrite)}

end Rebuild

namespace TwoProfiles

/-- A server that shows the key it was built with in the name of its model. -/
def serverOf (row : LlmProfileRow) : Except ProviderError (LlmHandle Script) :=
  .ok ⟨{ Script.provider with
    modelName := ((row.params.get? "_resolved_api_key").bind Value.asStr?).getD "no key" }, true⟩

def registry : Registry Script Unit :=
  ⟨Script.context.tools, fun _ => some .conversation, fun _ => some serverOf, fun _ => none⟩

/-- An agent on the profile `main`. -/
def clerk : AgentRecord where
  name := "clerk"
  systemPrompt := ""
  soul := none
  executorName := "conversation"
  llmProfileMain := some "main"
  llmProfileSmall := none
  llmProfileJudge := none
  embeddingProfile := none
  tools := .ofList ["lookup"]
  maxIterations := 8
  timeoutMs := 0
  costCapUsd := none
  traceLevel := none
  modelTier := .large
  guardrails := none
  memory := none
  critique := none

/-- The agent, its profile and another one, each with a key of its own. -/
def config : Config :=
  applyWrites TwoWriters.env [("main_key", .pgrx none "k1" 1), ("other_key", .sidecar "k2")]
    { Config.empty with
      agents := ⟨[clerk], by decide⟩
      llmProfiles := ⟨[⟨"main", "server", "m", some "main_key", none, .null⟩,
        ⟨"other", "server", "m", some "other_key", none, .null⟩], by decide⟩ }

end TwoProfiles

end PgSynapse
