import PgSynapse.Config.Tables
import PgSynapse.Runtime.Builder

/-!
# The profile source of the sidecar

`SqlxProfileSource` reads the same tables as the extension, column by column and without its definer
functions (`pg-synapse-sidecar/src/db.rs`), and `build_runtime` builds a runtime from it
(`main.rs`).  The sidecar has no settings, so nothing is filled in, and no trace level, skills, hints
or lessons.
-/

namespace PgSynapse

namespace Sidecar

/-- `i as u32`, of an `i32`. -/
def asU32 (i : Int) : UInt32 := UInt32.ofNat (i % 2 ^ 32).toNat

/-- `i as u64`, of an `i64`. -/
def asU64 (i : Int) : UInt64 := UInt64.ofNat (i % 2 ^ 64).toNat

/-- `db_err`, of a column that does not decode. -/
def dbErr (column error : String) : RuntimeError :=
  .config ("db row decode: error occurred while decoding column \"" ++ column ++ "\": " ++ error)

/-- `try_get` of a `Vec<String>`. -/
def tryGetTexts (column : String) (a : TextArray) : Except RuntimeError (List String) :=
  let decoded : Except String (List String) := match a.lowerBounds with
    | [] => .ok []
    | [lower] =>
      if lower = 1 then a.texts "unexpected null; try decoding as an `Option`"
      else .error ("encountered an array with a lower bound of " ++ toString lower ++
        " in the first dimension; only arrays starting at one are supported")
    | bounds => .error ("encountered an array of " ++ toString bounds.length ++
        " dimensions; only one-dimensional arrays are supported")
  decoded.mapError (dbErr column)

/-- An agent with its tools, as the sidecar decodes it. -/
def agentRow (tools : List String) (a : AgentRecord) : AgentRow where
  name := a.name
  systemPrompt := a.systemPrompt
  soul := a.soul
  executorName := a.executorName
  llmProfileMain := a.llmProfileMain
  llmProfileSmall := a.llmProfileSmall
  llmProfileJudge := a.llmProfileJudge
  embeddingProfile := a.embeddingProfile
  tools := tools
  maxIterations := asU32 a.maxIterations
  timeoutMs := asU64 a.timeoutMs
  costCapUsd := a.costCapUsd
  traceLevel := none
  components := { Harness.default with
    guardrails := a.guardrails, memory := a.memory, critique := a.critique }

/-- A row of the query of `SqlxProfileSource::agents`, decoded. -/
def decodeAgent (a : AgentRecord) : Except RuntimeError AgentRow :=
  (tryGetTexts "tools" a.tools).map fun tools => agentRow tools a

/-- An embedding profile, as the sidecar decodes it. -/
def embeddingProfileRow (e : EmbeddingRecord) : EmbeddingProfileRow where
  name := e.name
  provider := e.provider
  model := e.model
  dimension := asU32 e.dimension
  apiKeySecret := e.apiKeySecret
  baseUrl := e.baseUrl
  params := e.params

/-- `out.insert(name, value)`: the column as it stands. -/
def insertSecret (out : String → Option String) (s : SecretRecord) : String → Option String :=
  Function.update out s.name (some s.value)

/-- `SqlxProfileSource::secrets`. -/
def secrets (cfg : Config) (names : List String) : String → Option String :=
  (cfg.secrets.rows.filter fun s => s.name ∈ names).foldl insertSecret fun _ => none

/-- `SqlxProfileSource`, when each of its queries is answered from the same tables. -/
def sqlxProfileSource (cfg : Config) : ProfileSource where
  llmProfiles := .ok cfg.llmProfiles.rows
  embeddingProfiles := .ok (cfg.embeddingProfiles.rows.map embeddingProfileRow)
  agents := cfg.agents.rows.mapM decodeAgent
  secrets names := .ok (secrets cfg names)

/-- `build_runtime`; the sidecar has no retry layer. -/
def buildRuntime {σ ε : Type} (registry : Registry σ ε) (cfg : Config) :
    Except RuntimeError (Runtime σ ε) :=
  Runtime.build registry id (sqlxProfileSource cfg)

end Sidecar

end PgSynapse
