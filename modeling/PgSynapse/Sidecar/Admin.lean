import PgSynapse.Sidecar.ProfileSource

/-!
# The admin writes of the sidecar

The statement each `POST /v1/admin/*` handler runs (`pg-synapse-sidecar/src/api.rs`), as a function on
the tables.
-/

namespace PgSynapse

namespace Sidecar

/-- `AdminAgentRequest`. -/
structure AdminAgentRequest where
  name : String
  systemPrompt : String
  soul : Option String
  executorName : Option String
  llmProfileMain : Option String
  llmProfileSmall : Option String
  llmProfileJudge : Option String
  embeddingProfile : Option String
  tools : Option (List String)
  maxIterations : Option Int
  timeoutMs : Option Int
  costCapUsd : Option Rat
  deriving DecidableEq, Repr

/-- `AdminLlmProfileRequest`. -/
structure AdminLlmProfileRequest where
  name : String
  provider : String
  model : String
  apiKeySecret : Option String
  baseUrl : Option String
  params : Option Value
  deriving DecidableEq, Repr

/-- `AdminEmbeddingProfileRequest`. -/
structure AdminEmbeddingProfileRequest where
  name : String
  provider : String
  model : String
  dimension : Int
  apiKeySecret : Option String
  baseUrl : Option String
  params : Option Value
  deriving DecidableEq, Repr

/-- `AdminToolRequest`. -/
structure AdminToolRequest where
  name : String
  description : Option String
  schemaJson : Value
  kind : Option String
  config : Option Value
  deriving DecidableEq, Repr

/-- An admin request that passed the token check. -/
inductive AdminRequest where
  | agent (body : AdminAgentRequest)
  | llmProfile (body : AdminLlmProfileRequest)
  | embeddingProfile (body : AdminEmbeddingProfileRequest)
  | secret (name value : String)
  | tool (body : AdminToolRequest)
  deriving DecidableEq, Repr

/-- The statement of `admin_agent_handler`. -/
def adminAgent (b : AdminAgentRequest) (cfg : Config) : Config :=
  let row : AgentRecord :=
    { name := b.name, systemPrompt := b.systemPrompt, soul := b.soul,
      executorName := b.executorName.getD "conversation", llmProfileMain := b.llmProfileMain,
      llmProfileSmall := b.llmProfileSmall, llmProfileJudge := b.llmProfileJudge,
      embeddingProfile := b.embeddingProfile, tools := .ofList (b.tools.getD []),
      maxIterations := b.maxIterations.getD 10, timeoutMs := b.timeoutMs.getD 60000,
      costCapUsd := b.costCapUsd.map .finite, traceLevel := none, modelTier := .large, guardrails := none,
      memory := none, critique := none }
  -- the columns the request does not carry keep their values
  let set (a : AgentRecord) : AgentRecord :=
    { row with name := a.name, traceLevel := a.traceLevel, modelTier := a.modelTier,
               guardrails := a.guardrails, memory := a.memory, critique := a.critique }
  { cfg with agents := cfg.agents.upsert row set fun _ => rfl }

/-- The statement of `admin_llm_profile_handler`. -/
def adminLlmProfile (b : AdminLlmProfileRequest) (cfg : Config) : Config :=
  let row : LlmProfileRow :=
    ⟨b.name, b.provider, b.model, b.apiKeySecret, b.baseUrl, b.params.getD (.obj [])⟩
  let set (p : LlmProfileRow) : LlmProfileRow := { row with name := p.name }
  { cfg with llmProfiles := cfg.llmProfiles.upsert row set fun _ => rfl }

/-- The statement of `admin_embedding_profile_handler`. -/
def adminEmbeddingProfile (b : AdminEmbeddingProfileRequest) (cfg : Config) : Config :=
  let row : EmbeddingRecord :=
    ⟨b.name, b.provider, b.model, b.dimension, b.apiKeySecret, b.baseUrl, b.params.getD (.obj [])⟩
  let set (e : EmbeddingRecord) : EmbeddingRecord := { row with name := e.name }
  { cfg with embeddingProfiles := cfg.embeddingProfiles.upsert row set fun _ => rfl }

/-- The statement of `admin_secret_handler`: `is_encrypted` is the column's default in a new row, and
stays as it is in one that is there. -/
def adminSecret (name value : String) (cfg : Config) : Config :=
  let set (s : SecretRecord) : SecretRecord := { s with value := value }
  { cfg with secrets := cfg.secrets.upsert ⟨name, value, false⟩ set fun _ => rfl }

/-- The statement of `admin_tool_handler`. -/
def adminTool (b : AdminToolRequest) (cfg : Config) : Config :=
  let row : ToolRecord :=
    ⟨b.name, b.description, b.schemaJson, b.kind.getD "external", b.config.getD (.obj [])⟩
  let set (t : ToolRecord) : ToolRecord := { row with name := t.name }
  { cfg with tools := cfg.tools.upsert row set fun _ => rfl }

/-- The statement of a request. -/
def AdminRequest.write : AdminRequest → Config → Config
  | .agent b => adminAgent b
  | .llmProfile b => adminLlmProfile b
  | .embeddingProfile b => adminEmbeddingProfile b
  | .secret name value => adminSecret name value
  | .tool b => adminTool b

end Sidecar

end PgSynapse
