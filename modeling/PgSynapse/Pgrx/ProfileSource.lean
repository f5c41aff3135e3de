import PgSynapse.Config.Tables
import PgSynapse.Runtime.Execute
import Mathlib.Data.List.Sort

/-!
# The profile source of the extension

How a backend builds its kernel from the configuration tables: the definer functions
`synapse.config_*`, `synapse.agent_llm_profile` and `synapse.secret_value` (`sql/schema.sql`), the
fallbacks from settings (`schema_guc.rs`), and `SpiProfileSource` with `load_harness_extras`
(`spi_executor.rs`).
-/

namespace PgSynapse

/-- `pgcrypto`: `armor(pgp_sym_encrypt(value, key))`, which draws a fresh `salt` each time, and
`pgp_sym_decrypt(dearmor(text), key)`, which raises on a text it cannot read. -/
structure Pgcrypto where
  encrypt : (value key : String) → (salt : Nat) → String
  decrypt : (text key : String) → Except String String

/-- The settings `pg_synapse.*` that the kernel's configuration depends on; `none` is a setting that
is not set. -/
structure Gucs where
  defaultLlmProfileMain : Option String
  defaultLlmProfileSmall : Option String
  defaultLlmProfileJudge : Option String
  defaultEmbeddingProfile : Option String
  defaultTimeoutMs : Int
  defaultTimeoutSeconds : Int
  defaultMaxIterations : Int
  defaultCostCapUsd : Option String
  defaultExecutor : Option String
  masterKey : Option String
  deriving DecidableEq, Repr

/-- What a backend's reads depend on besides the tables: its settings, `pgcrypto`, the order of the
database's collation, and how `f64` is parsed. -/
structure PgEnv where
  gucs : Gucs
  crypto : Pgcrypto
  collate : String → String → Bool
  parseF64 : String → Option (Extended Rat)

/-- `guc_string`, and `NULLIF(current_setting(..., true), '')`: an empty setting is as good as
none. -/
def gucString (setting : Option String) : Option String := setting.filter fun s => !s.isEmpty

/-! ### The definer functions -/

/-- `synapse.agent_llm_profile`, of a row: the profile it names, or the default of its tier. -/
def AgentRecord.llmProfile (gucs : Gucs) (a : AgentRecord) : Option String :=
  a.llmProfileMain.or
    (if a.modelTier = .small then gucString gucs.defaultLlmProfileSmall
     else gucString gucs.defaultLlmProfileMain)

/-- `synapse.agent_llm_profile`. -/
def agentLlmProfile (gucs : Gucs) (cfg : Config) (name : String) : Option String :=
  (cfg.agents.get name).bind (AgentRecord.llmProfile gucs)

/-- A row of `synapse.config_agents`, decoded. -/
def configAgent (gucs : Gucs) (cfg : Config) (a : AgentRecord) : Except String AgentRow := do
  -- the keys of the object come in alphabetical order
  let costCapUsd ← decodeF64 a.costCapUsd
  let maxIterations ← decodeU32 a.maxIterations
  let timeoutMs ← decodeU64 a.timeoutMs
  let tools ← decodeTexts a.tools
  return {
    name := a.name, systemPrompt := a.systemPrompt, soul := a.soul, executorName := a.executorName,
    -- the tier is resolved here, in SQL
    llmProfileMain := agentLlmProfile gucs cfg a.name,
    llmProfileSmall := a.llmProfileSmall.or (gucString gucs.defaultLlmProfileSmall),
    llmProfileJudge := a.llmProfileJudge, embeddingProfile := a.embeddingProfile, tools := tools,
    maxIterations := maxIterations, timeoutMs := timeoutMs, costCapUsd := costCapUsd,
    traceLevel := a.traceLevel,
    components := { Harness.default with
      guardrails := a.guardrails, memory := a.memory, critique := a.critique } }

/-- A row of `synapse.config_embedding_profiles`, decoded. -/
def configEmbeddingProfile (e : EmbeddingRecord) : Except String EmbeddingProfileRow := do
  let dimension ← decodeU32 e.dimension
  return { name := e.name, provider := e.provider, model := e.model, dimension := dimension,
           apiKeySecret := e.apiKeySecret, baseUrl := e.baseUrl, params := e.params }

/-- What `current_setting('pg_synapse.master_key', true)` comes to: NULL where nothing has defined the
setting, an error for a role that may not examine it, and else its text, empty if it is not set. -/
inductive KeySetting where
  | undefined
  | denied
  | shown (text : String)
  deriving DecidableEq, Repr

/-- `synapse.secret_value`, of a row, for a role to whom the setting of the key is as given. -/
def SecretRecord.plain (crypto : Pgcrypto) (key : KeySetting) (s : SecretRecord) :
    Except String (Option String) :=
  if s.isEncrypted then
    match key with
    -- `pgp_sym_decrypt` is STRICT
    | .undefined => .ok none
    | .denied => .error "permission denied to examine \"pg_synapse.master_key\""
    | .shown text => (crypto.decrypt s.value text).map some
  else .ok (some s.value)

/-- `synapse.secret_value`, which runs as its caller. -/
def secretValue (crypto : Pgcrypto) (key : KeySetting) (cfg : Config) (name : String) :
    Except String (Option String) :=
  match cfg.secrets.get name with
  | none => .ok none
  | some s => s.plain crypto key

/-- `synapse.config_secrets` over some rows.  It runs as `synapse_owner`, and the setting of the key is
`SUPERUSER_ONLY`.  A NULL value does not decode as a string. -/
def configSecretRows (crypto : Pgcrypto) (cfg : Config) :
    List SecretRecord → (String → Option String) → Except String (String → Option String)
  | [], out => .ok out
  | s :: rest, out =>
    match secretValue crypto .denied cfg s.name with
    | .error e => .error e
    -- one NULL value fails the whole map
    | .ok none => .error "secret decode: invalid type: null, expected a string"
    | .ok (some v) => configSecretRows crypto cfg rest (Function.update out s.name (some v))

/-- `synapse.config_secrets`, decoded. -/
def configSecrets (crypto : Pgcrypto) (cfg : Config) (names : List String) :
    Except String (String → Option String) :=
  configSecretRows crypto cfg (cfg.secrets.rows.filter fun s => s.name ∈ names) fun _ => none

/-! ### Settings -/

/-- `apply_guc_fallbacks`. -/
def applyGucFallbacks (env : PgEnv) (agent : AgentRow) : AgentRow :=
  let gucs := env.gucs
  { agent with
    -- the row has no tier any more: what SQL left NULL gets the default of the large tier
    llmProfileMain := agent.llmProfileMain.or (gucString gucs.defaultLlmProfileMain)
    llmProfileSmall := agent.llmProfileSmall.or (gucString gucs.defaultLlmProfileSmall)
    llmProfileJudge := agent.llmProfileJudge.or (gucString gucs.defaultLlmProfileJudge)
    embeddingProfile := agent.embeddingProfile.or (gucString gucs.defaultEmbeddingProfile)
    timeoutMs :=
      if agent.timeoutMs = 0 then
        -- milliseconds win over seconds; without either the agent has no limit
        if 0 < gucs.defaultTimeoutMs then UInt64.ofNat gucs.defaultTimeoutMs.toNat
        else if 0 < gucs.defaultTimeoutSeconds then
          UInt64.ofNat gucs.defaultTimeoutSeconds.toNat * 1000
        else agent.timeoutMs
      else agent.timeoutMs
    maxIterations :=
      if agent.maxIterations = 0 ∧ 0 < gucs.defaultMaxIterations then
        UInt32.ofNat gucs.defaultMaxIterations.toNat
      else agent.maxIterations
    costCapUsd := agent.costCapUsd.or ((gucString gucs.defaultCostCapUsd).bind env.parseF64)
    executorName :=
      if agent.executorName.isEmpty then (gucString gucs.defaultExecutor).getD agent.executorName
      else agent.executorName }

/-! ### The harness -/

/-- `LESSONS_HEADER`. -/
def lessonsHeader : String :=
  "Lessons from earlier runs of this agent (each cites the execution it came from):"

/-- The skills of `synapse.config_harness`, by name. -/
def configSkills (env : PgEnv) (cfg : Config) (agent : String) : List Skill :=
  ((cfg.skills.rows.filter fun s => s.agent = agent).map SkillRecord.skill).insertionSort
    fun a b => env.collate a.name b.name = true

/-- The tool hints of `synapse.config_harness`: the agent's own, then the global ones. -/
def configHints (cfg : Config) (agent : String) : List ToolHint :=
  let enabled := cfg.toolHints.filter HintRecord.enabled
  (enabled.filter (fun h => h.agent = some agent) ++ enabled.filter fun h => h.agent = none).map
    HintRecord.hint

/-- The active lessons of `synapse.config_harness`. -/
def configLessons (cfg : Config) (agent : String) : List LessonRecord :=
  cfg.lessons.filter fun l => l.agent = agent && l.active

/-- The memory with the lessons folded in. -/
def foldLessons (memory : Option String) (lessons : List LessonRecord) : Option String :=
  if lessons.isEmpty then memory
  else
    let lines := lessons.map fun l => "- When " ++ Text.trim l.cue ++ ": " ++ Text.trim l.lesson
    let block := lessonsHeader ++ "\n" ++ "\n".intercalate lines
    match memory with
    | some m => if Text.isBlank m then some block else some (Text.trimEnd m ++ "\n\n" ++ block)
    | none => some block

/-- `load_harness_extras`. -/
def loadHarnessExtras (env : PgEnv) (cfg : Config) (agent : AgentRow) : AgentRow :=
  { agent with components := { agent.components with
      skills := configSkills env cfg agent.name
      toolHints := configHints cfg agent.name
      memory := foldLessons agent.components.memory (configLessons cfg agent.name) } }

/-! ### The source -/

/-- `config_json`'s decoding error. -/
def configDecode {α : Type} (r : Except String α) : Except RuntimeError α :=
  r.mapError fun e => .config ("config decode: " ++ e)

/-- `SpiProfileSource`. -/
def spiProfileSource (env : PgEnv) (cfg : Config) : ProfileSource where
  llmProfiles := .ok cfg.llmProfiles.rows
  embeddingProfiles := configDecode (cfg.embeddingProfiles.rows.mapM configEmbeddingProfile)
  agents := (configDecode (cfg.agents.rows.mapM (configAgent env.gucs cfg))).map fun rows =>
    rows.map fun a => loadHarnessExtras env cfg (applyGucFallbacks env a)
  secrets names := (configSecrets env.crypto cfg names).mapError .config

/-- `build_kernel_from_db`; `registry` is what the plugins register and `retry` the retry layer. -/
def buildKernelFromDb {σ ε : Type} (registry : Registry σ ε) (retry : LlmHandle σ → LlmHandle σ)
    (env : PgEnv) (cfg : Config) : Except RuntimeError (Runtime σ ε) :=
  Runtime.build registry retry (spiProfileSource env cfg)

end PgSynapse
